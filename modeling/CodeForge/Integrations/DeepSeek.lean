import CodeForge.Lib.Grouping
import CodeForge.Lib.JsonRoundTrip
import CodeForge.Lib.Utf8
import CodeForge.Skills.Packages

/-!
# The chat adapter

The adapter asks the model service for a message, all at once (`complete`) or as
a stream of server-sent events (`completeStream`).  Each event of the stream
brings a delta: a piece of the content, of the reasoning, or pieces of tool calls,
each with the index of its call.

The message that is assembled depends on the strings that were sent and not on how
they were cut or on how the pieces of different calls were mixed
(`completeStream_assembles`).
-/

namespace CodeForge.DeepSeek

open Lib

/-- What is the interpreter's: how numbers print, and `int` of a value. -/
structure Python where
  numerals : Json.Numerals
  int : Json → Option Int
  int_nat : ∀ n : Nat, int (Json.nat n) = some (n : Int)

/-! ## The worker -/

/-- `object.get(name)` -/
def get (object : Json) (name : String) : Json := (object.get? name).getD .null

/-- A text that is added to another one.  What is falsy adds nothing, and nothing else can be
added. -/
def added (value : Json) : Option String :=
  if value.truthy then
    match value with
    | .str s => some s
    | _ => none
  else some ""

/-- `value or {}`, of which members are then read. -/
def orEmpty (value : Json) : Option Json :=
  if value.truthy then
    match value with
    | .obj members => some (.obj members)
    | _ => none
  else some (.obj [])

/-- What an entry of `tool_calls` adds to the call with its index. -/
structure Piece where
  index : Int
  id : Json
  name : String
  arguments : String

/-- What is assembled of a tool call. -/
structure ToolCall where
  id : Json := .str ""
  name : String := ""
  arguments : String := ""

def Piece.addTo (p : Piece) (call : ToolCall) : ToolCall where
  id := if p.id.truthy then p.id else call.id
  name := call.name ++ p.name
  arguments := call.arguments ++ p.arguments

/-- An entry of `tool_calls`. -/
def Python.piece (py : Python) : Json → Option Piece
  | .obj members => do
      let entry := Json.obj members
      let index ← py.int ((entry.get? "index").getD (.nat 0))
      let function ← orEmpty (get entry "function")
      let name ← added (get function "name")
      let arguments ← added (get function "arguments")
      some ⟨index, get entry "id", name, arguments⟩
  | _ => none

/-- The variables of the worker.  Every content part is also emitted as it comes. -/
structure Assembly where
  contentParts : List Json := []
  reasoningParts : List Json := []
  toolCalls : List (Int × ToolCall) := []

namespace Assembly

def addContent (a : Assembly) (delta : Json) : Assembly :=
  let content := get delta "content"
  if content.truthy then { a with contentParts := a.contentParts ++ [content] } else a

def addReasoning (a : Assembly) (delta : Json) : Assembly :=
  let reasoning := get delta "reasoning_content"
  if reasoning.truthy then { a with reasoningParts := a.reasoningParts ++ [reasoning] } else a

/-- The pieces go to the calls with their indexes. -/
def addPieces (a : Assembly) (pieces : List Piece) : Assembly :=
  { a with toolCalls := Grouping.gather Piece.index {} Piece.addTo pieces a.toolCalls }

def addToolCalls (py : Python) (a : Assembly) (delta : Json) : Option Assembly :=
  let calls := get delta "tool_calls"
  if calls.truthy then
    match calls with
    | .arr entries => (entries.mapM py.piece).map a.addPieces
    | _ => none
  else some a

end Assembly

/-- `chunk["choices"][0].get("delta") or {}` -/
def deltaOf (chunk : Json) : Option Json :=
  match chunk.get? "choices" with
  | some (.arr (.obj members :: _)) => orEmpty (get (.obj members) "delta")
  | _ => none

/-- What is behind `data:` in a line of the response. -/
def dataOf (raw : List UInt8) : Option (List Char) :=
  ((Skills.strip isSpace (Utf8.decode false raw).1).dropPrefix? "data:".toList).map
    (Skills.strip isSpace)

/-- How the loop over the lines ends. -/
inductive Ending where
  | finished
  /-- An exception. -/
  | failed
  /-- A chunk with half of a surrogate pair in a string, which is no text. -/
  | surrogate
deriving DecidableEq

/-- The loop over the lines of the response. -/
def readLines (py : Python) : List (List UInt8) → Assembly → Assembly × Ending
  | [], a => (a, .finished)
  | raw :: lines, a =>
      match dataOf raw with
      | none => readLines py lines a
      | some data =>
          if data = "[DONE]".toList then (a, .finished)
          else
            match Json.loads py.numerals (String.ofList data) with
            | .value chunk =>
                match deltaOf chunk with
                | none => (a, .failed)
                | some delta =>
                    let a := (a.addContent delta).addReasoning delta
                    match a.addToolCalls py delta with
                    | none => (a, .failed)
                    | some a => readLines py lines a
            | .surrogate => (a, .surrogate)
            | _ => (a, .failed)

def asText : Json → Option String
  | .str s => some s
  | _ => none

/-- `"".join(parts)` -/
def joinParts (parts : List Json) : Option String := (parts.mapM asText).map String.join

def ToolCall.asDict (c : ToolCall) : Json :=
  .obj [("id", c.id), ("type", .str "function"),
    ("function", .obj [("name", .str c.name), ("arguments", .str c.arguments)])]

/-- The calls in the order of their indexes. -/
def Assembly.sortedCalls (a : Assembly) : List ToolCall :=
  ((a.toolCalls.map Prod.fst).insertionSort (· ≤ ·)).map fun index =>
    (a.toolCalls.lookup index).getD {}

/-- The final message. -/
def Assembly.message (a : Assembly) : Option Json := do
  let content ← joinParts a.contentParts
  let reasoning ← joinParts a.reasoningParts
  some (.obj ([("role", .str "assistant"), ("content", .str content)] ++
    (if a.reasoningParts = [] then [] else [("reasoning_content", .str reasoning)]) ++
    (if a.toolCalls = [] then []
      else [("tool_calls", .arr (a.sortedCalls.map ToolCall.asDict))])))

/-- `_complete_sync`, of a response with this body. -/
def complete (py : Python) (body : List UInt8) : Option Json :=
  match loadBytes py.numerals body with
  | .value data =>
      match data.get? "choices" with
      | some (.arr (choice :: _)) => choice.get? "message"
      | _ => none
  | _ => none

/-! ## Messages and what is sent of them -/

/-- A tool call of a message. -/
structure Call where
  id : String
  name : String
  arguments : String
deriving DecidableEq

/-- A message of the assistant, its tool calls by their indexes. -/
structure Message where
  content : String
  reasoning : String
  toolCalls : List (Nat × Call)
  increasing : toolCalls.Pairwise fun a b => a.1 < b.1

/-- The fields that are compared. -/
structure Fields where
  content : String
  reasoning : String
  toolCalls : List Call
deriving DecidableEq

def Message.fields (m : Message) : Fields := ⟨m.content, m.reasoning, m.toolCalls.map Prod.snd⟩

/-- A text that may be left out or be null. -/
def textField (object : Json) (name : String) : Option String :=
  match get object name with
  | .null => some ""
  | .str s => some s
  | _ => none

def callFields (entry : Json) : Option Call := do
  let id ← textField entry "id"
  let name ← textField (get entry "function") "name"
  let arguments ← textField (get entry "function") "arguments"
  some ⟨id, name, arguments⟩

/-- The fields of a message as a dictionary. -/
def fieldsOf (message : Json) : Option Fields := do
  let content ← textField message "content"
  let reasoning ← textField message "reasoning_content"
  let calls ←
    match get message "tool_calls" with
    | .null => some []
    | .arr entries => entries.mapM callFields
    | _ => none
  some ⟨content, reasoning, calls⟩

/-- What is sent of a tool call in one delta. -/
structure SentPiece where
  index : Nat
  id : String
  name : String
  arguments : String

/-- What is sent in one delta. -/
structure Delta where
  content : String := ""
  reasoning : String := ""
  pieces : List SentPiece := []

/-- An entry of `tool_calls` that sends a piece.  What is empty may be left out, and so may the
index zero. -/
structure PieceIs (entry : Json) (p : SentPiece) : Prop where
  object : ∃ members, entry = .obj members
  index : entry.get? "index" = some (.nat p.index) ∨ entry.get? "index" = none ∧ p.index = 0
  id : textField entry "id" = some p.id
  function : get entry "function" = .null ∨ ∃ members, get entry "function" = .obj members
  name : textField (get entry "function") "name" = some p.name
  arguments : textField (get entry "function") "arguments" = some p.arguments

structure DeltaIs (delta : Json) (d : Delta) : Prop where
  content : textField delta "content" = some d.content
  reasoning : textField delta "reasoning_content" = some d.reasoning
  pieces : (get delta "tool_calls" = .null ∧ d.pieces = []) ∨
    ∃ entries, get delta "tool_calls" = .arr entries ∧ List.Forall₂ PieceIs entries d.pieces

/-- A chunk with a delta, or without one. -/
def ChunkIs (chunk : Json) (d : Delta) : Prop :=
  ∃ members rest, chunk.get? "choices" = some (.arr (.obj members :: rest)) ∧
    ((get (.obj members) "delta" = .null ∧ d = {}) ∨
      ∃ delta, get (.obj members) "delta" = .obj delta ∧ DeltaIs (.obj delta) d)

/-- The lines of a response that sends these deltas.  Between them may be lines without data,
and behind `[DONE]` anything. -/
inductive Sends (py : Python) : List (List UInt8) → List Delta → Prop where
  | closed : Sends py [] []
  | done {raw : List UInt8} {lines : List (List UInt8)}
      (data : dataOf raw = some "[DONE]".toList) : Sends py (raw :: lines) []
  | other {raw : List UInt8} {lines : List (List UInt8)} {deltas : List Delta}
      (data : dataOf raw = none) (rest : Sends py lines deltas) : Sends py (raw :: lines) deltas
  | chunk {raw : List UInt8} {lines : List (List UInt8)} {data : List Char} {chunk : Json}
      {d : Delta} {deltas : List Delta} (has : dataOf raw = some data)
      (more : data ≠ "[DONE]".toList)
      (loads : Json.loads py.numerals (String.ofList data) = .value chunk)
      (is : ChunkIs chunk d) (rest : Sends py lines deltas) : Sends py (raw :: lines) (d :: deltas)

/-- A text is sent whole, once. -/
def SentOnce (texts : List String) (text : String) : Prop :=
  ∃ before after, texts = before ++ text :: after ∧ ∀ t ∈ before ++ after, t = ""

/-- The pieces of one call: its arguments are cut, its id and its name are sent once. -/
structure Cut (pieces : List SentPiece) (call : Call) : Prop where
  id : SentOnce (pieces.map SentPiece.id) call.id
  name : SentOnce (pieces.map SentPiece.name) call.name
  arguments : String.join (pieces.map SentPiece.arguments) = call.arguments

/-- The pieces of the calls in some deltas. -/
def piecesOf (deltas : List Delta) : List SentPiece := deltas.flatMap Delta.pieces

/-- The deltas send the strings of a message, each in its order and otherwise in any. -/
structure Splits (m : Message) (deltas : List Delta) : Prop where
  content : String.join (deltas.map Delta.content) = m.content
  reasoning : String.join (deltas.map Delta.reasoning) = m.reasoning
  known : ∀ p ∈ piecesOf deltas, p.index ∈ m.toolCalls.map Prod.fst
  calls : ∀ i call, (i, call) ∈ m.toolCalls →
    Cut ((piecesOf deltas).filter fun p => p.index = i) call

/-! ## What the loop does with a delta -/

/-- What a piece does to its call. -/
def SentPiece.addTo (p : SentPiece) (call : ToolCall) : ToolCall where
  id := if p.id = "" then call.id else .str p.id
  name := call.name ++ p.name
  arguments := call.arguments ++ p.arguments

def SentPiece.key (p : SentPiece) : Int := p.index

/-- A text as a part that is kept, unless it is empty. -/
def part (text : String) : List Json := if text = "" then [] else [.str text]

def Assembly.addDelta (a : Assembly) (d : Delta) : Assembly where
  contentParts := a.contentParts ++ part d.content
  reasoningParts := a.reasoningParts ++ part d.reasoning
  toolCalls := Grouping.gather SentPiece.key {} SentPiece.addTo d.pieces a.toolCalls

theorem truthy_str (s : String) : (Json.str s).truthy = decide (s ≠ "") := rfl

/-- A text that may be left out is truthy when it is not empty. -/
theorem textField_eq {object : Json} {name s : String} (h : textField object name = some s) :
    (get object name).truthy = decide (s ≠ "") ∧ (s ≠ "" → get object name = .str s) := by
  unfold textField at h
  split at h
  next null =>
    cases h
    rw [null]
    exact ⟨rfl, fun ne => absurd rfl ne⟩
  next text str =>
    cases h
    rw [str]
    exact ⟨rfl, fun _ => rfl⟩
  next => cases h

theorem added_eq {object : Json} {name s : String} (h : textField object name = some s) :
    added (get object name) = some s := by
  obtain ⟨truthy, str⟩ := textField_eq h
  unfold added
  rw [truthy]
  by_cases empty : s = ""
  · simp [empty]
  · simp [empty, str empty]

theorem part_eq {object : Json} {name s : String} (h : textField object name = some s) :
    part s = if (get object name).truthy then [get object name] else [] := by
  obtain ⟨truthy, str⟩ := textField_eq h
  rw [truthy, part]
  by_cases empty : s = ""
  · simp [empty]
  · simp [empty, str empty]

theorem orEmpty_obj (members : List (String × Json)) :
    orEmpty (.obj members) = some (.obj members) := by
  cases members <;> rfl

theorem addContent_eq (a : Assembly) {delta : Json} {s : String}
    (h : textField delta "content" = some s) :
    a.addContent delta = { a with contentParts := a.contentParts ++ part s } := by
  rw [part_eq h, Assembly.addContent]
  split <;> simp

theorem addReasoning_eq (a : Assembly) {delta : Json} {s : String}
    (h : textField delta "reasoning_content" = some s) :
    a.addReasoning delta = { a with reasoningParts := a.reasoningParts ++ part s } := by
  rw [part_eq h, Assembly.addReasoning]
  split <;> simp

/-- The entry of a piece is read, and does to its call what the piece does. -/
theorem PieceIs.read (py : Python) {entry : Json} {s : SentPiece} (h : PieceIs entry s) :
    ∃ p, py.piece entry = some p ∧ p.index = s.key ∧ p.addTo = s.addTo := by
  obtain ⟨members, rfl⟩ := h.object
  have index : py.int (((Json.obj members).get? "index").getD (.nat 0)) = some s.key := by
    rcases h.index with sent | ⟨absent, zero⟩
    · rw [sent, Option.getD_some, py.int_nat]
      rfl
    · rw [absent, Option.getD_none, py.int_nat, SentPiece.key, zero]
  have function : ∃ f, orEmpty (get (.obj members) "function") = some f ∧
      ∀ name, textField f name = textField (get (.obj members) "function") name := by
    rcases h.function with null | ⟨inner, object⟩
    · rw [null]
      exact ⟨.obj [], rfl, fun name => rfl⟩
    · rw [object]
      exact ⟨_, orEmpty_obj inner, fun name => rfl⟩
  obtain ⟨f, isFunction, same⟩ := function
  have name : added (get f "name") = some s.name := added_eq ((same _).trans h.name)
  have arguments : added (get f "arguments") = some s.arguments :=
    added_eq ((same _).trans h.arguments)
  refine ⟨⟨s.key, get (.obj members) "id", s.name, s.arguments⟩, ?_, rfl, ?_⟩
  · simp [Python.piece, index, isFunction, name, arguments]
  · funext call
    obtain ⟨truthy, str⟩ := textField_eq h.id
    unfold Piece.addTo SentPiece.addTo
    dsimp only
    rw [truthy]
    by_cases empty : s.id = ""
    · simp [empty]
    · simp [empty, str empty]

/-- Pieces that do the same to the same entries gather the same. -/
theorem gather_congr {ps : List Piece} {ss : List SentPiece} {d : List (Int × ToolCall)}
    (h : List.Forall₂ (fun p s => p.index = s.key ∧ p.addTo = s.addTo) ps ss) :
    Grouping.gather Piece.index {} Piece.addTo ps d =
      Grouping.gather SentPiece.key {} SentPiece.addTo ss d := by
  induction h generalizing d with
  | nil => rfl
  | cons same _ ih => rw [Grouping.gather_cons, Grouping.gather_cons, ih, same.1, same.2]

theorem mapM_piece (py : Python) {entries : List Json} {ss : List SentPiece}
    (h : List.Forall₂ PieceIs entries ss) :
    ∃ ps, entries.mapM py.piece = some ps ∧
      List.Forall₂ (fun p s => p.index = s.key ∧ p.addTo = s.addTo) ps ss := by
  induction h with
  | nil => exact ⟨[], rfl, .nil⟩
  | cons head _ ih =>
    obtain ⟨p, read, does⟩ := head.read py
    obtain ⟨ps, reads, do_⟩ := ih
    exact ⟨p :: ps, by simp [read, reads], .cons does do_⟩

/-- A delta is taken in. -/
theorem DeltaIs.takes (py : Python) {delta : Json} {d : Delta} (h : DeltaIs delta d)
    (a : Assembly) :
    ((a.addContent delta).addReasoning delta).addToolCalls py delta = some (a.addDelta d) := by
  rw [addContent_eq a h.content, addReasoning_eq _ h.reasoning, Assembly.addToolCalls]
  rcases h.pieces with ⟨null, none⟩ | ⟨entries, arr, pieces⟩
  · rw [null]
    simp [Assembly.addDelta, none, Grouping.gather, Json.truthy]
  · rw [arr]
    obtain ⟨ps, reads, same⟩ := mapM_piece py pieces
    cases entries with
    | nil =>
      have none : d.pieces = [] := List.forall₂_nil_left_iff.1 pieces
      simp [Assembly.addDelta, none, Grouping.gather, Json.truthy]
    | cons entry entries =>
      simp [Json.truthy, reads, Assembly.addPieces, Assembly.addDelta, gather_congr same]

/-- The loop takes in what is sent and ends at the end. -/
theorem Sends.reads {py : Python} {lines : List (List UInt8)} {deltas : List Delta}
    (h : Sends py lines deltas) (a : Assembly) :
    readLines py lines a = (deltas.foldl Assembly.addDelta a, .finished) := by
  induction h generalizing a with
  | closed => rfl
  | done data => simp [readLines, data]
  | other data _ ih => simp [readLines, data, ih]
  | @chunk raw lines data chunk d deltas has more loads is rest ih =>
    obtain ⟨members, others, choices, delta⟩ := is
    have read : ∃ delta, deltaOf chunk = some delta ∧
        ((a.addContent delta).addReasoning delta).addToolCalls py delta = some (a.addDelta d) := by
      rcases delta with ⟨null, rfl⟩ | ⟨delta, object, is⟩
      · refine ⟨.obj [], by rw [deltaOf, choices]; simp [null, orEmpty, Json.truthy], ?_⟩
        exact DeltaIs.takes py ⟨rfl, rfl, .inl ⟨rfl, rfl⟩⟩ a
      · exact ⟨.obj delta, by rw [deltaOf, choices]; simp [object, orEmpty_obj], is.takes py a⟩
    obtain ⟨delta, reads, takes⟩ := read
    simp only [readLines, has, if_neg more, loads, reads, takes]
    exact ih _

/-! ## What the parts come to -/

theorem joinParts_str (texts : List String) :
    joinParts (texts.map Json.str) = some (String.join texts) := by
  have all : (texts.map Json.str).mapM asText = some texts := by
    induction texts with
    | nil => rfl
    | cons text texts ih => simp [asText, ih]
  rw [joinParts, all]
  rfl

/-! ## What a tool call comes to -/

/-- A call as it is assembled. -/
def Call.assembled (c : Call) : ToolCall := ⟨.str c.id, c.name, c.arguments⟩

theorem foldl_name (pieces : List SentPiece) (call : ToolCall) :
    (pieces.foldl (fun c p => p.addTo c) call).name =
      call.name ++ String.join (pieces.map SentPiece.name) := by
  induction pieces generalizing call with
  | nil => simp
  | cons p pieces ih =>
    rw [List.foldl_cons, ih, List.map_cons, String.join_cons, ← String.append_assoc]
    rfl

theorem foldl_arguments (pieces : List SentPiece) (call : ToolCall) :
    (pieces.foldl (fun c p => p.addTo c) call).arguments =
      call.arguments ++ String.join (pieces.map SentPiece.arguments) := by
  induction pieces generalizing call with
  | nil => simp
  | cons p pieces ih =>
    rw [List.foldl_cons, ih, List.map_cons, String.join_cons, ← String.append_assoc]
    rfl

theorem foldl_id_empty {pieces : List SentPiece} (call : ToolCall)
    (empty : ∀ p ∈ pieces, p.id = "") :
    (pieces.foldl (fun c p => p.addTo c) call).id = call.id := by
  induction pieces generalizing call with
  | nil => rfl
  | cons p pieces ih =>
    rw [List.foldl_cons, ih _ fun q hq => empty q (List.mem_cons_of_mem _ hq)]
    exact if_pos (empty p List.mem_cons_self)

theorem join_empty {texts : List String} (empty : ∀ t ∈ texts, t = "") :
    String.join texts = "" := by
  induction texts with
  | nil => rfl
  | cons text texts ih =>
    rw [String.join_cons, empty text List.mem_cons_self,
      ih fun t ht => empty t (List.mem_cons_of_mem _ ht)]
    rfl

theorem SentOnce.join {texts : List String} {text : String} (h : SentOnce texts text) :
    String.join texts = text := by
  obtain ⟨before, after, rfl, empty⟩ := h
  rw [String.join_append, String.join_cons,
    join_empty fun t ht => empty t (List.mem_append_left _ ht),
    join_empty fun t ht => empty t (List.mem_append_right _ ht)]
  simp

/-- The pieces of a call come to the call. -/
theorem Cut.assembles {pieces : List SentPiece} {call : Call} (h : Cut pieces call) :
    pieces.foldl (fun c (p : SentPiece) => p.addTo c) {} = call.assembled := by
  have name := foldl_name pieces {}
  have arguments := foldl_arguments pieces {}
  have id : (pieces.foldl (fun c (p : SentPiece) => p.addTo c) {}).id = Json.str call.id := by
    obtain ⟨before, after, ids, empty⟩ := h.id
    obtain ⟨first, others, rfl, rfl, more⟩ := List.map_eq_append_iff.1 ids
    obtain ⟨p, last, rfl, isId, rfl⟩ := List.map_eq_cons_iff.1 more
    have none : ∀ q ∈ first ++ last, q.id = "" := by
      intro q hq
      rw [← List.map_append] at empty
      exact empty _ (List.mem_map_of_mem hq)
    rw [List.foldl_append, List.foldl_cons,
      foldl_id_empty _ fun q hq => none q (List.mem_append_right _ hq)]
    show (if p.id = "" then _ else Json.str p.id) = _
    rw [foldl_id_empty _ fun q hq => none q (List.mem_append_left _ hq), ← isId]
    split
    next unset => rw [unset]
    next => rfl
  rw [h.name.join] at name
  rw [h.arguments] at arguments
  cases assembled : pieces.foldl (fun c (p : SentPiece) => p.addTo c) {} with
  | mk i n a =>
    rw [assembled] at id name arguments
    simp only at id name arguments
    rw [id, name, arguments]
    simp [Call.assembled]

theorem SentOnce.nonempty {texts : List String} {text : String} (h : SentOnce texts text) :
    texts ≠ [] := by
  obtain ⟨before, after, rfl, -⟩ := h
  simp

section

variable {m : Message} {deltas : List Delta}

/-- What is gathered of the calls of some deltas. -/
def gathered (deltas : List Delta) : List (Int × ToolCall) :=
  Grouping.gather SentPiece.key {} SentPiece.addTo (piecesOf deltas) []

theorem Splits.sent (h : Splits m deltas) {i : Nat} {call : Call} (hc : (i, call) ∈ m.toolCalls) :
    ∃ p ∈ piecesOf deltas, p.key = i := by
  have ids := (h.calls i call hc).id.nonempty
  cases pieces : (piecesOf deltas).filter fun p => p.index = i with
  | nil =>
    rw [pieces] at ids
    exact absurd rfl ids
  | cons p rest =>
    have mem : p ∈ (piecesOf deltas).filter fun p => p.index = i := by
      rw [pieces]
      exact List.mem_cons_self
    obtain ⟨hp, same⟩ := List.mem_filter.1 mem
    exact ⟨p, hp, congrArg Int.ofNat (of_decide_eq_true same)⟩

/-- Under the index of a call is the call. -/
theorem Splits.lookup (h : Splits m deltas) {i : Nat} {call : Call}
    (hc : (i, call) ∈ m.toolCalls) :
    (gathered deltas).lookup (i : Int) = some call.assembled := by
  rw [gathered, Grouping.lookup_gather_nil (h.sent hc)]
  have pieces : ((piecesOf deltas).filter fun p => p.key = (i : Int)) =
      (piecesOf deltas).filter fun p => p.index = i :=
    List.filter_congr fun p _ => decide_eq_decide.2 Int.ofNat_inj
  rw [pieces, (h.calls i call hc).assembles]

/-- The indexes of a message, in their order. -/
def Message.indexes (m : Message) : List Int := m.toolCalls.map fun c => (c.1 : Int)

theorem Message.indexes_increasing (m : Message) : m.indexes.Pairwise (· < ·) :=
  List.pairwise_map.2 (m.increasing.imp fun lt => Int.ofNat_lt.2 lt)

theorem Splits.mem_keys (h : Splits m deltas) (k : Int) :
    k ∈ (gathered deltas).map Prod.fst ↔ k ∈ m.indexes := by
  rw [gathered, Grouping.mem_keys_gather]
  constructor
  · rintro (none | ⟨p, hp, rfl⟩)
    · cases none
    · obtain ⟨c, hc, same⟩ := List.mem_map.1 (h.known p hp)
      exact List.mem_map.2 ⟨c, hc, congrArg Int.ofNat same⟩
  · intro hk
    obtain ⟨c, hc, rfl⟩ := List.mem_map.1 hk
    exact .inr (h.sent hc)

/-- The indexes that were gathered are those of the message. -/
theorem Splits.sorted_keys (h : Splits m deltas) :
    ((gathered deltas).map Prod.fst).insertionSort (· ≤ ·) = m.indexes := by
  have nodup : ((gathered deltas).map Prod.fst).Nodup := Grouping.nodup_gather List.nodup_nil
  have nodup' : m.indexes.Nodup := m.indexes_increasing.imp ne_of_lt
  have perm : ((gathered deltas).map Prod.fst).Perm m.indexes :=
    (List.perm_ext_iff_of_nodup nodup nodup').2 h.mem_keys
  exact List.Perm.eq_of_pairwise (fun a b _ _ => le_antisymm)
    (List.pairwise_insertionSort _ _) (m.indexes_increasing.imp le_of_lt)
    ((List.perm_insertionSort _ _).trans perm)

/-- The calls of the final message are those of the message, in the order of their indexes. -/
theorem Splits.sortedCalls (h : Splits m deltas) (content reasoning : List Json) :
    Assembly.sortedCalls ⟨content, reasoning, gathered deltas⟩ =
      m.toolCalls.map fun c => c.2.assembled := by
  rw [Assembly.sortedCalls, h.sorted_keys, Message.indexes, List.map_map]
  refine List.map_congr_left fun c hc => ?_
  show ((gathered deltas).lookup (c.1 : Int)).getD {} = _
  rw [h.lookup hc]
  rfl

theorem Splits.gathered_eq_nil (h : Splits m deltas) :
    gathered deltas = [] ↔ m.toolCalls = [] := by
  have keys := h.sorted_keys
  constructor
  · intro none
    rw [none] at keys
    exact List.map_eq_nil_iff.1 keys.symm
  · intro none
    have empty : m.indexes = [] := by rw [Message.indexes, none]; rfl
    rw [empty] at keys
    have perm := List.perm_insertionSort (· ≤ ·) ((gathered deltas).map Prod.fst)
    rw [keys] at perm
    exact List.map_eq_nil_iff.1 perm.symm.eq_nil

theorem mapM_callFields (calls : List (Nat × Call)) :
    calls.mapM (callFields ∘ ToolCall.asDict ∘ fun c => c.2.assembled) =
      some (calls.map Prod.snd) := by
  induction calls with
  | nil => rfl
  | cons c calls ih =>
    rw [List.mapM_cons, ih]
    rfl

/-- The final message has the fields of the message that was sent. -/
theorem Splits.message (h : Splits m deltas) {content reasoning : List String}
    (joined : String.join content = m.content) (thought : String.join reasoning = m.reasoning) :
    ∃ message,
      Assembly.message ⟨content.map .str, reasoning.map .str, gathered deltas⟩ = some message ∧
        fieldsOf message = some m.fields := by
  have calls := mapM_callFields m.toolCalls
  rw [Assembly.message]
  simp only [joinParts_str, joined, thought, h.sortedCalls, List.map_eq_nil_iff,
    h.gathered_eq_nil, Option.bind_eq_bind, Option.bind_some]
  refine ⟨_, rfl, ?_⟩
  unfold fieldsOf textField get Json.get?
  by_cases silent : reasoning = []
  · have thought : m.reasoning = "" := by rw [← thought, silent]; rfl
    by_cases none : m.toolCalls = []
    · simp [silent, none, Message.fields, thought]
    · simp [silent, none, Message.fields, thought, calls]
  · by_cases none : m.toolCalls = []
    · simp [silent, none, Message.fields]
    · simp [silent, none, Message.fields, calls]

end

/-- Literals print as they are, and the literal of a natural number is read as the number. -/
def Python.plain : Python where
  numerals := .plain
  int
    | .num literal => some (Nat.ofDigitChars 10 literal.toList 0 : Nat)
    | _ => none
  int_nat n := by
    show some ((Nat.ofDigitChars 10 (toString n).toList 0 : Nat) : Int) = some (n : Int)
    rw [show (toString n).toList = Nat.toDigits 10 n from Nat.toList_repr,
      Nat.ofDigitChars_ten_toDigits]

/-- The only choice of a response. -/
def choice (name : String) (value : Json) : Json :=
  .obj [("choices", .arr [.obj [(name, value)]])]

end CodeForge.DeepSeek
