import CodeForge.Lib.JsonSame
import CodeForge.Lib.Verdicts
import CodeForge.Persistence.Access
import CodeForge.Persistence.Integrity

/-!
# Reading damaged files

A row keeps the digest of every body it refers to.  The digest of an event is
compared with its record when it is read; those of messages, snapshots and
requests for the user's input are not.  In turn a log that is gone, or is cut to
what is no JSON text, raises what opening and parsing raise.

So what a reader makes of a file depends on the kind of the body, and on what is
in the file: `objectVerdict`, `recordVerdict`.  `readers_faithful_iff` says which files
a call reads, one after the other, and for which contents it returns the bodies
that were committed, or says that they are not available.
-/

namespace CodeForge

open Lib

/-! ## Committed bodies -/

/-- What was committed under the references of a run. -/
structure RunBodies where
  input : String
  configSnapshot : RunSnapshot
  output : Option String

/-- What was committed under the reference of an event, and under the reference to an output in
it. -/
structure EventBody where
  data : List (String × Json)
  output : Option String

/-- What was committed under the references of all rows. -/
structure Bodies where
  run : RunRow → RunBodies
  event : EventRow → EventBody
  pending : PendingRow → List (String × Json)

/-- The digests of a run are those of the bodies. -/
structure RunRow.Commits (d : Deployment) (r : RunRow) (b : RunBodies) : Prop where
  input : r.inputDigest = d.sha256 (messagePayload d r.sessionId r.id .user b.input r.runSeq)
  configSnapshot : r.configSnapshotDigest = d.sha256 (snapshotPayload b.configSnapshot)
  output : r.outputDigest = b.output.map fun text =>
    d.sha256 (messagePayload d r.sessionId r.id .assistant text r.runSeq)
  outputRef : r.outputRef.isSome = b.output.isSome

/-- The reference to an output that `_event_payload` follows. -/
def outputRef (data : List (String × Json)) : Option String :=
  match (Json.obj data).get? "output_ref", ((Json.obj data).get? "output").getD .null with
  | some (.str ref), .null => if ref = "" then none else some ref
  | _, _ => none

/-- What readers put in the place of an event's reference. -/
def EventBody.shown (b : EventBody) : Json :=
  let rest := b.data.filter fun m => m.1 ≠ "output_ref"
  match b.output with
  | none => .obj rest
  | some text => .obj ((rest.filter fun m => m.1 ≠ "output") ++ [("output", .str text)])

/-- The digest of an event is that of the body, which is a dictionary. -/
structure EventRow.Commits (d : Deployment) (numerals : Json.Numerals) (e : EventRow)
    (b : EventBody) : Prop where
  data : e.data = .obj b.data
  valid : e.data.Valid numerals
  stamped : e.dataDigest ≠ ""
  digest : ∃ runSeq actor,
    e.dataDigest = d.sha256 (utf8 (eventRecord d e runSeq actor).canonical)
  reference : ∀ j, (Json.obj b.data).get? "output_ref" = some j → j.truthy = true →
    ∃ ref, j = .str ref
  output : (outputRef b.data).isSome = b.output.isSome

/-- The digest of a request for the user's input is that of the body, which is a dictionary. -/
def PendingRow.Commits (d : Deployment) (numerals : Json.Numerals) (p : PendingRow)
    (payload : List (String × Json)) : Prop :=
  ∃ bytes, p.payloadDigest = d.sha256 bytes ∧ loadBytes numerals bytes = .value (.obj payload)

/-- The digests of all rows are those of the bodies. -/
structure Db.Commits (d : Deployment) (numerals : Json.Numerals) (db : Db) (B : Bodies) :
    Prop where
  run : ∀ r ∈ db.runs, r.Commits d (B.run r)
  event : ∀ e ∈ db.events, e.Commits d numerals (B.event e)
  pending : ∀ p ∈ db.pendings, p.Commits d numerals (B.pending p)

/-- A list of texts is a value. -/
theorem validTexts (numerals : Json.Numerals) (texts : List String) :
    Json.ValidItems numerals (texts.map .str) := by
  rw [Json.validItems_iff]
  intro j hj
  obtain ⟨text, -, rfl⟩ := List.mem_map.1 hj
  trivial

/-- The dictionary of a snapshot is a value. -/
theorem RunSnapshot.asDict_valid (snapshot : RunSnapshot) (numerals : Json.Numerals) :
    snapshot.asDict.Valid numerals := by
  have skills : Json.ValidItems numerals (snapshot.skills.map SkillRef.asDict) := by
    rw [Json.validItems_iff]
    intro j hj
    obtain ⟨skill, -, rfl⟩ := List.mem_map.1 hj
    exact ⟨by simp, by simp [Json.ValidMembers, Json.Valid]⟩
  have binding : (optBinding snapshot.userBinding).Valid numerals := by
    cases snapshot.userBinding with
    | none => trivial
    | some b => exact ⟨by simp, by simp [Json.ValidMembers, Json.Valid]⟩
  refine ⟨by simp, ?_⟩
  simp [Json.ValidMembers, Json.Valid, skills, binding, validTexts]

/-! ## What readers give -/

/-- A body that was read is the value, up to the order of members. -/
def Body.Is (b : Body) (j : Json) : Prop := ∃ k, b = .json k ∧ k.sorted = j.sorted

/-- `DEPENDENCY_UNAVAILABLE` -/
def ReadError.Unavailable : ReadError → Prop
  | .unavailable _ => True
  | .uncaught _ => False

/-- A prompt of a request for the user's input. -/
def promptIn (payload : List (String × Json)) : Json :=
  ((Json.obj payload).get? "prompt").getD (.str "")

namespace Reader

/-- A run is given with the bodies that were committed. -/
structure RunView.Shows (v : RunView) (r : RunRow) (b : RunBodies) : Prop where
  row : v.row = r
  configSnapshot : v.configSnapshot.Is b.configSnapshot.asDict
  input : v.input.Is (.str b.input)
  output : Option.Rel (fun text body => body.Is (.str text)) b.output v.output

/-- So is an event. -/
structure EventView.Shows (v : EventView) (e : EventRow) (b : EventBody) : Prop where
  row : v.row = e
  data : v.data.Is b.shown

/-- So is a request for the user's input. -/
structure PendingView.Shows (v : PendingView) (p : PendingRow) (payload : List (String × Json)) :
    Prop where
  row : v.id = p.id ∧ v.kind = p.kind ∧ v.responseKey = p.responseKey ∧
    v.responseDigest = p.responseDigest ∧ v.resolvedAt = p.resolvedAt
  prompt : v.prompt.Is (promptIn payload)

variable (R : Reader) (d : Deployment)

/-! ## What is in a file -/

/-- What the text of a file is read as, if the file is there. -/
def found (base : String) (ref : ContentPath) : Option Json.Loaded :=
  (R.disk (base, ref)).map (loadBytes R.numerals)

/-- The verdict on a file of its own: one that is gone, or holds no JSON text, is noticed. -/
def objectVerdict (file : Option Json.Loaded) (value : Json → Verdict) : Verdict :=
  match file with
  | some (.value j) => value j
  | some .surrogate => .wrong
  | some .malformed | some .undecodable | none => .noticed

/-- A value in the place of another one. -/
def sameVerdict (committed j : Json) : Verdict :=
  if j.canonical = committed.canonical then .whole else .wrong

/-- Nothing is asked of a snapshot. -/
def snapshotVerdict (base : String) (ref : ContentPath) (snapshot : RunSnapshot) : Verdict :=
  objectVerdict (R.found base ref) (sameVerdict snapshot.asDict)

/-- A message is asked for its content. -/
def messageVerdict (base : String) (ref : ContentPath) (content : String) : Verdict :=
  objectVerdict (R.found base ref) fun
    | .obj ms => sameVerdict (.str content) (((Json.obj ms).get? "content").getD (.str ""))
    | _ => .uncaught

/-- A request for the user's input is asked for its prompt. -/
def promptVerdict (base : String) (ref : ContentPath) (payload : List (String × Json)) : Verdict :=
  objectVerdict (R.found base ref) fun
    | .obj ms => sameVerdict (promptIn payload) (promptIn ms)
    | j => if j.truthy then .uncaught else sameVerdict (promptIn payload) (.str "")

/-- The verdict on a part of a log: its digest is compared, but only where it is a JSON text. -/
def recordVerdict (base : String) (e : EventRow) : Verdict :=
  match (R.disk (base, e.dataRef)).map fun b =>
      loadBytes R.numerals ((b.drop e.dataOffset).take e.dataBytes) with
  | some (.value j) => if d.sha256 (utf8 j.canonical) = e.dataDigest then .whole else .noticed
  | some .surrogate | some .malformed | some .undecodable | none => .uncaught

/-- The files of a run, in the order in which they are read. -/
def runVerdicts (db : Db) (r : RunRow) (b : RunBodies) : List Verdict :=
  let base := db.baseForSession d r.sessionId
  [R.snapshotVerdict base r.configSnapshotRef b.configSnapshot,
    R.messageVerdict base r.inputRef b.input] ++
  r.outputRef.toList.map fun ref => R.messageVerdict base ref (b.output.getD "")

/-- The log of an event, and the message it refers to. -/
def eventVerdicts (db : Db) (e : EventRow) (b : EventBody) : List Verdict :=
  let base := db.baseForSession d e.sessionId
  R.recordVerdict d base e ::
    (outputRef b.data).toList.map fun ref =>
      R.messageVerdict base (R.locate ref) (b.output.getD "")

/-- The file of a request for the user's input. -/
def pendingVerdict (base : String) (p : PendingRow) (payload : List (String × Json)) : Verdict :=
  R.promptVerdict base (R.locate p.payloadRef) payload

/-! ## One file -/

section Files

variable {R d} {base : String} {ref : ContentPath}

/-- A value that was read in the place of another one. -/
theorem same_reads {committed j : Json} (hj : j.Valid R.numerals)
    (hc : committed.Valid R.numerals) :
    Reads ReadError.Unavailable (Body.Is · committed) (.ok (.json j))
      [sameVerdict committed j] := by
  have same := Json.canonical_eq_iff hj hc
  by_cases text : j.canonical = committed.canonical
  · rw [sameVerdict, if_pos text]
    exact .whole ⟨j, rfl, same.1 text⟩
  · rw [sameVerdict, if_neg text]
    refine .wrong ?_
    rintro ⟨k, ⟨⟩, sorted⟩
    exact text (same.2 sorted)

theorem surrogate_reads {committed : Json} :
    Reads ReadError.Unavailable (Body.Is · committed) (.ok .surrogate) [.wrong] := by
  refine .wrong ?_
  rintro ⟨k, ⟨⟩, -⟩

/-- Reading a file of its own, and a part of the value in it. -/
theorem object_reads {committed : Json} {part : Body → Except ReadError Body}
    {value : Json → Verdict}
    (values : ∀ j, j.Valid R.numerals →
      Reads ReadError.Unavailable (Body.Is · committed) (part (.json j)) [value j])
    (surrogates : part .surrogate = .ok .surrogate) :
    Reads ReadError.Unavailable (Body.Is · committed) (R.readObjectJson base ref >>= part)
      [objectVerdict (R.found base ref) value] := by
  rw [readObjectJson, readObject, found]
  cases R.disk (base, ref) with
  | none => exact .noticed trivial
  | some b =>
      rw [Option.map_some, except_ok_bind, loadObject]
      cases read : loadBytes R.numerals b with
      | value j =>
          exact values j (valid_of_loadBytes read)
      | surrogate =>
          rw [except_ok_bind, surrogates]
          exact surrogate_reads
      | malformed | undecodable => exact .noticed trivial

theorem snapshot_reads {snapshot : RunSnapshot} :
    Reads ReadError.Unavailable (Body.Is · snapshot.asDict) (R.readObjectJson base ref)
      [R.snapshotVerdict base ref snapshot] := by
  have read := @object_reads R base ref _ pure _
    (fun j hj => same_reads hj (snapshot.asDict_valid R.numerals)) rfl
  rw [bind_pure] at read
  exact read

theorem readMessage_reads {content : String} :
    Reads ReadError.Unavailable (Body.Is · (.str content)) (R.readMessage base ref)
      [R.messageVerdict base ref content] := by
  have assoc : R.readMessage base ref = R.readObjectJson base ref >>= contentOf := by
    rw [readObjectJson, bind_assoc]
    rfl
  rw [assoc]
  refine object_reads (fun j hj => ?_) rfl
  cases j with
  | obj ms =>
      exact @same_reads R _ _ (Json.valid_getD hj _ _) trivial
  | null | bool _ | num _ | str _ | arr _ => exact .uncaught id

/-- `_read_object_json` and `promptOf`, which `get_snapshot` asks next. -/
theorem prompt_reads {payload : List (String × Json)}
    (valid : (promptIn payload).Valid R.numerals) :
    Reads ReadError.Unavailable (Body.Is · (promptIn payload))
      (R.readObjectJson base ref >>= promptOf) [R.promptVerdict base ref payload] := by
  refine object_reads (fun j hj => ?_) rfl
  have other : ∀ j : Json, Reads ReadError.Unavailable (Body.Is · (promptIn payload))
      (if j.truthy then .error (.uncaught .attribute) else .ok (.json (.str "")))
      [if j.truthy then .uncaught else sameVerdict (promptIn payload) (.str "")] := by
    intro j
    cases j.truthy with
    | true => exact .uncaught id
    | false => exact @same_reads R _ _ trivial valid
  cases j with
  | obj ms => exact @same_reads R _ _ (Json.valid_getD hj _ _) valid
  | null | bool _ | num _ | str _ | arr _ => exact other _

/-- `read_verified` gives nothing but records with the digest. -/
theorem readVerified_reads {e : EventRow} (stamped : e.dataDigest ≠ "") :
    Reads ReadError.Unavailable (fun _ => True)
      (R.readVerified d base e.dataRef e.dataOffset e.dataBytes e.dataDigest)
      [R.recordVerdict d base e] := by
  rw [readVerified, readRecord, recordVerdict]
  cases R.disk (base, e.dataRef) with
  | none => exact .uncaught id
  | some b =>
      rw [Option.map_some]
      dsimp only
      cases read : loadBytes R.numerals ((b.drop e.dataOffset).take e.dataBytes) with
      | value j =>
          rw [except_ok_bind, if_neg stamped]
          by_cases digest : d.sha256 (utf8 j.canonical) = e.dataDigest
          · simp only [digest, ne_eq, not_true_eq_false, ↓reduceIte]
            exact .whole trivial
          · simp only [digest, ne_eq, not_false_eq_true, ↓reduceIte]
            exact .noticed trivial
      | surrogate =>
          rw [except_ok_bind, if_neg stamped]
          exact .uncaught id
      | malformed | undecodable => exact .uncaught id

/-- A record that was verified has the digest. -/
theorem readVerified_eq_ok {e : EventRow} (stamped : e.dataDigest ≠ "") {record : Body}
    (h : R.readVerified d base e.dataRef e.dataOffset e.dataBytes e.dataDigest = .ok record) :
    ∃ j, record = .json j ∧ j.Valid R.numerals ∧
      d.sha256 (utf8 j.canonical) = e.dataDigest := by
  rw [readVerified, readRecord] at h
  obtain ⟨body, read, h⟩ := except_bind_eq_ok.1 h
  rw [if_neg stamped] at h
  cases file : R.disk (base, e.dataRef) with
  | none =>
      rw [file] at read
      cases read
  | some b =>
      rw [file] at read
      dsimp only at read
      cases loaded : loadBytes R.numerals ((b.drop e.dataOffset).take e.dataBytes) with
      | value j =>
          rw [loaded] at read
          cases read
          dsimp only at h
          split at h
          · cases h
          next digest =>
            cases h
            exact ⟨j, rfl, valid_of_loadBytes loaded, not_not.1 digest⟩
      | surrogate =>
          rw [loaded] at read
          cases read
          cases h
      | malformed | undecodable =>
          rw [loaded] at read
          cases read

end Files

/-! ## The body of an event -/

section Events

variable {R d} {base : String} {data data' : List (String × Json)}

/-- A member that is not filtered out. -/
theorem get?_filter {ms : List (String × Json)} {p : String → Bool} {key : String}
    (kept : p key = true) :
    (Json.obj (ms.filter fun m => p m.1)).get? key = (Json.obj ms).get? key := by
  rw [Json.get?, Json.get?, List.find?_filter]
  congr 2
  funext m
  by_cases same : m.1 = key
  · simp [same, kept]
  · simp [same]

/-- A member at the end. -/
theorem get?_append {ms : List (String × Json)} {key : String} (new : key ∉ ms.map Prod.fst)
    (j : Json) : (Json.obj (ms ++ [(key, j)])).get? key = some j := by
  have other : ms.find? (fun m => m.1 = key) = none := by
    rw [List.find?_eq_none]
    intro m hm same
    exact new (List.mem_map.2 ⟨m, hm, of_decide_eq_true same⟩)
  rw [Json.get?, List.find?_append, other]
  simp

/-- What a reference says is said of the sorted values. -/
theorem outputRef_eq :
    outputRef data = match ((Json.obj data).get? "output_ref").map Json.sorted,
        (((Json.obj data).get? "output").getD .null).sorted with
      | some (.str ref), .null => if ref = "" then none else some ref
      | _, _ => none := by
  rw [outputRef]
  cases (Json.obj data).get? "output_ref" with
  | none => rfl
  | some j =>
      cases j <;> cases ((Json.obj data).get? "output").getD .null <;> rfl

/-- Equal bodies have the same reference. -/
theorem outputRef_same (nodup : (data.map Prod.fst).Nodup) (nodup' : (data'.map Prod.fst).Nodup)
    (same : (Json.obj data').sorted = (Json.obj data).sorted) :
    outputRef data' = outputRef data := by
  have members := Json.get?_same nodup' nodup same
  have output : (((Json.obj data').get? "output").getD .null).sorted =
      (((Json.obj data).get? "output").getD .null).sorted := by
    have both := members "output"
    cases here : (Json.obj data').get? "output" <;> cases there : (Json.obj data).get? "output" <;>
      rw [here, there] at both <;> simp_all
  rw [outputRef_eq, outputRef_eq, members, output]

/-- `_event_payload` follows a reference that is a text. -/
theorem withOutput_eq (reference : ∀ j, (Json.obj data).get? "output_ref" = some j →
      j.truthy = true → ∃ ref, j = .str ref) :
    R.withOutput base data =
      match outputRef data with
      | none => .ok (.json (.obj (data.filter fun m => m.1 ≠ "output_ref")))
      | some ref => R.readMessage base (R.locate ref) >>= fun output => .ok
          (match output with
          | .json j => .json (.obj (((data.filter fun m => m.1 ≠ "output_ref").filter
              fun m => m.1 ≠ "output") ++ [("output", j)]))
          | .surrogate => .surrogate) := by
  have output : (Json.obj (data.filter fun m => m.1 ≠ "output_ref")).get? "output" =
      (Json.obj data).get? "output" :=
    @get?_filter data (fun key => key ≠ "output_ref") "output" (by decide)
  rw [withOutput, outputRef, output]
  cases named : (Json.obj data).get? "output_ref" with
  | none => cases ((Json.obj data).get? "output").getD .null <;> rfl
  | some j =>
      cases text : j.truthy with
      | true =>
          obtain ⟨ref, rfl⟩ := reference j named text
          have ne : ref ≠ "" := by simpa [Json.truthy] using text
          cases ((Json.obj data).get? "output").getD .null with
          | null =>
              simp only [ne, ↓reduceIte]
              congr 1
              funext body
              cases body <;> rfl
          | bool _ | num _ | str _ | arr _ | obj _ => rfl
      | false =>
          cases j with
          | str s =>
              have empty : s = "" := by simpa [Json.truthy] using text
              cases ((Json.obj data).get? "output").getD .null <;> simp [empty]
          | null | bool _ | num _ | arr _ | obj _ =>
              cases ((Json.obj data).get? "output").getD .null <;> simp [text]

/-- The body of an event, with its output. -/
theorem withOutput_reads {b : EventBody} (valid : (Json.obj b.data).Valid R.numerals)
    (valid' : (Json.obj data').Valid R.numerals)
    (same : (Json.obj data').sorted = (Json.obj b.data).sorted)
    (reference : ∀ j, (Json.obj b.data).get? "output_ref" = some j → j.truthy = true →
      ∃ ref, j = .str ref)
    (output : (outputRef b.data).isSome = b.output.isSome) :
    Reads ReadError.Unavailable (Body.Is · b.shown) (R.withOutput base data')
      ((outputRef b.data).toList.map fun ref =>
        R.messageVerdict base (R.locate ref) (b.output.getD "")) := by
  have nodup := Json.valid_obj_nodup valid
  have nodup' := Json.valid_obj_nodup valid'
  have reference' : ∀ j, (Json.obj data').get? "output_ref" = some j → j.truthy = true →
      ∃ ref, j = .str ref := by
    intro j named text
    have members := Json.get?_same nodup' nodup same "output_ref"
    rw [named] at members
    obtain ⟨k, named', sorted⟩ := Option.map_eq_some_iff.1 members.symm
    rw [← Json.truthy_sorted, ← sorted, Json.truthy_sorted] at text
    obtain ⟨ref, rfl⟩ := reference k named' text
    exact ⟨ref, Json.sorted_eq_str.1 sorted.symm⟩
  have rest : (Json.obj (data'.filter fun m => m.1 ≠ "output_ref")).sorted =
      (Json.obj (b.data.filter fun m => m.1 ≠ "output_ref")).sorted :=
    Json.sorted_filter nodup' (fun key => key ≠ "output_ref") same
  rw [withOutput_eq reference', outputRef_same nodup nodup' same]
  cases named : outputRef b.data with
  | none =>
      rw [named] at output
      have silent : b.output = none := by simpa using output.symm
      refine .nil ⟨_, rfl, ?_⟩
      rw [EventBody.shown, silent]
      exact rest
  | some ref =>
      rw [named] at output
      obtain ⟨text, spoken⟩ := Option.isSome_iff_exists.1 output.symm
      rw [spoken, Option.getD_some, Option.toList_some, List.map_singleton]
      have new : ∀ l : List (String × Json),
          "output" ∉ (l.filter fun m => m.1 ≠ "output").map Prod.fst := by
        intro l
        simp
      have bare : ((data'.filter fun m => m.1 ≠ "output_ref").map Prod.fst).Nodup :=
        (List.filter_sublist.map _).nodup nodup'
      have others := Json.sorted_filter bare (fun key => key ≠ "output") rest
      refine readMessage_reads.map fun body _ => ?_
      rw [EventBody.shown, spoken]
      cases body with
      | surrogate => constructor <;> rintro ⟨k, ⟨⟩, -⟩
      | json j =>
          constructor
          · rintro ⟨k, ⟨⟩, whole⟩
            have members := Json.get?_same
              (Json.nodup_append ((List.filter_sublist.map _).nodup bare) (new _))
              (Json.nodup_append ((List.filter_sublist.map _).nodup
                ((List.filter_sublist.map _).nodup nodup)) (new _)) whole "output"
            rw [get?_append (new _), get?_append (new _)] at members
            exact ⟨j, rfl, Option.some.inj members⟩
          · rintro ⟨k, ⟨⟩, value⟩
            exact ⟨_, rfl, Json.sorted_append ((List.filter_sublist.map _).nodup bare) (new _)
              others value⟩

/-- The record of an event is a value. -/
theorem eventRecord_valid {numerals : Json.Numerals} {e : EventRow}
    (valid : e.data.Valid numerals) (runSeq : Nat) (actor : String) :
    (eventRecord d e runSeq actor).Valid numerals := by
  refine ⟨by simp, ?_⟩
  simp [Json.ValidMembers, Json.Valid, Json.valid_nat, valid]

/-- A record with the digest of an event holds its body. -/
theorem dataOf_same {numerals : Json.Numerals} {e : EventRow} (body : e.data = .obj data)
    (valid : e.data.Valid numerals) {j : Json} (hj : j.Valid numerals) {runSeq : Nat}
    {actor : String} (same : j.canonical = (eventRecord d e runSeq actor).canonical) :
    ∃ data', dataOf j = .ok data' ∧ (Json.obj data').Valid numerals ∧
      (Json.obj data').sorted = (Json.obj data).sorted := by
  have record := @eventRecord_valid d _ e valid runSeq actor
  have sorted := (Json.canonical_eq_iff hj record).1 same
  obtain ⟨ms, rfl⟩ := Json.sorted_eq_obj sorted
  have members := Json.get?_same hj.1 record.1 sorted "data"
  have there : (eventRecord d e runSeq actor).get? "data" = some e.data := rfl
  rw [eventRecord] at there
  rw [there, Option.map_some, body] at members
  obtain ⟨k, named, inside⟩ := Option.map_eq_some_iff.1 members
  obtain ⟨data', rfl⟩ := Json.sorted_eq_obj inside
  refine ⟨data', ?_, Json.valid_member hj named, inside⟩
  rw [dataOf, named]

/-- `_event_payload` -/
theorem eventPayload_reads (collisionFree : Function.Injective d.sha256) {db : Db} {e : EventRow}
    {b : EventBody} (commits : e.Commits d R.numerals b) :
    Reads ReadError.Unavailable (Body.Is · b.shown) (R.eventPayload d db e)
      (R.eventVerdicts d db e b) := by
  obtain ⟨runSeq, actor, digest⟩ := commits.digest
  refine (readVerified_reads commits.stamped).bind (Q := fun _ body => body.Is b.shown) ?_ ?_
  · intro a read
    obtain ⟨j, rfl, hj, stamp⟩ := readVerified_eq_ok commits.stamped read
    have text := utf8_injective (collisionFree (stamp.trans digest))
    obtain ⟨data', body, valid', same⟩ := dataOf_same commits.data commits.valid hj text
    dsimp only
    rw [body, except_ok_bind]
    exact withOutput_reads (commits.data ▸ commits.valid) valid' same commits.reference
      commits.output
  · intro a body _ _
    exact ⟨fun is => ⟨trivial, is⟩, And.right⟩

end Events

/-! ## Rows -/

section Rows

variable {R d} {db : Db} {B : Bodies}

/-- The output of a run, where it has one. -/
theorem output_reads {base : String} {ref : Option ContentPath} {output : Option String}
    (both : ref.isSome = output.isSome) :
    Reads ReadError.Unavailable (Option.Rel (fun text body => body.Is (.str text)) output)
      (ref.mapM fun ref => R.readMessage base ref)
      (ref.toList.map fun ref => R.messageVerdict base ref (output.getD "")) := by
  cases ref with
  | none =>
      cases output with
      | none => exact .nil .none
      | some text => cases both
  | some ref =>
      cases output with
      | none => cases both
      | some text =>
          refine readMessage_reads.map fun body _ => ?_
          constructor
          · rintro (is | _)
            exact is
          · intro is
            exact .some is

/-- `_decode_run` -/
theorem decodeRun_reads {r : RunRow} {b : RunBodies} (commits : r.Commits d b) :
    Reads ReadError.Unavailable (fun v => RunView.Shows v r b) (R.decodeRun d db r)
      (R.runVerdicts d db r b) := by
  rw [decodeRun, runVerdicts]
  have outputs : ∀ configSnapshot input : Body, Reads ReadError.Unavailable
      (fun v : RunView => Option.Rel (fun text body => body.Is (.str text)) b.output v.output)
      ((r.outputRef.mapM fun ref => R.readMessage (db.baseForSession d r.sessionId) ref) >>=
        fun output => .ok { row := r, configSnapshot, input, output })
      (r.outputRef.toList.map fun ref =>
        R.messageVerdict (db.baseForSession d r.sessionId) ref (b.output.getD "")) :=
    fun _ _ => (output_reads commits.outputRef).map fun _ _ => Iff.rfl
  refine snapshot_reads.bind (Q := fun _ v => v.row = r ∧ v.input.Is (.str b.input) ∧
    Option.Rel (fun text body => body.Is (.str text)) b.output v.output)
    (fun configSnapshot _ => readMessage_reads.bind (fun input _ => outputs configSnapshot input)
      fun input v _ made => ?_) fun configSnapshot v _ made => ?_
  · obtain ⟨_, -, made⟩ := except_bind_eq_ok.1 made
    cases made
    exact and_iff_right rfl
  · obtain ⟨_, -, made⟩ := except_bind_eq_ok.1 made
    obtain ⟨_, -, made⟩ := except_bind_eq_ok.1 made
    cases made
    constructor
    · intro shows
      exact ⟨shows.configSnapshot, rfl, shows.input, shows.output⟩
    · intro shows
      obtain ⟨snapshot, -, input, output⟩ := shows
      exact ⟨rfl, snapshot, input, output⟩

/-- `_event_view` -/
theorem eventView_reads (collisionFree : Function.Injective d.sha256) {e : EventRow}
    {b : EventBody} (commits : e.Commits d R.numerals b) :
    Reads ReadError.Unavailable (fun v => EventView.Shows v e b) (R.eventView d db e)
      (R.eventVerdicts d db e b) :=
  (eventPayload_reads collisionFree commits).map fun _ _ =>
    ⟨EventView.Shows.data, fun is => ⟨rfl, is⟩⟩

/-- A request for the user's input in `get_snapshot`. -/
theorem pendingView_reads {base : String} {p : PendingRow} {payload : List (String × Json)}
    (commits : p.Commits d R.numerals payload) :
    Reads ReadError.Unavailable (fun v => PendingView.Shows v p payload) (R.pendingView base p)
      [R.pendingVerdict base p payload] := by
  obtain ⟨bytes, -, loaded⟩ := commits
  have valid : (promptIn payload).Valid R.numerals :=
    Json.valid_getD (valid_of_loadBytes loaded) _ _
  rw [pendingView, ← bind_assoc]
  exact (prompt_reads valid).map fun _ _ =>
    ⟨PendingView.Shows.prompt, fun is => ⟨⟨rfl, rfl, rfl, rfl, rfl⟩, is⟩⟩

end Rows

/-! ## Calls -/

/-- A call returns what was committed, or says that it is not available. -/
def Faithful {α : Type} (P : α → Prop) (x : Except ReadError α) : Prop :=
  Told ReadError.Unavailable P x

/-- The files of requests for the user's input, the oldest first. -/
def snapshotVerdicts (db : Db) (B : Bodies) (r : RunRow) : List Verdict :=
  R.runVerdicts d db r (B.run r) ++
    (pendingsOf db r.scopeId r.id).flatMap fun p =>
      [R.pendingVerdict (db.baseForSession d r.sessionId) p (B.pending p)]

section Calls

variable {R d} {db : Db} {B : Bodies}

/-- `get_run` -/
theorem getRun_reads (commits : db.Commits d R.numerals B) (scopeId : String) (runId : Uuid) :
    Reads ReadError.Unavailable
      (Option.Rel (fun r v => RunView.Shows v r (B.run r)) (db.run scopeId runId))
      (R.getRun d db scopeId runId)
      ((db.run scopeId runId).toList.flatMap fun r => R.runVerdicts d db r (B.run r)) :=
  .optionMapM fun r known => decodeRun_reads (commits.run r (Db.run_eq_some.1 known).1)

/-- `list_runs` -/
theorem listRuns_reads (commits : db.Commits d R.numerals B) (scopeId : String)
    (sessionId : Uuid) (cursor : Option Nat) (limit : Nat) :
    Reads ReadError.Unavailable
      (fun page => List.Forall₂ (fun r v => RunView.Shows v r (B.run r))
        ((runPage db scopeId sessionId cursor limit).take limit) page.1)
      (R.listRuns d db scopeId sessionId cursor limit)
      (((runPage db scopeId sessionId cursor limit).take limit).flatMap fun r =>
        R.runVerdicts d db r (B.run r)) := by
  refine Reads.map (.mapM fun r hr => decodeRun_reads (commits.run r ?_)) fun _ _ => Iff.rfl
  have there := List.mem_of_mem_take (List.mem_of_mem_take hr)
  exact (List.mem_filter.1 ((List.mem_insertionSort _).1 there)).1

/-- `list_events` -/
theorem listEvents_reads (collisionFree : Function.Injective d.sha256)
    (commits : db.Commits d R.numerals B) (scopeId : String) (runId : Uuid)
    (afterSeq limit : Nat) :
    Reads ReadError.Unavailable
      (fun page => List.Forall₂ (fun e v => EventView.Shows v e (B.event e))
        (eventPage db scopeId runId afterSeq limit) page.1)
      (R.listEvents d db scopeId runId afterSeq limit)
      ((eventPage db scopeId runId afterSeq limit).flatMap fun e =>
        R.eventVerdicts d db e (B.event e)) := by
  refine Reads.map (.mapM fun e he => eventView_reads collisionFree (commits.event e ?_))
    fun _ _ => Iff.rfl
  have there := List.mem_of_mem_take he
  exact (List.mem_filter.1 ((List.mem_insertionSort _).1 there)).1

/-- `list_session_events` -/
theorem listSessionEvents_reads (collisionFree : Function.Injective d.sha256)
    (commits : db.Commits d R.numerals B) (sessionId : Uuid) (afterSeq limit : Nat) :
    Reads ReadError.Unavailable
      (fun page => List.Forall₂ (fun e v => EventView.Shows v e (B.event e))
        (db.listSessionEvents sessionId afterSeq limit).1 page.1)
      (R.listSessionEvents d db sessionId afterSeq limit)
      ((db.listSessionEvents sessionId afterSeq limit).1.flatMap fun e =>
        R.eventVerdicts d db e (B.event e)) := by
  refine Reads.map (.mapM fun e he => eventView_reads collisionFree (commits.event e ?_))
    fun _ _ => Iff.rfl
  have there := List.mem_of_mem_take he
  exact (List.mem_filter.1 ((List.mem_insertionSort _).1 there)).1

/-- A snapshot is that of the run, with its requests. -/
structure SnapshotView.Shows (v : SnapshotView) (db : Db) (B : Bodies) (r : RunRow) : Prop where
  run : RunView.Shows v.run r (B.run r)
  eventCursor : v.eventCursor = Reader.eventCursor db r.scopeId r.id
  pendingResponses : List.Forall₂ (fun p q => PendingView.Shows q p (B.pending p))
    (pendingsOf db r.scopeId r.id) v.pendingResponses

/-- `get_snapshot` -/
theorem getSnapshot_reads (commits : db.Commits d R.numerals B) (scopeId : String)
    (runId : Uuid) :
    Reads ReadError.Unavailable
      (Option.Rel (fun r v => SnapshotView.Shows v db B r) (db.run scopeId runId))
      (R.getSnapshot d db scopeId runId)
      ((db.run scopeId runId).toList.flatMap (R.snapshotVerdicts d db B)) := by
  rw [getSnapshot, getRun]
  cases known : db.run scopeId runId with
  | none => exact .nil .none
  | some r =>
      obtain ⟨hr, scope, id⟩ := Db.run_eq_some.1 known
      subst scope id
      rw [Option.toList_some, List.flatMap_singleton, snapshotVerdicts]
      have requests : Reads ReadError.Unavailable
          (List.Forall₂ (fun p q => PendingView.Shows q p (B.pending p))
            (pendingsOf db r.scopeId r.id))
          ((pendingsOf db r.scopeId r.id).mapM fun p =>
            R.pendingView (db.baseForSession d r.sessionId) p)
          ((pendingsOf db r.scopeId r.id).flatMap fun p =>
            [R.pendingVerdict (db.baseForSession d r.sessionId) p (B.pending p)]) := by
        refine .mapM fun p hp => pendingView_reads (commits.pending p ?_)
        exact (List.mem_filter.1 ((List.mem_insertionSort _).1 hp)).1
      have whole : ((some r).mapM fun r => R.decodeRun d db r) =
          R.decodeRun d db r >>= fun run => .ok (some run) := rfl
      rw [whole, bind_assoc]
      refine (decodeRun_reads (commits.run r hr)).bind
        (Q := fun _ v => ∃ w, v = some w ∧ w.eventCursor = Reader.eventCursor db r.scopeId r.id ∧
          List.Forall₂ (fun p q => PendingView.Shows q p (B.pending p))
            (pendingsOf db r.scopeId r.id) w.pendingResponses) ?_ ?_
      · intro run read
        rw [except_ok_bind]
        dsimp only
        rw [decodeRun_row read]
        refine requests.map fun qs _ => ?_
        simp
      · intro run v read made
        rw [except_ok_bind] at made
        dsimp only at made
        obtain ⟨qs, -, made⟩ := except_bind_eq_ok.1 made
        cases made
        constructor
        · rintro (⟨shows, cursor, pendings⟩ | _)
          exact ⟨shows, _, rfl, cursor, pendings⟩
        · rintro ⟨shows, w, ⟨⟩, cursor, pendings⟩
          exact .some ⟨shows, cursor, pendings⟩

/-- **What was committed, or `DEPENDENCY_UNAVAILABLE`**: exactly where the files a call reads, one
after the other, have a fair verdict. -/
theorem readers_faithful_iff (collisionFree : Function.Injective d.sha256)
    (commits : db.Commits d R.numerals B) :
    (∀ scopeId runId, Faithful
        (Option.Rel (fun r v => RunView.Shows v r (B.run r)) (db.run scopeId runId))
        (R.getRun d db scopeId runId) ↔
      Fair ((db.run scopeId runId).toList.flatMap fun r => R.runVerdicts d db r (B.run r))) ∧
    (∀ scopeId sessionId cursor limit, Faithful
        (fun page => List.Forall₂ (fun r v => RunView.Shows v r (B.run r))
          ((runPage db scopeId sessionId cursor limit).take limit) page.1)
        (R.listRuns d db scopeId sessionId cursor limit) ↔
      Fair (((runPage db scopeId sessionId cursor limit).take limit).flatMap fun r =>
        R.runVerdicts d db r (B.run r))) ∧
    (∀ scopeId runId, Faithful
        (Option.Rel (fun r v => SnapshotView.Shows v db B r) (db.run scopeId runId))
        (R.getSnapshot d db scopeId runId) ↔
      Fair ((db.run scopeId runId).toList.flatMap (R.snapshotVerdicts d db B))) ∧
    (∀ scopeId runId afterSeq limit, Faithful
        (fun page => List.Forall₂ (fun e v => EventView.Shows v e (B.event e))
          (eventPage db scopeId runId afterSeq limit) page.1)
        (R.listEvents d db scopeId runId afterSeq limit) ↔
      Fair ((eventPage db scopeId runId afterSeq limit).flatMap fun e =>
        R.eventVerdicts d db e (B.event e))) ∧
    ∀ sessionId afterSeq limit, Faithful
        (fun page => List.Forall₂ (fun e v => EventView.Shows v e (B.event e))
          (db.listSessionEvents sessionId afterSeq limit).1 page.1)
        (R.listSessionEvents d db sessionId afterSeq limit) ↔
      Fair ((db.listSessionEvents sessionId afterSeq limit).1.flatMap fun e =>
        R.eventVerdicts d db e (B.event e)) :=
  ⟨fun scopeId runId => (getRun_reads commits scopeId runId).told_iff,
    fun scopeId sessionId cursor limit =>
      (listRuns_reads commits scopeId sessionId cursor limit).told_iff,
    fun scopeId runId => (getSnapshot_reads commits scopeId runId).told_iff,
    fun scopeId runId afterSeq limit =>
      (listEvents_reads collisionFree commits scopeId runId afterSeq limit).told_iff,
    fun sessionId afterSeq limit =>
      (listSessionEvents_reads collisionFree commits sessionId afterSeq limit).told_iff⟩

end Calls

end Reader

/-! ## What the store committed -/

/-- The members of the body of an event. -/
def EventRow.members (e : EventRow) : List (String × Json) :=
  match e.data with
  | .obj ms => ms
  | _ => []

/-- The body of an event is a dictionary, and refers to an output by a text. -/
def EventRow.wellFormed (numerals : Json.Numerals) (e : EventRow) : Bool :=
  match e.data with
  | .obj ms => e.data.Valid numerals &&
      match (Json.obj ms).get? "output_ref" with
      | none | some (.str _) => true
      | some j => !j.truthy
  | _ => false

section Commits

variable {d : Deployment} {numerals : Json.Numerals} {s : Store} {v : Supplied}

/-- The record of an event is not empty. -/
theorem eventRecord_nonempty (e : EventRow) (runSeq : Nat) (actor : String) :
    utf8 (eventRecord d e runSeq actor).canonical ≠ [] := by
  rw [eventRecord, Json.canonical, Json.dumps_obj, utf8_append, utf8_append, ne_eq,
    List.append_eq_nil_iff, not_and]
  intro _ brace
  have nonempty : utf8 "\x7d" ≠ [] := by decide
  exact nonempty brace

/-- An event that was written commits to its body, whatever the output is. -/
theorem EventRow.Written.commits {files : Files} {e : EventRow} (h : e.Written d files)
    (full : ∀ bytes ≠ [], d.sha256 bytes ≠ "") (formed : e.wellFormed numerals = true)
    (output : String) :
    e.Commits d numerals ⟨e.members, (outputRef e.members).map fun _ => output⟩ := by
  obtain ⟨-, runSeq, actor, -, -, digest⟩ := h
  rw [wellFormed] at formed
  cases data : e.data with
  | obj ms =>
      simp only [data, Bool.and_eq_true, decide_eq_true_eq] at formed
      obtain ⟨valid, reference⟩ := formed
      have stamped : e.dataDigest ≠ "" := by
        rw [digest]
        exact full _ (eventRecord_nonempty e runSeq actor)
      have members : e.members = ms := by rw [EventRow.members, data]
      rw [members]
      refine ⟨data, data ▸ valid, stamped, ⟨runSeq, actor, digest⟩, ?_, ?_⟩
      · intro j named text
        dsimp only at named
        rw [named] at reference
        cases j with
        | str ref => exact ⟨ref, rfl⟩
        | null | bool _ | num _ | arr _ | obj _ => simp [text] at reference
      · exact Option.isSome_map.symm
  | null | bool _ | num _ | str _ | arr _ =>
      rw [data] at formed
      cases formed

/-- A run whose references lead to what was supplied commits to it. -/
theorem RunRefs.Intact.commits {files : Files} {base : String} {r : RunRow} {b : RunBodies}
    (h : r.refs.Intact d files base r.id b.input b.configSnapshot b.output) : r.Commits d b where
  input := h.inputDigest
  configSnapshot := h.snapshotDigest
  output := by
    cases spoken : b.output with
    | none => exact (h.noOutput spoken).2.1
    | some text =>
        obtain ⟨ref, -, -, digest, -⟩ := h.output text spoken
        exact digest
  outputRef := by
    cases spoken : b.output with
    | none => exact congrArg Option.isSome (h.noOutput spoken).1
    | some text =>
        obtain ⟨ref, named, -⟩ := h.output text spoken
        exact congrArg Option.isSome named

/-- A store whose references lead to what was supplied commits to it. -/
theorem Store.Intact.commits (h : s.Intact d v) (full : ∀ bytes ≠ [], d.sha256 bytes ≠ "")
    (written : ∀ e ∈ s.db.events, e.Written d s.files)
    (formed : ∀ e ∈ s.db.events, e.wellFormed numerals = true)
    (payloads : ∀ p ∈ s.db.pendings, ∃ payload, p.Commits d numerals payload) :
    ∃ B : Bodies, s.db.Commits d numerals B ∧ ∀ r ∈ s.db.runs,
      v.input (r.scopeId, r.id) = some (B.run r).input ∧
      r.refs.Intact d s.files (s.db.baseForSession d r.sessionId) r.id (B.run r).input
        (B.run r).configSnapshot (B.run r).output := by
  have run : ∀ r, ∃ b : RunBodies, r ∈ s.db.runs → v.input (r.scopeId, r.id) = some b.input ∧
      r.refs.Intact d s.files (s.db.baseForSession d r.sessionId) r.id b.input
        b.configSnapshot b.output := by
    intro r
    by_cases hr : r ∈ s.db.runs
    · obtain ⟨input, snapshot, sent, -, intact⟩ := h.run _ _ (Table.view_of_mem hr RunRow.refs)
      exact ⟨⟨input, snapshot, v.output (r.scopeId, r.id)⟩, fun _ => ⟨sent, intact⟩⟩
    · exact ⟨⟨"", ⟨"", "", "", "", [], [], none, [], "", ""⟩, none⟩, fun there => absurd there hr⟩
  have pending : ∀ p, ∃ payload, p ∈ s.db.pendings → p.Commits d numerals payload := by
    intro p
    by_cases hp : p ∈ s.db.pendings
    · obtain ⟨payload, commits⟩ := payloads p hp
      exact ⟨payload, fun _ => commits⟩
    · exact ⟨[], fun there => absurd there hp⟩
  choose bodies runs using run
  choose payload asks using pending
  refine ⟨⟨bodies, fun e => ⟨e.members, (outputRef e.members).map fun _ => ""⟩, payload⟩,
    ⟨fun r hr => ?_, fun e he => ?_, asks⟩, runs⟩
  · exact (runs r hr).2.commits
  · exact (written e he).commits full (formed e he) ""

end Commits

/-! ## Files that were replaced -/

namespace Reader

variable {R : Reader} {d : Deployment} {base : String} {ref : ContentPath}

/-- A message in the place of another one. -/
theorem messageVerdict_written {sessionId runId : Uuid} {role : Role} {written : String}
    {runSeq : Nat} (file : R.disk (base, ref) =
      some (messagePayload d sessionId runId role written runSeq)) (content : String) :
    R.messageVerdict base ref content = sameVerdict (.str content) (.str written) := by
  have valid := messageRecord_valid R.numerals d sessionId runId role written runSeq
  have loaded := loadBytes_utf8 Json.Separators.compact valid
  have named := Json.get?_sorted valid.1 "content"
  rw [messageVerdict, found, file, Option.map_some]
  change objectVerdict (some (loadBytes R.numerals (utf8 (Json.dumps "," ":" _)))) _ = _
  rw [loaded, objectVerdict]
  rw [Json.sorted] at named ⊢
  dsimp only
  rw [named]
  rfl

/-- A snapshot in its place. -/
theorem snapshotVerdict_written {snapshot : RunSnapshot}
    (file : R.disk (base, ref) = some (snapshotPayload snapshot)) :
    R.snapshotVerdict base ref snapshot = .whole := by
  have loaded := loadBytes_utf8 Json.Separators.spaced (snapshot.asDict_valid R.numerals)
  rw [snapshotVerdict, found, file, Option.map_some]
  change objectVerdict (some (loadBytes R.numerals (utf8 (Json.dumps ", " ": " _)))) _ = _
  rw [loaded, objectVerdict, sameVerdict, if_pos]
  exact Json.dumps_sorted _ _ _

theorem sameVerdict_self (j : Json) : sameVerdict j j = .whole := if_pos rfl

/-- A run whose references lead to what was committed is given with it. -/
theorem runVerdicts_intact {db : Db} {r : RunRow} {b : RunBodies} {files : Files}
    (intact : r.refs.Intact d files (db.baseForSession d r.sessionId) r.id b.input
      b.configSnapshot b.output)
    (same : ∀ ref, R.disk (db.baseForSession d r.sessionId, ref) =
      files.lookup (db.baseForSession d r.sessionId, ref)) :
    Fair (R.runVerdicts d db r b) := by
  have snapshot : R.snapshotVerdict (db.baseForSession d r.sessionId) r.configSnapshotRef
      b.configSnapshot = .whole :=
    snapshotVerdict_written ((same _).trans intact.snapshotFile)
  have input : R.messageVerdict (db.baseForSession d r.sessionId) r.inputRef b.input = .whole :=
    (messageVerdict_written ((same _).trans intact.inputFile) b.input).trans (sameVerdict_self _)
  rw [runVerdicts, snapshot, input]
  cases spoken : b.output with
  | none =>
      have silent : r.outputRef = none := (intact.noOutput spoken).1
      rw [silent, Option.toList_none, List.map_nil, List.append_nil]
      decide
  | some text =>
      obtain ⟨ref, named, file, -⟩ := intact.output text spoken
      have there : r.outputRef = some ref := named
      rw [there, Option.toList_some, List.map_singleton, Option.getD_some,
        messageVerdict_written ((same _).trans file), sameVerdict_self]
      decide

/-- A run whose input is replaced by another message is given with the other message. -/
theorem runVerdicts_forged {db : Db} {r : RunRow} {b : RunBodies} {files : Files}
    (intact : r.refs.Intact d files (db.baseForSession d r.sessionId) r.id b.input
      b.configSnapshot b.output)
    (others : ∀ ref ≠ r.inputRef, R.disk (db.baseForSession d r.sessionId, ref) =
      files.lookup (db.baseForSession d r.sessionId, ref))
    (apart : r.configSnapshotRef ≠ r.inputRef) {forged : String}
    (file : R.disk (db.baseForSession d r.sessionId, r.inputRef) =
      some (messagePayload d r.sessionId r.id .user forged r.runSeq))
    (silent : r.outputRef = none) (other : forged ≠ b.input) :
    ¬ Fair (R.runVerdicts d db r b) := by
  have snapshot : R.snapshotVerdict (db.baseForSession d r.sessionId) r.configSnapshotRef
      b.configSnapshot = .whole :=
    snapshotVerdict_written ((others _ apart).trans intact.snapshotFile)
  have input : R.messageVerdict (db.baseForSession d r.sessionId) r.inputRef b.input = .wrong := by
    rw [messageVerdict_written file, sameVerdict, if_neg]
    intro same
    have text : ∀ t : String, (Json.str t).Valid R.numerals := fun _ => trivial
    have texts := (Json.canonical_eq_iff (text forged) (text b.input)).1 same
    exact other (Json.str.inj texts)
  rw [runVerdicts, snapshot, input, silent]
  intro fair
  have whole := fair Verdict.wrong (by simp)
  cases whole

/-- A log that is gone is not said to be unavailable. -/
theorem eventVerdicts_lost {db : Db} {e : EventRow} {b : EventBody}
    (lost : R.disk (db.baseForSession d e.sessionId, e.dataRef) = none) (rest : List Verdict) :
    ¬ Fair (R.eventVerdicts d db e b ++ rest) := by
  rw [eventVerdicts, recordVerdict, lost]
  intro fair
  cases fair

end Reader

/-- The files as they are, but for one. -/
def Reader.replaced (files : Files) (k : FileKey) (bytes : List UInt8) : Reader where
  numerals := .plain
  disk k' := if k' = k then some bytes else files.lookup k'
  locate _ := .log ⟨0⟩ 0

theorem Reader.replaced_same {files : Files} {k : FileKey} {bytes : List UInt8} :
    (Reader.replaced files k bytes).disk k = some bytes := if_pos rfl

theorem Reader.replaced_other {files : Files} {k k' : FileKey} {bytes : List UInt8}
    (other : k' ≠ k) : (Reader.replaced files k bytes).disk k' = files.lookup k' := if_neg other

/-- All files are gone. -/
def Reader.lost : Reader where
  numerals := .plain
  disk _ := none
  locate _ := .log ⟨0⟩ 0

/-- The store commits to the first message. -/
theorem Op.firstSend_commits : ∃ B : Bodies,
    (Op.execAll .verbatim Op.firstSend {}).db.Commits .verbatim .plain B ∧
    ∃ r, (Op.execAll .verbatim Op.firstSend {}).db.run "ada" ⟨2⟩ = some r ∧
      r.sessionId = ⟨0⟩ ∧ r.runSeq = 1 ∧ r.inputRef = .message ⟨0⟩ ⟨2⟩ .user ∧
      r.configSnapshotRef = .snapshot ⟨0⟩ ⟨2⟩ ∧ r.outputRef = none ∧ (B.run r).input = "hello" ∧
      r.refs.Intact .verbatim (Op.execAll .verbatim Op.firstSend {}).files
        ((Op.execAll .verbatim Op.firstSend {}).db.baseForSession .verbatim r.sessionId) r.id
        (B.run r).input (B.run r).configSnapshot (B.run r).output := by
  have fit : Op.AllFit .verbatim Op.firstSend {} := ⟨by rintro b w - ⟨⟩, trivial, trivial⟩
  have reachable : Reachable .verbatim {} (Op.execAll .verbatim Op.firstSend {}) :=
    .execAll fun op _ => op.obeys_default
  have intact := (Supplies.run (Supplies.execAll (d := .verbatim) (π := {}) (v := {})
    (fun op _ => op.obeys_default) fit) .refl .initial).2
  have facts : ((Op.execAll .verbatim Op.firstSend {}).db.run "ada" ⟨2⟩).map
      (fun r => (r.sessionId, r.inputRef, r.configSnapshotRef, r.outputRef, r.runSeq)) =
        some (⟨0⟩, .message ⟨0⟩ ⟨2⟩ .user, .snapshot ⟨0⟩ ⟨2⟩, none, 1) ∧
      (Op.execAll .verbatim Op.firstSend {}).db.pendings.rows.length = 0 ∧
      (Op.execAll .verbatim Op.firstSend {}).db.events.rows.all (EventRow.wellFormed .plain) ∧
      (Op.supplyAll .verbatim Op.firstSend {} {}).input ("ada", ⟨2⟩) = some "hello" := by
    decide +kernel
  obtain ⟨run, pendings, formed, hello⟩ := facts
  generalize Op.supplyAll .verbatim Op.firstSend {} {} = v at intact hello
  generalize Op.execAll .verbatim Op.firstSend {} = s at *
  obtain ⟨B, commits, runs⟩ := intact.commits
    (fun bytes some empty => some (plainDigest_injective empty)) reachable.written
    (List.all_eq_true.1 formed : ∀ e ∈ s.db.events.rows, e.wellFormed .plain = true)
    (fun p hp => by
      rw [Table.mem_def, List.length_eq_zero_iff.1 pendings] at hp
      cases hp)
  obtain ⟨r, known, columns⟩ := Option.map_eq_some_iff.1 run
  obtain ⟨hr, scope, id⟩ := Db.run_eq_some.1 known
  obtain ⟨sent, whole⟩ := runs r hr
  simp only [Prod.mk.injEq] at columns
  obtain ⟨session, input, snapshot, output, seq⟩ := columns
  rw [scope, id, hello] at sent
  exact ⟨B, commits, r, known, session, seq, input, snapshot, output,
    (Option.some.inj sent).symm, whole⟩

namespace Reader

/-- The first message is given as it was sent. -/
theorem readers_faithful_firstSend : ∃ (s : Store) (B : Bodies),
    Reachable .verbatim {} s ∧ s.db.Commits .verbatim .plain B ∧
    Faithful (Option.Rel (fun r v => RunView.Shows v r (B.run r)) (s.db.run "ada" ⟨2⟩))
      ((Access.plain.reader s.files).getRun .verbatim s.db "ada" ⟨2⟩) := by
  have sent := Op.firstSend_commits
  have reachable : Reachable .verbatim {} (Op.execAll .verbatim Op.firstSend {}) :=
    .execAll fun op _ => op.obeys_default
  generalize Op.execAll .verbatim Op.firstSend {} = s at sent reachable
  obtain ⟨B, commits, r, known, -, -, -, -, -, -, intact⟩ := sent
  have reads := (@readers_faithful_iff (Access.plain.reader s.files) _ _ _ plainDigest_injective
    commits).1 "ada" ⟨2⟩
  rw [known, Option.toList_some, List.flatMap_singleton] at reads
  rw [← known] at reads
  exact ⟨s, B, reachable, commits, reads.2 (runVerdicts_intact intact fun _ => rfl)⟩

/-- A message that was never sent is given, and a log that is gone raises `FileNotFoundError`. -/
theorem firstSend_damaged : ∃ (s : Store) (B : Bodies),
    Reachable .verbatim {} s ∧ s.db.Commits .verbatim .plain B ∧
    ¬ Faithful (Option.Rel (fun r v => RunView.Shows v r (B.run r)) (s.db.run "ada" ⟨2⟩))
      ((replaced s.files ("/srv/ada", .message ⟨0⟩ ⟨2⟩ .user)
        (messagePayload .verbatim ⟨0⟩ ⟨2⟩ .user "forged" 1)).getRun .verbatim s.db "ada" ⟨2⟩) ∧
    ¬ Faithful (fun page => List.Forall₂ (fun e v => EventView.Shows v e (B.event e))
        (eventPage s.db "ada" ⟨2⟩ 0 1) page.1)
      (lost.listEvents .verbatim s.db "ada" ⟨2⟩ 0 1) := by
  have sent := Op.firstSend_commits
  have reachable : Reachable .verbatim {} (Op.execAll .verbatim Op.firstSend {}) :=
    .execAll fun op _ => op.obeys_default
  have facts : (Op.execAll .verbatim Op.firstSend {}).db.baseForSession .verbatim ⟨0⟩ =
        "/srv/ada" ∧
      (eventPage (Op.execAll .verbatim Op.firstSend {}).db "ada" ⟨2⟩ 0 1).length = 1 := by
    decide +kernel
  generalize Op.execAll .verbatim Op.firstSend {} = s at sent reachable facts
  obtain ⟨B, commits, r, known, session, seq, input, snapshot, output, hello, intact⟩ := sent
  obtain ⟨base, events⟩ := facts
  refine ⟨s, B, reachable, commits, ?_, ?_⟩
  · rw [Faithful, (getRun_reads commits "ada" ⟨2⟩).told_iff, known, Option.toList_some,
      List.flatMap_singleton]
    have id : r.id = ⟨2⟩ := (Db.run_eq_some.1 known).2.2
    have other : "forged" ≠ (B.run r).input := by
      rw [hello]
      decide
    refine runVerdicts_forged intact ?_ ?_ ?_ output other
    · intro ref other
      rw [session, base]
      refine replaced_other fun same => other ?_
      rw [input]
      exact (Prod.mk.inj same).2
    · rw [snapshot, input]
      intro same
      cases same
    · rw [session, base, input, id, seq]
      exact replaced_same
  · rw [Faithful, (listEvents_reads plainDigest_injective commits "ada" ⟨2⟩ 0 1).told_iff]
    obtain ⟨e, page⟩ := List.length_eq_one_iff.1 events
    rw [page, List.flatMap_cons]
    exact eventVerdicts_lost rfl _

end Reader

end CodeForge
