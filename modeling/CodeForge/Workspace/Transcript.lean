import CodeForge.Lib.JsonRoundTrip
import CodeForge.Lib.Segments
import CodeForge.Persistence.Content
import CodeForge.Persistence.Timestamps
import CodeForge.Skills.Packages

/-!
# Transcripts

The messages of a session are projected into JSONL files in its directory.
`append_transcript` looks for the identifier of a record in every file, line by
line, and only then adds the record to the last file, or starts the next where
the record would make it too long.

A directory stands for a log in segments, one for each file (`Stands`), and
appending is `push` where the identifier is new.  As long as the names of the
files are in the order of their numbers, the lines of the files are the records
in the order in which they first came (`transcripts_append_only`).
-/

namespace CodeForge

open Lib
open Skills (Python universalNewlines)

/-! ## Lines -/

/-- The lines of a text, with their ends. -/
def textLines : List Char → List (List Char)
  | [] => []
  | c :: cs =>
      if c = '\n' then [c] :: textLines cs
      else
        match textLines cs with
        | [] => [[c]]
        | line :: lines => (c :: line) :: lines

theorem textLines_append {line : List Char} (h : '\n' ∉ line) (rest : List Char) :
    textLines (line ++ '\n' :: rest) = (line ++ ['\n']) :: textLines rest := by
  induction line with
  | nil => simp [textLines]
  | cons c line ih =>
      have hc : c ≠ '\n' := fun same => h (same ▸ List.mem_cons_self)
      have hline : '\n' ∉ line := fun there => h (List.mem_cons_of_mem c there)
      rw [List.cons_append, textLines, if_neg hc, ih hline]
      rfl

/-- Texts of one line each are the lines of all of them. -/
theorem textLines_flatMap {texts : List (List Char)} (h : ∀ t ∈ texts, '\n' ∉ t) :
    textLines (texts.flatMap fun t => t ++ ['\n']) = texts.map fun t => t ++ ['\n'] := by
  induction texts with
  | nil => rfl
  | cons t texts ih =>
      obtain ⟨ht, hrest⟩ := List.forall_mem_cons.1 h
      have first := textLines_append ht (texts.flatMap fun t => t ++ ['\n'])
      rw [ih hrest] at first
      rw [List.flatMap_cons, List.append_assoc]
      exact first

/-- A text without carriage returns is read as it is. -/
theorem universalNewlines_of_not_mem {cs : List Char} (h : '\r' ∉ cs) :
    universalNewlines cs = cs := by
  induction cs with
  | nil => rfl
  | cons c cs ih =>
      have hc : c ≠ '\r' := fun same => h (same ▸ List.mem_cons_self)
      rw [universalNewlines, ih fun there => h (List.mem_cons_of_mem c there)]
      · exact fun _ same _ => hc same
      · exact fun same => hc same

/-! ## Appending -/

/-- The transcripts of a session: the bytes of its files, by their numbers. -/
abbrev Transcripts := AList fun _ : Nat => List UInt8

/-- A record, by its members. -/
abbrev TranscriptRecord := List (String × Json)

/-- Why looking for an identifier fails. -/
inductive ScanError where
  /-- `UnicodeDecodeError` -/
  | undecodable
  /-- `AttributeError`, for a line that is no object. -/
  | attribute
  /-- A line with half of a surrogate pair, which is not followed further. -/
  | surrogate
deriving DecidableEq, Repr

namespace Transcripts

/-- The bytes of a file, where it is there. -/
def file (dir : Transcripts) (path : Nat) : Option (List UInt8) := dir.lookup path

/-- Write at the end of a file, which is made where it is not there. -/
def append (dir : Transcripts) (path : Nat) (b : List UInt8) : Transcripts :=
  dir.insert path ((dir.file path).getD [] ++ b)

/-- The name of a file. -/
def fileName (index : Nat) : String := s!"transcript-{Files.sixDigits index}.jsonl"

/-- `sorted(session_directory.glob("transcript-*.jsonl"))` -/
def files (dir : Transcripts) : List Nat :=
  dir.keys.insertionSort fun i j => fileName i ≤ fileName j

/-- `record.get("record_id") == record_id`, for a line of a file. -/
def lineHas (py : Python) (recordId : String) (line : List Char) : Except ScanError Bool :=
  if line.all isSpace then .ok false
  else
    match Json.loads py.numerals (String.ofList line) with
    | .value (.obj record) =>
        match (Json.obj record).get? "record_id" with
        | some (.str s) => .ok (decide (s = recordId))
        | _ => .ok false
    | .value _ => .error .attribute
    | .surrogate => .error .surrogate
    | _ => .ok false

/-- `_transcript_contains`.  The file is decoded as a whole. -/
def transcriptContains (py : Python) (dir : Transcripts) (path : Nat) (recordId : String) :
    Except ScanError Bool :=
  match dir.file path with
  | none => .ok false
  | some bytes =>
      match decodeUtf8 bytes with
      | none => .error .undecodable
      | some text => (textLines (universalNewlines text.toList)).anyM (lineHas py recordId)

/-- The text of a record, and the end of its line. -/
def line (record : TranscriptRecord) : String := (Json.obj record).canonical ++ "\n"

/-- `str(record.get("record_id") or "")` -/
def recordId (py : Python) (record : TranscriptRecord) : String :=
  match (Json.obj record).get? "record_id" with
  | some (.str s) => s
  | some j => if j.truthy then py.str j else ""
  | none => ""

/-- The file a record is added to: the last one, or the next. -/
def target (maxFileBytes : Nat) (dir : Transcripts) (paths : List Nat) (incoming : Nat) : Nat :=
  let last := paths.getLast?.getD 1
  let size := ((dir.file last).getD []).length
  if size ≠ 0 ∧ size + incoming > maxFileBytes then paths.length + 1 else last

/-- `append_transcript`: the file, and the directory afterwards. -/
def appendTranscript (py : Python) (maxFileBytes : Nat) (dir : Transcripts)
    (record : TranscriptRecord) : Except ScanError (Nat × Transcripts) := do
  let encoded := utf8 (line record)
  let id := recordId py record
  let paths := if dir.files.isEmpty then [1] else dir.files
  let known ← paths.findM? fun path =>
    if id = "" then pure false else transcriptContains py dir path id
  match known with
  | some path => return (path, dir)
  | none =>
      let path := target maxFileBytes dir paths encoded.length
      return (path, dir.append path encoded)

/-- `transcript.touch(exist_ok=True)`, of `ensure_session_storage`. -/
def touch (dir : Transcripts) : Transcripts := dir.append 1 []

/-! ## Names in order -/

theorem padded_zero (width : Nat) : DateTime.padded width 0 = List.replicate width '0' := by
  induction width with
  | zero => rfl
  | succ width ih =>
      rw [DateTime.padded, Nat.zero_div, ih, List.replicate_succ']
      rfl

/-- A padded number is its digits after zeros. -/
theorem padded_eq {width n : Nat} (h : n < 10 ^ (width + 1)) :
    DateTime.padded (width + 1) n =
      List.replicate (width + 1 - (Nat.toDigits 10 n).length) '0' ++ Nat.toDigits 10 n := by
  induction width generalizing n with
  | zero =>
      rw [Nat.toDigits_of_lt_base (by omega), DateTime.padded, DateTime.padded,
        Nat.mod_eq_of_lt (by omega)]
      rfl
  | succ width ih =>
      rw [DateTime.padded]
      by_cases small : n < 10
      · rw [Nat.toDigits_of_lt_base small, Nat.div_eq_of_lt small, padded_zero,
          Nat.mod_eq_of_lt small]
        rfl
      · rw [Nat.pow_succ] at h
        rw [ih (by omega), Nat.toDigits_of_base_le (by decide) (Nat.le_of_not_lt small),
          List.append_assoc, List.length_append, List.length_singleton]
        congr 2
        omega

theorem sixDigits_toList {n : Nat} (h : n < 1000000) :
    (Files.sixDigits n).toList = DateTime.padded 6 n := by
  have digits : (toString n).toList = Nat.toDigits 10 n := Nat.toList_repr
  rw [padded_eq h, Files.sixDigits, String.toList_append, String.toList_ofList, digits,
    String.length_toList.symm, digits]

/-- Up to a million, names are in the order of their numbers. -/
theorem fileName_lt {i j : Nat} (less : i < j) (small : j < 1000000) : fileName i < fileName j := by
  have texts : ∀ n < 1000000, (fileName n).toList =
      "transcript-".toList ++ (DateTime.padded 6 n ++ ".jsonl".toList) := by
    intro n hn
    rw [← sixDigits_toList hn]
    simp [fileName, String.toList_append, toString]
  rw [String.lt_iff_toList_lt, texts i (by omega), texts j small, append_lt_append rfl,
    append_lt_append (by simp)]
  exact .inr ⟨rfl, .inl ((DateTime.padded_lt (by omega) (by omega)).2 less)⟩

/-! ## Directories that stand for segments -/

variable {py : Python} {maxFileBytes : Nat} {dir : Transcripts}
  {segments : List (List TranscriptRecord)} {segment : List TranscriptRecord}
  {record : TranscriptRecord}

/-- What `append_transcript` is given: values of the interpreter, with an identifier. -/
structure Recorded (py : Python) (record : TranscriptRecord) : Prop where
  valid : (Json.obj record).Valid py.numerals
  named : ∃ id, id ≠ "" ∧ (Json.obj record).get? "record_id" = some (.str id)

/-- The bytes of a file. -/
def bytes (segment : List TranscriptRecord) : List UInt8 := segment.flatMap fun r => utf8 (line r)

/-- The size of a line. -/
def lineSize (record : TranscriptRecord) : Nat := (utf8 (line record)).length

/-- The directory has a file for every segment. -/
def Stands (dir : Transcripts) (segments : List (List TranscriptRecord)) : Prop :=
  dir.file 0 = none ∧ ∀ i, dir.file (i + 1) = segments[i]?.map bytes

theorem Recorded.recordId_ne (h : Recorded py record) : recordId py record ≠ "" := by
  obtain ⟨id, ne, found⟩ := h.named
  rw [recordId, found]
  exact ne

theorem line_oneLine (h : Recorded py record) :
    Json.OneLine (Json.obj record).canonical.toList :=
  Json.oneLine_dumps (Json.oneLine_of_all (by decide)) (Json.oneLine_of_all (by decide)) _ h.valid

theorem bytes_eq : bytes segment = utf8 (String.join (segment.map line)) := by
  induction segment with
  | nil => rfl
  | cons r segment ih =>
      rw [List.map_cons, String.join_cons, utf8_append, ← ih]
      rfl

theorem length_bytes : (bytes segment).length = Segments.total lineSize segment := by
  rw [bytes, List.length_flatMap]
  rfl

theorem lineSize_pos (record : TranscriptRecord) : 0 < lineSize record := by
  rw [lineSize, line, utf8_append, List.length_append]
  exact Nat.lt_add_left _ (by decide)

/-- The files of a directory are numbered from one. -/
theorem Stands.files_perm (h : Stands dir segments) :
    dir.files.Perm (List.range' 1 segments.length) := by
  have keys : ∀ i, i ∈ dir.keys ↔ i ∈ List.range' 1 segments.length := by
    intro i
    rw [← AList.mem_keys, ← AList.lookup_isSome, List.mem_range'_1]
    show (dir.file i).isSome ↔ _
    cases i with
    | zero => simp [h.1]
    | succ i =>
        rw [h.2 i, Option.isSome_map]
        simp
        omega
  exact (List.perm_insertionSort _ _).trans
    ((List.perm_ext_iff_of_nodup (AList.keys_nodup dir) List.nodup_range').2 keys)

/-- Below a million they are in the order of their numbers. -/
theorem Stands.files_eq (h : Stands dir segments) (few : segments.length < 1000000) :
    dir.files = List.range' 1 segments.length := by
  have total : Std.Total fun i j : Nat => fileName i ≤ fileName j := ⟨fun _ _ => le_total _ _⟩
  have trans : IsTrans Nat fun i j => fileName i ≤ fileName j := ⟨fun _ _ _ => le_trans⟩
  have sorted : dir.files.Pairwise fun i j => fileName i ≤ fileName j :=
    List.pairwise_insertionSort _ _
  have bound : ∀ i ∈ List.range' 1 segments.length, i < 1000000 := fun i hi => by
    have := List.mem_range'_1.1 hi
    omega
  have ranged : (List.range' 1 segments.length).Pairwise fun i j => fileName i ≤ fileName j :=
    (List.pairwise_lt_range' 1 (by decide)).imp_of_mem fun _ hj less =>
      (fileName_lt less (bound _ hj)).le
  refine h.files_perm.eq_of_pairwise (fun i j hi hj le ge => ?_) sorted ranged
  rcases Nat.lt_trichotomy i j with less | same | less
  · exact absurd ge (not_le.2 (fileName_lt less (bound j hj)))
  · exact same
  · exact absurd le (not_le.2 (fileName_lt less (bound i (h.files_perm.mem_iff.1 hi))))

/-! ## Looking for an identifier -/

theorem lineHas_line (h : Recorded py record) (id : String) :
    lineHas py id (line record).toList = .ok (decide (recordId py record = id)) := by
  obtain ⟨own, -, found⟩ := h.named
  have notBlank : (line record).toList.all isSpace = false := by
    rw [line, Json.canonical, Json.dumps_obj]
    simp only [String.toList_append, List.all_append, Bool.and_eq_false_iff]
    exact .inl (.inl (.inl (by decide)))
  have loaded := Json.loads_line Json.Separators.compact h.valid
  have sorted := Json.get?_sorted h.valid.1 "record_id"
  rw [found] at sorted
  rw [lineHas, notBlank, if_neg (by simp), String.ofList_toList, line, Json.canonical, loaded,
    recordId, found]
  rw [Json.sorted] at sorted ⊢
  simp only [sorted]
  rfl

/-- The lines of a file. -/
theorem textLines_bytes (h : ∀ r ∈ segment, Recorded py r) :
    textLines (universalNewlines (String.join (segment.map line)).toList) =
      segment.map fun r => (line r).toList := by
  have text : (String.join (segment.map line)).toList =
      (segment.map fun r => (Json.obj r).canonical.toList).flatMap fun t => t ++ ['\n'] := by
    rw [String.toList_join, List.flatMap_map, List.flatMap_map]
    refine List.flatMap_congr fun r _ => ?_
    rw [line, String.toList_append]
    rfl
  have one : ∀ t ∈ segment.map fun r => (Json.obj r).canonical.toList, '\n' ∉ t ∧ '\r' ∉ t := by
    intro t ht
    obtain ⟨r, hr, rfl⟩ := List.mem_map.1 ht
    exact ⟨fun there => (line_oneLine (h r hr) _ there).1 rfl,
      fun there => (line_oneLine (h r hr) _ there).2 rfl⟩
  rw [text, universalNewlines_of_not_mem, textLines_flatMap fun t ht => (one t ht).1, List.map_map]
  · refine List.map_congr_left fun r _ => ?_
    rw [line, String.toList_append]
    rfl
  · intro there
    obtain ⟨t, ht, hr⟩ := List.mem_flatMap.1 there
    rcases List.mem_append.1 hr with inside | last
    · exact (one t ht).2 inside
    · exact absurd last (by decide)

theorem Stands.transcriptContains (h : Stands dir segments)
    (recorded : ∀ r ∈ segments.flatten, Recorded py r) (i : Nat) (id : String) :
    transcriptContains py dir (i + 1) id =
      .ok ((segments[i]?.getD []).any fun r => recordId py r = id) := by
  rw [Transcripts.transcriptContains, h.2 i]
  cases found : segments[i]? with
  | none => rfl
  | some segment =>
      have inside : ∀ r ∈ segment, Recorded py r := fun r hr =>
        recorded r (List.mem_flatten_of_mem (List.mem_of_getElem? found) hr)
      rw [Option.map_some]
      simp only [bytes_eq, decodeUtf8_utf8, textLines_bytes inside, Option.getD_some]
      exact except_anyM_map fun r hr => lineHas_line (inside r hr) id

/-! ## Appending to a directory that stands for segments -/

/-- An identifier is there. -/
def Known (py : Python) (segments : List (List TranscriptRecord)) (record : TranscriptRecord) :
    Prop := ∃ r ∈ segments.flatten, recordId py r = recordId py record

instance (py : Python) (segments : List (List TranscriptRecord)) (record : TranscriptRecord) :
    Decidable (Known py segments record) :=
  inferInstanceAs (Decidable (∃ r ∈ segments.flatten, recordId py r = recordId py record))

/-- A record is added where its identifier is new. -/
def add (py : Python) (maxFileBytes : Nat) (segments : List (List TranscriptRecord))
    (record : TranscriptRecord) : List (List TranscriptRecord) :=
  if Known py segments record then segments
  else Segments.push lineSize maxFileBytes segments record

theorem bytes_append (l l' : List TranscriptRecord) : bytes (l ++ l') = bytes l ++ bytes l' := by
  rw [bytes, bytes, bytes, List.flatMap_append]

/-- The search over the files of a directory. -/
theorem Stands.findM? (h : Stands dir segments)
    (recorded : ∀ r ∈ segments.flatten, Recorded py r) (new : Recorded py record)
    (n : Nat) :
    ((List.range' 1 n).findM? fun path =>
      if recordId py record = "" then pure false
      else Transcripts.transcriptContains py dir path (recordId py record)) =
      .ok ((List.range' 1 n).find? fun path =>
        (segments[path - 1]?.getD []).any fun r => recordId py r = recordId py record) := by
  refine except_findM? fun path hp => ?_
  obtain ⟨i, rfl⟩ : ∃ i, path = i + 1 := ⟨path - 1, by
    have := List.mem_range'_1.1 hp
    omega⟩
  rw [if_neg new.recordId_ne, h.transcriptContains recorded, Nat.add_sub_cancel]

/-- Writing to a file, old or new. -/
theorem Stands.append (h : Stands dir segments) {next : List (List TranscriptRecord)} {n : Nat}
    {b : List UInt8} (here : next[n]?.map bytes = some ((dir.file (n + 1)).getD [] ++ b))
    (others : ∀ i, i ≠ n → next[i]? = segments[i]?) : Stands (dir.append (n + 1) b) next := by
  constructor
  · exact (AList.lookup_insert_ne (by omega)).trans h.1
  · intro i
    by_cases same : i = n
    · subst same
      exact (AList.lookup_insert dir).trans here.symm
    · rw [others i same, ← h.2 i]
      exact AList.lookup_insert_ne (by omega)

/-- The search finds nothing where the identifier is new. -/
theorem find?_eq_none_iff {n : Nat} (all : segments.length ≤ n) :
    ((List.range' 1 n).find? fun path =>
        (segments[path - 1]?.getD []).any fun r => recordId py r = recordId py record) = none ↔
      ¬ Known py segments record := by
  rw [List.find?_eq_none]
  constructor
  · rintro nowhere ⟨r, hr, same⟩
    obtain ⟨segment, hs, hr⟩ := List.mem_flatten.1 hr
    obtain ⟨i, found⟩ := List.mem_iff_getElem?.1 hs
    have inside := (List.getElem?_eq_some_iff.1 found).1
    refine nowhere (i + 1) (List.mem_range'_1.2 (by omega)) ?_
    rw [Nat.add_sub_cancel, found, Option.getD_some, List.any_eq_true]
    exact ⟨r, hr, decide_eq_true same⟩
  · intro new path _ found
    cases there : segments[path - 1]? with
    | none => simp [there] at found
    | some segment =>
        rw [there, Option.getD_some, List.any_eq_true] at found
        obtain ⟨r, hr, same⟩ := found
        exact new ⟨r, List.mem_flatten_of_mem (List.mem_of_getElem? there) hr,
          of_decide_eq_true same⟩

/-- Writing a record is `push`. -/
theorem Stands.push (h : Stands dir segments) (record : TranscriptRecord) :
    Stands (dir.append
        (target maxFileBytes dir (List.range' 1 (max 1 segments.length)) (lineSize record))
        (utf8 (line record)))
      (Segments.push lineSize maxFileBytes segments record) := by
  have alone : utf8 (line record) = bytes [record] := (List.append_nil _).symm
  cases segments using List.reverseRecOn with
  | nil =>
      have absent : dir.file 1 = none := h.2 0
      have path : target maxFileBytes dir (List.range' 1 (max 1 0)) (lineSize record) = 0 + 1 := by
        simp [target, absent]
      rw [List.length_nil, path, Segments.push_nil]
      refine h.append ?_ fun i hi => by simp [hi]
      rw [absent, alone]
      rfl
  | append_singleton front last =>
      have present : dir.file (front.length + 1) = some (bytes last) := by
        rw [h.2 front.length]
        simp
      have after : dir.file (front.length + 1 + 1) = none := by
        rw [h.2 (front.length + 1)]
        simp
      have count : max 1 (front ++ [last]).length = front.length + 1 := by simp
      have end_ : (List.range' 1 (front.length + 1)).getLast?.getD 1 = front.length + 1 := by
        rw [List.range'_concat, List.getLast?_concat, Option.getD_some, Nat.one_mul, Nat.add_comm]
      rw [count, target, end_, present, Option.getD_some, length_bytes, List.length_range',
        Segments.push_snoc]
      split
      next full =>
        refine h.append ?_ fun i hi => ?_
        · rw [after, alone]
          simp
        · rcases Nat.lt_or_ge i (front ++ [last]).length with inside | beyond
          · rw [List.getElem?_append_left inside]
          · simp only [List.length_append, List.length_singleton] at beyond
            rw [List.getElem?_eq_none (by simp; omega), List.getElem?_eq_none (by simp; omega)]
      next room =>
        refine h.append ?_ fun i hi => ?_
        · rw [present, Option.getD_some, alone, ← bytes_append]
          simp
        · rcases Nat.lt_or_ge i front.length with inside | beyond
          · rw [List.getElem?_append_left inside, List.getElem?_append_left inside]
          · rw [List.getElem?_eq_none (by simp; omega), List.getElem?_eq_none (by simp; omega)]

/-- **Appending a record** adds it where its identifier is new, and changes nothing otherwise. -/
theorem Stands.appendTranscript (h : Stands dir segments) (few : segments.length < 1000000)
    (recorded : ∀ r ∈ segments.flatten, Recorded py r) (new : Recorded py record) :
    ∃ path dir', appendTranscript py maxFileBytes dir record = .ok (path, dir') ∧
      Stands dir' (add py maxFileBytes segments record) := by
  have paths : (if dir.files.isEmpty then [1] else dir.files) =
      List.range' 1 (max 1 segments.length) := by
    rw [h.files_eq few]
    cases segments with
    | nil => rfl
    | cons segment segments =>
        rw [if_neg (by simp [List.range'_succ]), List.length_cons, Nat.max_eq_right (by omega)]
  have search := h.findM? recorded new (max 1 segments.length)
  have nothing : ((List.range' 1 (max 1 segments.length)).find? fun path =>
      (segments[path - 1]?.getD []).any fun r => recordId py r = recordId py record) = none ↔
      ¬ Known py segments record :=
    find?_eq_none_iff (Nat.le_max_right 1 segments.length)
  rw [Transcripts.appendTranscript]
  simp only [paths, search, except_ok_bind]
  by_cases known : Known py segments record
  · obtain ⟨path, found⟩ := Option.ne_none_iff_exists'.1 (mt nothing.1 (not_not.2 known))
    rw [found, add, if_pos known]
    exact ⟨path, dir, rfl, h⟩
  · rw [nothing.2 known, add, if_neg known]
    exact ⟨_, _, rfl, h.push record⟩

/-- Touching the first file starts the first segment. -/
theorem Stands.touch (h : Stands dir segments) :
    Stands dir.touch (if segments = [] then [[]] else segments) := by
  cases segments with
  | nil =>
      refine h.append ?_ fun i hi => by simp [hi]
      rw [h.2 0]
      rfl
  | cons segment segments =>
      rw [if_neg (by simp)]
      refine h.append ?_ fun _ _ => rfl
      rw [h.2 0]
      simp

/-! ## Runs -/

/-- What is done with the transcripts of a session. -/
inductive TranscriptStep where
  /-- `ensure_session_storage` -/
  | ensure
  /-- `append_transcript` -/
  | append (record : TranscriptRecord)

/-- A step on the files. -/
def step (py : Python) (maxFileBytes : Nat) (dir : Transcripts) :
    TranscriptStep → Except ScanError Transcripts
  | .ensure => .ok dir.touch
  | .append record => Prod.snd <$> dir.appendTranscript py maxFileBytes record

/-- Several steps, from a directory without transcripts. -/
def run (py : Python) (maxFileBytes : Nat) (steps : List TranscriptStep) :
    Except ScanError Transcripts := steps.foldlM (step py maxFileBytes) ∅

/-- The records that are appended. -/
def appended (steps : List TranscriptStep) : List TranscriptRecord :=
  steps.filterMap fun
    | .ensure => none
    | .append record => some record

/-- The first record with every identifier. -/
def firsts (py : Python) : List TranscriptRecord → List TranscriptRecord
  | [] => []
  | r :: rs => r :: (firsts py rs).filter fun r' => recordId py r' ≠ recordId py r

/-- The lines of all files, in the order of the names. -/
def lines (dir : Transcripts) : List (List Char) :=
  dir.files.flatMap fun path =>
    match (dir.file path).bind decodeUtf8 with
    | some text => textLines (universalNewlines text.toList)
    | none => []

/-- A record counts only if its identifier is new. -/
theorem firsts_concat (rs : List TranscriptRecord) (r : TranscriptRecord) :
    firsts py (rs ++ [r]) =
      if ∃ r' ∈ rs, recordId py r' = recordId py r then firsts py rs else firsts py rs ++ [r] := by
  induction rs with
  | nil => simp [firsts]
  | cons r₀ rs ih =>
      rw [List.cons_append, firsts, ih, firsts]
      by_cases first : recordId py r₀ = recordId py r
      · have known : ∃ r' ∈ r₀ :: rs, recordId py r' = recordId py r :=
          ⟨r₀, List.mem_cons_self, first⟩
        rw [if_pos known]
        split
        · rfl
        · simp [first]
      · have same : (∃ r' ∈ r₀ :: rs, recordId py r' = recordId py r) ↔
            ∃ r' ∈ rs, recordId py r' = recordId py r := by simp [first]
        simp only [same]
        split
        · rfl
        · simp [Ne.symm first]

theorem mem_of_mem_firsts {rs : List TranscriptRecord} {r : TranscriptRecord}
    (h : r ∈ firsts py rs) : r ∈ rs := by
  induction rs with
  | nil => exact h
  | cons r₀ rs ih =>
      rw [firsts] at h
      rcases List.mem_cons.1 h with rfl | h
      · exact List.mem_cons_self
      · exact List.mem_cons_of_mem _ (ih (List.mem_filter.1 h).1)

/-- Every identifier has a first record. -/
theorem recordId_firsts {rs : List TranscriptRecord} {r : TranscriptRecord} (h : r ∈ rs) :
    ∃ r' ∈ firsts py rs, recordId py r' = recordId py r := by
  induction rs with
  | nil => cases h
  | cons r₀ rs ih =>
      by_cases first : recordId py r₀ = recordId py r
      · exact ⟨r₀, List.mem_cons_self, first⟩
      · rcases List.mem_cons.1 h with rfl | h
        · exact absurd rfl first
        · obtain ⟨r', hr', same⟩ := ih h
          refine ⟨r', List.mem_cons_of_mem _ (List.mem_filter.2 ⟨hr', ?_⟩), same⟩
          simpa [same] using Ne.symm first

theorem firsts_nodup (rs : List TranscriptRecord) : ((firsts py rs).map (recordId py)).Nodup := by
  induction rs with
  | nil => exact List.nodup_nil
  | cons r rs ih =>
      rw [firsts, List.map_cons, List.nodup_cons]
      constructor
      · intro there
        obtain ⟨r', hr', same⟩ := List.mem_map.1 there
        exact absurd same (by simpa using (List.mem_filter.1 hr').2)
      · exact ih.sublist ((List.filter_sublist).map _)

/-- What files keep: they only become longer. -/
def Extends (dir dir' : Transcripts) : Prop :=
  ∀ path b, dir.file path = some b → ∃ more, dir'.file path = some (b ++ more)

theorem Extends.refl (dir : Transcripts) : Extends dir dir := fun _ b h =>
  ⟨[], by rw [h, List.append_nil]⟩

theorem Extends.trans {dir₁ dir₂ dir₃ : Transcripts} (h : Extends dir₁ dir₂)
    (h' : Extends dir₂ dir₃) : Extends dir₁ dir₃ := by
  intro path b found
  obtain ⟨more, found⟩ := h path b found
  obtain ⟨most, found⟩ := h' path _ found
  exact ⟨more ++ most, by rw [found, List.append_assoc]⟩

theorem extends_append (dir : Transcripts) (path : Nat) (b : List UInt8) :
    Extends dir (dir.append path b) := by
  intro path' b' found
  by_cases same : path' = path
  · subst same
    refine ⟨b, (AList.lookup_insert dir).trans ?_⟩
    rw [found, Option.getD_some]
  · exact ⟨[], by rw [List.append_nil]; exact (AList.lookup_insert_ne same).trans found⟩

/-- **A step alters no line** that is there. -/
theorem step_extends {dir' : Transcripts} {s : TranscriptStep}
    (h : step py maxFileBytes dir s = .ok dir') : Extends dir dir' := by
  cases s with
  | ensure =>
      cases h
      exact extends_append dir 1 []
  | append record =>
      rw [step, map_eq_pure_bind, except_bind_eq_ok] at h
      obtain ⟨⟨path, dir₁⟩, h, same⟩ := h
      cases same
      rw [Transcripts.appendTranscript, except_bind_eq_ok] at h
      obtain ⟨known, -, h⟩ := h
      cases known with
      | some path =>
          cases h
          exact .refl _
      | none =>
          cases h
          exact extends_append _ _ _

theorem foldlM_extends {steps : List TranscriptStep} {dir' : Transcripts}
    (h : steps.foldlM (step py maxFileBytes) dir = .ok dir') : Extends dir dir' := by
  induction steps generalizing dir with
  | nil =>
      cases h
      exact .refl _
  | cons s steps ih =>
      rw [List.foldlM_cons, except_bind_eq_ok] at h
      obtain ⟨dir₁, first, rest⟩ := h
      exact (step_extends first).trans (ih rest)

/-- A step adds one file, if any. -/
theorem step_files_le {dir' : Transcripts} {s : TranscriptStep}
    (h : step py maxFileBytes dir s = .ok dir') : dir'.files.length ≤ dir.files.length + 1 := by
  have size : ∀ d : Transcripts, d.files.length = d.keys.length := fun d =>
    List.length_insertionSort _ _
  have added : ∀ path b, (dir.append path b).files.length ≤ dir.files.length + 1 := by
    intro path b
    rw [size, size, append, AList.keys_insert, List.length_cons]
    exact Nat.succ_le_succ (List.length_erase_le)
  cases s with
  | ensure =>
      cases h
      exact added 1 []
  | append record =>
      rw [step, map_eq_pure_bind, except_bind_eq_ok] at h
      obtain ⟨⟨path, dir₁⟩, h, same⟩ := h
      cases same
      rw [Transcripts.appendTranscript, except_bind_eq_ok] at h
      obtain ⟨known, -, h⟩ := h
      cases known with
      | some path =>
          cases h
          exact Nat.le_succ _
      | none =>
          cases h
          exact added _ _

/-- So there are at most as many files as steps. -/
theorem run_files_le {steps : List TranscriptStep} (h : run py maxFileBytes steps = .ok dir) :
    dir.files.length ≤ steps.length := by
  have all : ∀ (steps : List TranscriptStep) (dir₀ : Transcripts),
      steps.foldlM (step py maxFileBytes) dir₀ = .ok dir →
        dir.files.length ≤ dir₀.files.length + steps.length := by
    intro steps
    induction steps with
    | nil =>
        intro dir₀ h
        cases h
        exact Nat.le_refl _
    | cons s steps ih =>
        intro dir₀ h
        rw [List.foldlM_cons, except_bind_eq_ok] at h
        obtain ⟨dir₁, first, rest⟩ := h
        have one := step_files_le first
        have more := ih dir₁ rest
        rw [List.length_cons]
        omega
  exact (all steps ∅ h).trans (Nat.zero_add _).le

/-- **What a run comes to**: the first records, in segments within the limit. -/
theorem run_stands {steps : List TranscriptStep} (recorded : ∀ r ∈ appended steps, Recorded py r)
    (few : ∀ earlier, earlier <+: steps → ∀ dir, run py maxFileBytes earlier = .ok dir →
      dir.files.length < 1000000) :
    ∃ dir segments, run py maxFileBytes steps = .ok dir ∧ Stands dir segments ∧
      segments.flatten = firsts py (appended steps) ∧
      Segments.Fits lineSize maxFileBytes segments := by
  induction steps using List.reverseRecOn with
  | nil => exact ⟨∅, [], rfl, ⟨rfl, fun _ => rfl⟩, rfl, .nil⟩
  | append_singleton steps s ih =>
      have all : appended (steps ++ [s]) = appended steps ++ appended [s] := List.filterMap_append
      have before : ∀ r ∈ appended steps, Recorded py r := fun r hr =>
        recorded r (all ▸ List.mem_append_left _ hr)
      obtain ⟨dir, segments, ran, stands, flat, fits⟩ := ih before fun earlier h =>
        few earlier (h.trans (List.prefix_append _ _))
      have small := few steps (List.prefix_append _ _) dir ran
      rw [stands.files_perm.length_eq, List.length_range'] at small
      have next : run py maxFileBytes (steps ++ [s]) = step py maxFileBytes dir s := by
        rw [run, List.foldlM_append]
        show run py maxFileBytes steps >>= _ = _
        rw [ran, except_ok_bind, List.foldlM_cons]
        cases step py maxFileBytes dir s <;> rfl
      cases s with
      | ensure =>
          refine ⟨dir.touch, _, next, stands.touch, ?_, ?_⟩
          · rw [all, show appended [.ensure] = [] from rfl, List.append_nil, ← flat]
            cases segments <;> rfl
          · cases segments with
            | nil =>
                intro segment hs
                exact .inr (by rw [List.mem_singleton.1 hs]; exact Nat.zero_le 1)
            | cons segment segments => exact fits
      | append record =>
          have one : appended [.append record] = [record] := rfl
          have new := recorded record (by rw [all, one]; exact List.mem_concat_self)
          have old : ∀ r ∈ segments.flatten, Recorded py r := fun r hr =>
            before r (mem_of_mem_firsts (flat ▸ hr))
          have known : Known py segments record ↔
              ∃ r ∈ appended steps, recordId py r = recordId py record := by
            rw [Known, flat]
            constructor
            · rintro ⟨r, hr, same⟩
              exact ⟨r, mem_of_mem_firsts hr, same⟩
            · rintro ⟨r, hr, same⟩
              obtain ⟨r', hr', same'⟩ := @recordId_firsts py _ _ hr
              exact ⟨r', hr', same'.trans same⟩
          obtain ⟨path, dir', done, stands'⟩ := stands.appendTranscript small old new
          refine ⟨dir', _, ?_, stands', ?_, ?_⟩
          · rw [next, step, done]
            rfl
          · rw [all, one, firsts_concat, add]
            simp only [← known]
            split
            · exact flat
            · rw [Segments.flatten_push, flat]
          · rw [add]
            split
            · exact fits
            · exact fits.push lineSize_pos

/-- The lines of a directory are the lines of its segments. -/
theorem Stands.lines_eq (h : Stands dir segments) (few : segments.length < 1000000)
    (recorded : ∀ r ∈ segments.flatten, Recorded py r) :
    dir.lines = segments.flatten.map fun r => (line r).toList := by
  have files : ∀ n ≤ segments.length, (List.range' 1 n).flatMap (fun path =>
      match (dir.file path).bind decodeUtf8 with
      | some text => textLines (universalNewlines text.toList)
      | none => []) = (segments.take n).flatten.map fun r => (line r).toList := by
    intro n hn
    induction n with
    | zero => rfl
    | succ n ih =>
        obtain ⟨segment, found⟩ : ∃ segment, segments[n]? = some segment :=
          ⟨_, List.getElem?_eq_getElem hn⟩
        have inside : ∀ r ∈ segment, Recorded py r := fun r hr =>
          recorded r (List.mem_flatten_of_mem (List.mem_of_getElem? found) hr)
        have here : (dir.file (1 + n)).bind decodeUtf8 =
            some (String.join (segment.map line)) := by
          rw [Nat.add_comm, h.2 n, found, Option.map_some, Option.bind_some, bytes_eq,
            decodeUtf8_utf8]
        rw [List.range'_concat, List.flatMap_append, ih (Nat.le_of_succ_le hn), Nat.one_mul,
          List.flatMap_singleton, here, List.take_add_one, found]
        simp only [textLines_bytes inside, Option.toList_some, List.flatten_append,
          List.flatten_singleton, List.map_append]
  rw [lines, h.files_eq few, files _ (Nat.le_refl _), List.take_length]

/-- **Transcripts are append-only.**  Whatever is done with the transcripts of a session, as long as
there are less than a million files: the lines of the files, in the order of their names, are the
first records with every identifier, in the order in which they came; a file is within the limit or
is one record; and no line that was there is altered. -/
theorem transcripts_append_only (py : Python) (maxFileBytes : Nat) (steps : List TranscriptStep)
    (recorded : ∀ r ∈ appended steps, Recorded py r)
    (few : ∀ earlier, earlier <+: steps → ∀ dir, run py maxFileBytes earlier = .ok dir →
      dir.files.length < 1000000) :
    ∃ dir, run py maxFileBytes steps = .ok dir ∧
      dir.lines = (firsts py (appended steps)).map (fun r => (line r).toList) ∧
      (∀ r ∈ appended steps, Json.loads py.numerals (line r) = .value (Json.obj r).sorted) ∧
      ((firsts py (appended steps)).map (recordId py)).Nodup ∧
      (∀ r ∈ appended steps, ∃ r' ∈ firsts py (appended steps),
        recordId py r' = recordId py r) ∧
      (∀ path b, dir.file path = some b →
        b.length ≤ maxFileBytes ∨ ∃ r ∈ appended steps, b = utf8 (line r)) ∧
      ∀ earlier, earlier <+: steps →
        ∃ dir₀, run py maxFileBytes earlier = .ok dir₀ ∧ Extends dir₀ dir := by
  obtain ⟨dir, segments, ran, stands, flat, fits⟩ := run_stands recorded few
  have small := few steps (List.prefix_refl _) dir ran
  rw [stands.files_perm.length_eq, List.length_range'] at small
  have old : ∀ r ∈ segments.flatten, Recorded py r := fun r hr =>
    recorded r (mem_of_mem_firsts (flat ▸ hr))
  refine ⟨dir, ran, ?_, ?_, firsts_nodup _, fun r hr => recordId_firsts hr, ?_, ?_⟩
  · rw [stands.lines_eq small old, flat]
  · exact fun r hr => Json.loads_line Json.Separators.compact (recorded r hr).valid
  · intro path b found
    cases path with
    | zero =>
        rw [stands.1] at found
        cases found
    | succ i =>
        rw [stands.2 i, Option.map_eq_some_iff] at found
        obtain ⟨segment, there, rfl⟩ := found
        rcases fits segment (List.mem_of_getElem? there) with within | short
        · exact .inl (length_bytes.trans_le within)
        · match segment, short with
          | [], _ => exact .inl (Nat.zero_le _)
          | [r], _ =>
              have inside := List.mem_flatten_of_mem (List.mem_of_getElem? there)
                (List.mem_singleton_self r)
              exact .inr ⟨r, mem_of_mem_firsts (flat ▸ inside), List.append_nil _⟩
  · rintro earlier ⟨later, rfl⟩
    rw [run, List.foldlM_append, except_bind_eq_ok] at ran
    obtain ⟨dir₀, first, rest⟩ := ran
    exact ⟨dir₀, first, foldlM_extends rest⟩

/-- Two messages of a run. -/
def message (role : String) : TranscriptRecord :=
  [("record_id", .str ("run:" ++ role)), ("role", .str role)]

/-- Both messages, and the first of them once more after a restart, where a file has room for
one. -/
theorem transcripts_append_only_repeated :
    ∃ dir, run ⟨.plain, fun _ => ""⟩ 60
        [.ensure, .append (message "user"), .append (message "assistant"), .ensure,
          .append (message "user")] = .ok dir ∧
      dir.lines = (firsts ⟨.plain, fun _ => ""⟩
        [message "user", message "assistant", message "user"]).map fun r => (line r).toList := by
  have recorded : ∀ r ∈ [message "user", message "assistant", message "user"],
      Recorded ⟨.plain, fun _ => ""⟩ r := by
    intro r hr
    simp only [List.mem_cons, List.not_mem_nil, or_false] at hr
    rcases hr with rfl | rfl | rfl
    · exact ⟨by simp [message, Json.Valid, Json.ValidMembers], "run:user", by decide, rfl⟩
    · exact ⟨by simp [message, Json.Valid, Json.ValidMembers], "run:assistant", by decide, rfl⟩
    · exact ⟨by simp [message, Json.Valid, Json.ValidMembers], "run:user", by decide, rfl⟩
  obtain ⟨dir, ran, lines, -⟩ := transcripts_append_only ⟨.plain, fun _ => ""⟩ 60
    [.ensure, .append (message "user"), .append (message "assistant"), .ensure,
      .append (message "user")] recorded fun earlier h dir ran =>
        (run_files_le ran).trans_lt (h.length_le.trans_lt (by decide))
  exact ⟨dir, ran, lines⟩

example : firsts ⟨.plain, fun _ => ""⟩ [message "user", message "assistant", message "user"] =
    [message "user", message "assistant"] := by
  simp [firsts, message, recordId, Json.get?]

end Transcripts

end CodeForge
