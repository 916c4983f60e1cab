import CodeForge.Persistence.Reading
import CodeForge.Persistence.System

/-!
# The content log

The log of a session is a series of files.  `append_record` adds to the last of
them, by name, and starts the next where the record would make it too long.  The
number of a file counts the files before it, so a file that is started was not
there (`Counted`), whatever order the names are in.

What was appended stays (`appendRecords_keep`): every reference reads back as its
record after everything that is appended later, no two records share a byte, and
a file is within its limit, or has one record.  It does not matter which of the
references a transaction keeps.
-/

namespace CodeForge

open Lib

namespace Files

variable {sha256 : List UInt8 → String} {maxFileBytes : Nat} {files : Files} {base : String}
  {session : Uuid} {i : Nat}

/-! ## The files of a log -/

theorem mem_logs : i ∈ files.logs base session ↔ (base, .log session i) ∈ files := by
  rw [logs, List.mem_filterMap, AList.mem_keys]
  constructor
  · rintro ⟨⟨b, path⟩, hk, same⟩
    cases path with
    | log s j =>
        simp only [Option.ite_none_right_eq_some, Option.some.injEq] at same
        obtain ⟨⟨rfl, rfl⟩, rfl⟩ := same
        exact hk
    | _ => cases same
  · intro hk
    exact ⟨_, hk, by simp⟩

/-- The last file of a log is one of its files. -/
theorem lastLog_mem (h : files.lastLog base session = some i) : i ∈ files.logs base session := by
  have among : ∀ (is : List Nat) (j : Nat), is.foldl laterLog j ∈ j :: is := by
    intro is
    induction is with
    | nil => exact fun j => List.mem_singleton_self j
    | cons k is ih =>
        intro j
        have rest := ih (laterLog j k)
        rw [List.foldl_cons]
        rcases List.mem_cons.1 rest with first | later
        · rw [first, laterLog]
          split
          · exact List.mem_cons_of_mem _ List.mem_cons_self
          · exact List.mem_cons_self
        · exact List.mem_cons_of_mem _ (List.mem_cons_of_mem _ later)
  unfold lastLog at h
  cases all : files.logs base session with
  | nil => simp [all] at h
  | cons j is =>
      simp only [all, Option.some.injEq] at h
      rw [← h]
      exact among is j

theorem lastLog_eq_none : files.lastLog base session = none ↔ files.logs base session = [] := by
  unfold lastLog
  cases files.logs base session <;> simp

/-- Writing a file that is there leaves the files of the log alone. -/
theorem logs_insert_old {b : List UInt8} (old : (base, ContentPath.log session i) ∈ files) :
    (logs (files.insert (base, .log session i) b) base session).Perm
      (files.logs base session) := by
  refine List.Perm.filterMap _ ?_
  refine (List.perm_ext_iff_of_nodup (AList.keys_nodup _) (AList.keys_nodup _)).2 fun k => ?_
  rw [← AList.mem_keys, ← AList.mem_keys, AList.mem_insert]
  constructor
  · rintro (rfl | known)
    · exact old
    · exact known
  · exact .inr

/-- A file that is new is one more. -/
theorem logs_insert_new {b : List UInt8} (new : (base, ContentPath.log session i) ∉ files) :
    (logs (files.insert (base, .log session i) b) base session).Perm
      (i :: files.logs base session) := by
  have keys : (AList.insert (base, ContentPath.log session i) b files).keys.Perm
      ((base, .log session i) :: files.keys) := by
    refine (List.perm_ext_iff_of_nodup (AList.keys_nodup _)
      (List.nodup_cons.2 ⟨AList.mem_keys.not.1 new, AList.keys_nodup _⟩)).2 fun k => ?_
    rw [← AList.mem_keys, AList.mem_insert, List.mem_cons, AList.mem_keys]
  refine (keys.filterMap _).trans (.of_eq ?_)
  simp [logs]

/-! ## What appending keeps -/

/-- No file of a log has a number beyond their count. -/
def Counted (files : Files) (base : String) (session : Uuid) : Prop :=
  ∀ i ∈ files.logs base session, i ≤ (files.logs base session).length

/-- The files of a log are within the limit, or have one record of those. -/
def Sized (maxFileBytes : Nat) (files : Files) (base : String) (session : Uuid)
    (records : List Json) : Prop :=
  ∀ i b, files.lookup (base, .log session i) = some b →
    b.length ≤ maxFileBytes ∨ ∃ r ∈ records, b = encodeRecord r

/-- Where a record goes: to a file that is there and is empty or has the room, or to a new one. -/
theorem nextLog_cases (counted : files.Counted base session) {incoming next : Nat}
    (h : files.nextLog maxFileBytes base session incoming = next) :
    (∃ before, files.lookup (base, .log session next) = some before ∧
        (before = [] ∨ before.length + incoming ≤ maxFileBytes)) ∨
      ((base, ContentPath.log session next) ∉ files ∧
        next ≤ (files.logs base session).length + 1) := by
  have absent : ∀ n, (files.logs base session).length < n →
      (base, ContentPath.log session n) ∉ files := by
    intro n beyond known
    have := counted n (mem_logs.2 known)
    omega
  unfold nextLog at h
  cases last : files.lastLog base session with
  | none =>
      simp only [last] at h
      subst h
      rw [lastLog_eq_none] at last
      exact .inr ⟨absent 1 (by simp [last]), by simp⟩
  | some i =>
      obtain ⟨before, found⟩ := Option.isSome_iff_exists.1
        (AList.lookup_isSome.2 (mem_logs.1 (lastLog_mem last)))
      have size : files.size (base, .log session i) = before.length := by simp [Files.size, found]
      simp only [last, size] at h
      split at h
      next full =>
        subst h
        exact .inr ⟨absent _ (Nat.lt_succ_self _), Nat.le_refl _⟩
      next room =>
        subst h
        refine .inl ⟨before, found, ?_⟩
        cases before with
        | nil => exact .inl rfl
        | cons b bs =>
            simp only [List.length_cons] at room ⊢
            omega

variable (sha256) in
/-- **Appending a record** keeps the count of the files and their limit. -/
theorem appendRecord_step {records : List Json} (counted : files.Counted base session)
    (sized : files.Sized maxFileBytes base session records) (record : Json) :
    let written := (files.appendRecord sha256 maxFileBytes base session record).2
    written.Counted base session ∧
      written.Sized maxFileBytes base session (record :: records) := by
  show Counted (files.insert (base, .log session _) _) base session ∧
    Sized maxFileBytes (files.insert (base, .log session _) _) base session _
  generalize next : files.nextLog maxFileBytes base session (encodeRecord record).length = n
  -- the other files are as they were
  have others : ∀ b, (∀ c, c = b → c.length ≤ maxFileBytes ∨ ∃ r ∈ record :: records,
      c = encodeRecord r) → Sized maxFileBytes (files.insert (base, .log session n) b) base session
        (record :: records) := by
    intro b here i c found
    by_cases same : i = n
    · subst same
      rw [AList.lookup_insert] at found
      exact here c (Option.some.inj found).symm
    · rw [AList.lookup_insert_ne (by simpa using same)] at found
      rcases sized i c found with fits | ⟨r, hr, single⟩
      · exact .inl fits
      · exact .inr ⟨r, List.mem_cons_of_mem _ hr, single⟩
  rcases nextLog_cases counted next with ⟨before, found, room⟩ | ⟨new, beyond⟩
  · have old : (base, ContentPath.log session n) ∈ files := by
      rw [← AList.lookup_isSome, found]
      rfl
    have perm := logs_insert_old (b := before ++ encodeRecord record) old
    rw [found, Option.getD_some]
    constructor
    · intro i hi
      rw [perm.length_eq]
      exact counted i (perm.mem_iff.1 hi)
    · refine others _ fun c same => ?_
      subst same
      rcases room with rfl | fits
      · exact .inr ⟨record, List.mem_cons_self, rfl⟩
      · exact .inl (by rw [List.length_append]; exact fits)
  · have perm := logs_insert_new (b := [] ++ encodeRecord record) new
    rw [AList.lookup_eq_none.2 new, Option.getD_none]
    constructor
    · intro i hi
      rw [perm.length_eq, List.length_cons]
      rcases List.mem_cons.1 (perm.mem_iff.1 hi) with rfl | known
      · exact beyond
      · exact (counted i known).trans (Nat.le_succ _)
    · refine others _ fun c same => ?_
      exact .inr ⟨record, List.mem_cons_self, same⟩

/-! ## Reading back -/

/-- A span ends within its file. -/
theorem Holds.end_le {k : FileKey} {offset : Nat} {bytes : List UInt8}
    (h : files.Holds k offset bytes) : offset + bytes.length ≤ files.size k := by
  obtain ⟨l, r, found, rfl⟩ := h
  simp only [size, found, Option.getD_some, List.length_append]
  omega

theorem Grows.size_le {f g : Files} (h : Grows f g) (k : FileKey) : f.size k ≤ g.size k := by
  cases found : f.lookup k with
  | none => simp [size, found]
  | some b =>
      obtain ⟨b', found', more⟩ := h.logs k b found
      simpa [size, found, found'] using more.length_le

/-- The record at a span is read as it was written. -/
theorem Holds.readVerified {R : Reader} {d : Deployment} {ref : ContentPath} {offset : Nat}
    {record : Json} (holds : files.Holds (base, ref) offset (encodeRecord record))
    (disk : R.disk (base, ref) = files.lookup (base, ref)) (valid : record.Valid R.numerals) :
    R.readVerified d base ref offset (encodeRecord record).length
      (d.sha256 (utf8 record.canonical)) = .ok (.json record.sorted) := by
  obtain ⟨l, r, found, rfl⟩ := holds
  have span : ((l ++ encodeRecord record ++ r).drop l.length).take (encodeRecord record).length =
      encodeRecord record := by simp
  have loaded : loadBytes R.numerals (encodeRecord record) = .value record.sorted :=
    loadBytes_line Json.Separators.compact valid
  have read : R.readRecord base ref l.length (encodeRecord record).length =
      .ok (.json record.sorted) := by
    simp only [Reader.readRecord, disk, found, span, loaded]
  have same : record.sorted.canonical = record.canonical := Json.dumps_sorted "," ":" record
  rw [Reader.readVerified, read, except_ok_bind]
  split
  · rfl
  · simp only [same, ne_eq, not_true_eq_false, ↓reduceIte]

/-! ## Runs -/

/-- Calls of `append_record` on a directory, with what they return. -/
def appendRecords (sha256 : List UInt8 → String) (maxFileBytes : Nat) (base : String)
    (session : Uuid) : Files → List Json → List ContentRef × Files
  | files, [] => ([], files)
  | files, record :: records =>
      let (ref, files) := files.appendRecord sha256 maxFileBytes base session record
      let (refs, files) := appendRecords sha256 maxFileBytes base session files records
      (ref :: refs, files)

/-- The spans have no byte in common. -/
def Apart (r r' : ContentRef) : Prop :=
  r.ref = r'.ref → r.offset + r.bytes ≤ r'.offset ∨ r'.offset + r'.bytes ≤ r.offset

variable (sha256 maxFileBytes base session) in
/-- A run of calls makes the logs longer, and its references are to the records. -/
theorem appendRecords_holds (records : List Json) (files : Files) :
    let written := appendRecords sha256 maxFileBytes base session files records
    Grows files written.2 ∧
      List.Forall₂ (fun record (ref : ContentRef) =>
        written.2.Holds (base, ref.ref) ref.offset (encodeRecord record) ∧
          ref.bytes = (encodeRecord record).length ∧
          ref.digest = sha256 (utf8 record.canonical)) records written.1 := by
  induction records generalizing files with
  | nil => exact ⟨.refl files, .nil⟩
  | cons record records ih =>
      have first := appendRecord_grows sha256 maxFileBytes files base session record
      obtain ⟨grows, rest⟩ := ih (files.appendRecord sha256 maxFileBytes base session record).2
      refine ⟨first.trans grows, .cons ⟨?_, rfl, rfl⟩ rest⟩
      exact grows.holds (appendRecord_holds sha256 maxFileBytes files base session record)

variable (sha256 maxFileBytes base session) in
/-- The spans of a run come after what was there. -/
theorem appendRecords_after (records : List Json) (files : Files) :
    ∀ ref ∈ (appendRecords sha256 maxFileBytes base session files records).1,
      files.size (base, ref.ref) ≤ ref.offset := by
  induction records generalizing files with
  | nil => simp [appendRecords]
  | cons record records ih =>
      have first := appendRecord_grows sha256 maxFileBytes files base session record
      intro ref hr
      rcases List.mem_cons.1 hr with rfl | later
      · exact Nat.le_refl _
      · exact (first.size_le _).trans (ih _ ref later)

variable (sha256 maxFileBytes base session) in
/-- The spans of a run are apart. -/
theorem appendRecords_apart (records : List Json) (files : Files) :
    (appendRecords sha256 maxFileBytes base session files records).1.Pairwise Apart := by
  induction records generalizing files with
  | nil => exact .nil
  | cons record records ih =>
      refine .cons (fun ref hr same => .inl ?_) (ih _)
      have written := appendRecord_holds sha256 maxFileBytes files base session record
      have after := appendRecords_after sha256 maxFileBytes base session records _ ref hr
      rw [← same] at after
      exact written.end_le.trans after

theorem appendRecords_sized {more : List Json} (records : List Json)
    (counted : files.Counted base session)
    (sized : files.Sized maxFileBytes base session more) :
    (appendRecords sha256 maxFileBytes base session files records).2.Sized maxFileBytes base session
      (records ++ more) := by
  induction records generalizing files more with
  | nil => exact sized
  | cons record records ih =>
      have step := appendRecord_step sha256 counted sized record
      intro i b found
      refine (ih step.1 step.2 i b found).imp id ?_
      rintro ⟨r, hr, single⟩
      refine ⟨r, ?_, single⟩
      simp only [List.mem_append, List.mem_cons] at hr ⊢
      tauto

/-- **The content log keeps what it is given.**  After any calls on a directory that had no log,
every reference reads back as its record, and has its digest; no two spans share a byte; and every
file is within the limit, or is one record. -/
theorem appendRecords_keep (d : Deployment) (base : String) (session : Uuid) (files : Files)
    (fresh : files.logs base session = []) (numerals : Json.Numerals)
    (locate : String → ContentPath) (records : List Json)
    (valid : ∀ record ∈ records, record.Valid numerals) :
    let written := appendRecords d.sha256 d.maxFileBytes base session files records
    let R : Reader := { numerals, disk := written.2.lookup, locate }
    List.Forall₂ (fun record (ref : ContentRef) =>
        R.readVerified d base ref.ref ref.offset ref.bytes ref.digest = .ok (.json record.sorted) ∧
          ref.digest = d.sha256 (utf8 record.canonical)) records written.1 ∧
      written.1.Pairwise Apart ∧
      ∀ i b, written.2.lookup (base, .log session i) = some b →
        b.length ≤ d.maxFileBytes ∨ ∃ record ∈ records, b = encodeRecord record := by
  intro written R
  refine ⟨?_, appendRecords_apart _ _ _ _ _ _, ?_⟩
  · have holds := (appendRecords_holds d.sha256 d.maxFileBytes base session records files).2
    refine ((List.forall₂_and_left _ _).2 ⟨valid, holds⟩).imp ?_
    intro record ref ⟨valid, held, bytes, digest⟩
    rw [bytes, digest]
    exact ⟨held.readVerified rfl valid, rfl⟩
  · have none : files.Sized d.maxFileBytes base session [] := by
      intro i b found
      have known := mem_logs.2 (AList.lookup_isSome.1 (Option.isSome_iff_exists.2 ⟨b, found⟩))
      rw [fresh] at known
      cases known
    have counted : files.Counted base session := by
      intro i hi
      rw [fresh] at hi
      cases hi
    have sized : (appendRecords d.sha256 d.maxFileBytes base session files records).2.Sized
        d.maxFileBytes base session (records ++ []) :=
      appendRecords_sized records counted none
    rw [List.append_nil] at sized
    exact sized

/-- A record of its own, to be told from others. -/
def numberedRecord (n : Nat) : Json := .obj [("record", .nat n)]

/-- Three records where a file has room for two of them. -/
theorem appendRecords_keep_rotated :
    let d := { Deployment.plain with maxFileBytes := 30 }
    let records := [numberedRecord 1, numberedRecord 2, numberedRecord 3]
    let written := appendRecords d.sha256 d.maxFileBytes "/srv/ada" ⟨0⟩ ∅ records
    let R : Reader :=
      { numerals := .plain, disk := written.2.lookup, locate := fun _ => .log ⟨0⟩ 0 }
    List.Forall₂ (fun record (ref : ContentRef) =>
        R.readVerified d "/srv/ada" ref.ref ref.offset ref.bytes ref.digest =
            .ok (.json record.sorted) ∧
          ref.digest = d.sha256 (utf8 record.canonical)) records written.1 ∧
      written.1.Pairwise Apart ∧
      ∀ i b, written.2.lookup ("/srv/ada", .log ⟨0⟩ i) = some b →
        b.length ≤ d.maxFileBytes ∨ ∃ record ∈ records, b = encodeRecord record := by
  have valid : ∀ record ∈ [numberedRecord 1, numberedRecord 2, numberedRecord 3],
      record.Valid .plain := by
    simp [numberedRecord, Json.Valid, Json.ValidMembers, Json.valid_nat]
  exact appendRecords_keep { Deployment.plain with maxFileBytes := 30 } "/srv/ada" ⟨0⟩ ∅ rfl .plain
    (fun _ => .log ⟨0⟩ 0) _ valid

example : (appendRecords (fun _ => "") 30 "/srv/ada" ⟨0⟩ ∅
    [numberedRecord 1, numberedRecord 2, numberedRecord 3]).1.map
      (fun ref => (ref.ref, ref.offset)) =
    [(.log ⟨0⟩ 1, 0), (.log ⟨0⟩ 1, 13), (.log ⟨0⟩ 2, 0)] := by decide

end Files

end CodeForge
