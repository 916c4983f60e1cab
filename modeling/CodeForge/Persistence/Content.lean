import Mathlib.Data.List.AList
import CodeForge.Contracts

/-!
# The content store

Bodies live in files under a *base* directory, the user root of the session or
the directory of the database.  Two kinds of file exist.  A session's event log
is a series of JSONL files that only ever get longer; `appendRecord` adds a
record to the last one, or starts the next when the last is full.  An object
file holds one message, snapshot or response; `writeObject` writes it once and
leaves an existing one alone.

`Grows` is the order on file states that both keep: no file goes, a log is
extended at its end, an object does not change.  A span of bytes in a log is
therefore where it was for good (`Files.Grows.holds`).
-/

namespace CodeForge

open Lib

/-- Who wrote a message. -/
inductive Role where
  | user
  | assistant
deriving DecidableEq, Repr

/-- The stored text. -/
def Role.value : Role → String
  | .user => "user"
  | .assistant => "assistant"

/-- The path of a content file below its base. -/
inductive ContentPath where
  /-- `sessions/<session>/content-<index>.jsonl` -/
  | log (session : Uuid) (index : Nat)
  /-- `sessions/<session>/messages/<run>-<role>.json` -/
  | message (session run : Uuid) (role : Role)
  /-- `sessions/<session>/snapshots/<run>.json` -/
  | snapshot (session run : Uuid)
  /-- `sessions/<session>/pending/<pending>-response.json` -/
  | response (session : Uuid) (pending : String)
deriving DecidableEq, Repr

/-- The file is a log. -/
def ContentPath.isLog : ContentPath → Bool
  | .log _ _ => true
  | _ => false

/-- The run whose acceptance writes the file. -/
def ContentPath.run? : ContentPath → Option Uuid
  | .message _ run .user => some run
  | .snapshot _ run => some run
  | _ => none

/-- A file: its base directory and its path below it. -/
abbrev FileKey := String × ContentPath

/-- The content files with their bytes. -/
abbrev Files := AList fun _ : FileKey => List UInt8

/-- The location of a record of a log. -/
structure ContentRef where
  ref : ContentPath
  offset : Nat
  bytes : Nat
  digest : String
deriving DecidableEq, Repr

/-- The location of an object file. -/
structure ObjectRef where
  ref : ContentPath
  bytes : Nat
  digest : String
deriving DecidableEq, Repr

namespace Files

/-! ## Logs -/

/-- A number with at least six digits. -/
def sixDigits (n : Nat) : String :=
  let s := toString n
  String.ofList (List.replicate (6 - s.length) '0') ++ s

/-- The name of a log file. -/
def logName (index : Nat) : String := s!"content-{sixDigits index}.jsonl"

/-- The log files of a session. -/
def logs (files : Files) (base : String) (session : Uuid) : List Nat :=
  files.keys.filterMap fun k =>
    match k with
    | (b, .log s index) => if b = base ∧ s = session then some index else none
    | _ => none

/-- The later of two log files, by name. -/
def laterLog (a b : Nat) : Nat := if logName a ≤ logName b then b else a

/-- The last log file of a session, by name. -/
def lastLog (files : Files) (base : String) (session : Uuid) : Option Nat :=
  match files.logs base session with
  | [] => none
  | i :: is => some (is.foldl laterLog i)

/-- The size of a file, zero where there is none. -/
def size (files : Files) (k : FileKey) : Nat := ((files.lookup k).getD []).length

/-- `_next_file`: the log file the next record goes to. -/
def nextLog (maxFileBytes : Nat) (files : Files) (base : String) (session : Uuid)
    (incoming : Nat) : Nat :=
  match files.lastLog base session with
  | none => 1
  | some i =>
      let size := files.size (base, .log session i)
      if size ≠ 0 ∧ size + incoming > maxFileBytes then (files.logs base session).length + 1 else i

/-- One line of a log. -/
def encodeRecord (record : Json) : List UInt8 := utf8 (record.canonical ++ "\n")

/-- `append_record`. -/
def appendRecord (sha256 : List UInt8 → String) (maxFileBytes : Nat) (files : Files)
    (base : String) (session : Uuid) (record : Json) : ContentRef × Files :=
  let encoded := encodeRecord record
  let path := ContentPath.log session (files.nextLog maxFileBytes base session encoded.length)
  let before := (files.lookup (base, path)).getD []
  ({ ref := path, offset := before.length, bytes := encoded.length,
     digest := sha256 (utf8 record.canonical) },
   files.insert (base, path) (before ++ encoded))

/-- `write_object`: an existing file is left as it is. -/
def writeObject (sha256 : List UInt8 → String) (files : Files) (base : String)
    (path : ContentPath) (payload : List UInt8) : ObjectRef × Files :=
  ({ ref := path, bytes := payload.length, digest := sha256 payload },
   match files.lookup (base, path) with
   | some _ => files
   | none => files.insert (base, path) payload)

/-! ## Growth -/

/-- No file goes, a log is extended at its end, an object does not change. -/
structure Grows (f g : Files) : Prop where
  logs : ∀ k b, f.lookup k = some b → ∃ b', g.lookup k = some b' ∧ b <+: b'
  objects : ∀ k b, k.2.isLog = false → f.lookup k = some b → g.lookup k = some b

theorem Grows.refl (f : Files) : Grows f f :=
  ⟨fun _ b h => ⟨b, h, List.prefix_rfl⟩, fun _ _ _ h => h⟩

theorem Grows.trans {f g h : Files} (hfg : Grows f g) (hgh : Grows g h) : Grows f h where
  logs := by
    intro k b hb
    obtain ⟨b', hb', hp⟩ := hfg.logs k b hb
    obtain ⟨b'', hb'', hp'⟩ := hgh.logs k b' hb'
    exact ⟨b'', hb'', hp.trans hp'⟩
  objects := fun k b hk hb => hgh.objects k b hk (hfg.objects k b hk hb)

/-- Extending one log, or starting it, is growth. -/
theorem grows_insert_log {f : Files} {base : String} {s : Uuid} {i : Nat}
    {b : List UInt8} (h : (f.lookup (base, .log s i)).getD [] <+: b) :
    Grows f (f.insert (base, .log s i) b) where
  logs := by
    intro k c hc
    by_cases hk : k = (base, .log s i)
    · subst hk
      refine ⟨b, AList.lookup_insert f, ?_⟩
      simpa [hc] using h
    · exact ⟨c, by rw [AList.lookup_insert_ne hk, hc], List.prefix_rfl⟩
  objects := by
    intro k c hlog hc
    have hk : k ≠ (base, .log s i) := by rintro rfl; simp [ContentPath.isLog] at hlog
    rw [AList.lookup_insert_ne hk, hc]

/-- Writing a file that was not there is growth. -/
theorem grows_insert_new {f : Files} {k : FileKey} {b : List UInt8} (h : f.lookup k = none) :
    Grows f (f.insert k b) := by
  have keep : ∀ k' c, f.lookup k' = some c → (f.insert k b).lookup k' = some c := by
    intro k' c hc
    have hk : k' ≠ k := by rintro rfl; simp [h] at hc
    rw [AList.lookup_insert_ne hk, hc]
  exact ⟨fun k' c hc => ⟨c, keep k' c hc, List.prefix_rfl⟩, fun k' c _ hc => keep k' c hc⟩

variable (sha256 : List UInt8 → String)

theorem appendRecord_grows (maxFileBytes : Nat) (f : Files) (base : String) (session : Uuid)
    (record : Json) : Grows f (f.appendRecord sha256 maxFileBytes base session record).2 :=
  grows_insert_log (List.prefix_append _ _)

theorem writeObject_grows (f : Files) (base : String) (path : ContentPath)
    (payload : List UInt8) : Grows f (f.writeObject sha256 base path payload).2 := by
  unfold writeObject
  cases h : f.lookup (base, path) with
  | some b => exact Grows.refl f
  | none => exact grows_insert_new h

/-- Where there was no file, the payload is written. -/
theorem writeObject_new {f : Files} {base : String} {path : ContentPath} (payload : List UInt8)
    (h : f.lookup (base, path) = none) :
    (f.writeObject sha256 base path payload).2.lookup (base, path) = some payload := by
  simp [writeObject, h]

/-- Where there was no other payload, the payload is there. -/
theorem writeObject_own {f : Files} {base : String} {path : ContentPath} {payload : List UInt8}
    (own : ∀ b, f.lookup (base, path) = some b → b = payload) :
    (f.writeObject sha256 base path payload).2.lookup (base, path) = some payload := by
  cases h : f.lookup (base, path) with
  | none => exact writeObject_new sha256 payload h
  | some b =>
      obtain rfl := own b h
      simp [writeObject, h]

theorem writeObject_lookup_ne {f : Files} {base : String} {path : ContentPath}
    (payload : List UInt8) {k : FileKey} (h : k ≠ (base, path)) :
    (f.writeObject sha256 base path payload).2.lookup k = f.lookup k := by
  unfold writeObject
  cases f.lookup (base, path) with
  | some b => rfl
  | none => exact AList.lookup_insert_ne h

/-! ## Spans -/

/-- The bytes stand in the file at the offset. -/
def Holds (f : Files) (k : FileKey) (offset : Nat) (bytes : List UInt8) : Prop :=
  ∃ l r, f.lookup k = some (l ++ bytes ++ r) ∧ l.length = offset

/-- A span stays where it is. -/
theorem Grows.holds {f g : Files} (h : Grows f g) {k : FileKey} {offset : Nat}
    {bytes : List UInt8} (hf : Holds f k offset bytes) : Holds g k offset bytes := by
  obtain ⟨l, r, hk, hl⟩ := hf
  obtain ⟨b, hb, t, rfl⟩ := h.logs _ _ hk
  exact ⟨l, r ++ t, by rw [hb]; simp, hl⟩

/-- A record stands at the place its reference names. -/
theorem appendRecord_holds (maxFileBytes : Nat) (f : Files) (base : String) (session : Uuid)
    (record : Json) :
    let written := f.appendRecord sha256 maxFileBytes base session record
    Holds written.2 (base, written.1.ref) written.1.offset (encodeRecord record) := by
  refine ⟨_, [], ?_, rfl⟩
  rw [List.append_nil]
  exact AList.lookup_insert f

theorem appendRecord_bytes (maxFileBytes : Nat) (f : Files) (base : String) (session : Uuid)
    (record : Json) : (f.appendRecord sha256 maxFileBytes base session record).1.bytes =
      (encodeRecord record).length := rfl

theorem appendRecord_digest (maxFileBytes : Nat) (f : Files) (base : String) (session : Uuid)
    (record : Json) : (f.appendRecord sha256 maxFileBytes base session record).1.digest =
      sha256 (utf8 record.canonical) := rfl

/-! ## Names of files -/

/-- The files an acceptance writes are named after identifiers drawn before. -/
def NamesDrawn (f : Files) (drawn : Nat) : Prop :=
  ∀ k ∈ f, ∀ r, k.2.run? = some r → r.draw < drawn

theorem NamesDrawn.mono {f : Files} {m n : Nat} (h : NamesDrawn f m) (hmn : m ≤ n) :
    NamesDrawn f n := fun k hk r hr => Nat.lt_of_lt_of_le (h k hk r hr) hmn

theorem NamesDrawn.insert {f : Files} {n : Nat} (h : NamesDrawn f n) {k : FileKey}
    {b : List UInt8} (hk : ∀ r, k.2.run? = some r → r.draw < n) :
    NamesDrawn (f.insert k b) n := by
  intro k' hk' r hr
  rcases (AList.mem_insert f).1 hk' with rfl | hmem
  · exact hk r hr
  · exact h k' hmem r hr

theorem NamesDrawn.appendRecord {f : Files} {n : Nat} (h : NamesDrawn f n) (maxFileBytes : Nat)
    (base : String) (session : Uuid) (record : Json) :
    NamesDrawn (f.appendRecord sha256 maxFileBytes base session record).2 n :=
  h.insert (by intro r hr; cases hr)

theorem NamesDrawn.writeObject {f : Files} {n : Nat} (h : NamesDrawn f n) (base : String)
    {path : ContentPath} (payload : List UInt8) (hp : ∀ r, path.run? = some r → r.draw < n) :
    NamesDrawn (f.writeObject sha256 base path payload).2 n := by
  unfold Files.writeObject
  cases f.lookup (base, path) with
  | some b => exact h
  | none => exact h.insert hp

/-- A run drawn now has no object file yet. -/
theorem NamesDrawn.lookup_none {f : Files} {n : Nat} (h : NamesDrawn f n) {k : FileKey} {r : Uuid}
    (hr : k.2.run? = some r) (hn : n ≤ r.draw) : f.lookup k = none := by
  rw [AList.lookup_eq_none]
  intro hk
  have := h k hk r hr
  omega

end Files

end CodeForge
