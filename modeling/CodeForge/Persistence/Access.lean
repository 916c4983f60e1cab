import CodeForge.Persistence.Reading
import CodeForge.Persistence.Writes

/-!
# Access to the bodies of runs

The readers of a store look at its content files, some of which cannot be read
although they are there.  Whether a run can be read depends on its references,
on the directory of its session and on its own files, and on nothing else
(`Access.reads_congr`).  So it is known before a change of status whether the run
can be read after it (`Access.readsWith_iff`).
-/

namespace CodeForge

open Lib StoreM

/-! ## Reading the files of a store -/

/-- How content is read. -/
structure Access where
  numerals : Json.Numerals
  /-- Reading the file fails although it is there. -/
  unreadable : FileKey → Bool
  /-- The file a reference stands for. -/
  locate : String → ContentPath

/-- The reader of the files as they are now. -/
def Access.reader (A : Access) (files : Files) : Reader where
  numerals := A.numerals
  disk k := if A.unreadable k then none else files.lookup k
  locate := A.locate

/-- Every file that is there can be read. -/
def Access.plain : Access where
  numerals := .plain
  unreadable _ := false
  locate _ := .log ⟨0⟩ 0

/-- `get_run` returns. -/
def Access.Reads (A : Access) (d : Deployment) (s : Store) (scopeId : String) (runId : Uuid) :
    Prop := ∃ view, (A.reader s.files).getRun d s.db scopeId runId = .ok view

/-- A message that is written to the file can be read: the file can, and if there is one already
it is a message. -/
def Access.ReadsBack (A : Access) (files : Files) (k : FileKey) : Prop :=
  A.unreadable k = false ∧ ∀ b, files.lookup k = some b →
    ∃ m, ((A.reader files).loadObject b >>= Reader.contentOf) = .ok m

/-- The bodies of a run can be read, once the output is written that is given. -/
def Access.ReadsWith (A : Access) (d : Deployment) (s : Store) (r : RunRow) :
    Option String → Prop
  | none => A.Reads d s r.scopeId r.id
  | some _ =>
      (∃ view, (A.reader s.files).decodeRun d s.db { r with outputRef := none } = .ok view) ∧
        A.ReadsBack s.files
          (s.db.baseForSession d r.sessionId, .message r.sessionId r.id .assistant)

/-! ## What a run is read from -/

theorem Db.run_of_refs {db : Db} {scopeId : String} {runId : Uuid} {c : RunRefs}
    (h : db.refs (scopeId, runId) = some c) : ∃ r, db.run scopeId runId = some r := by
  obtain ⟨r, hr, hkey, -⟩ := Table.view_eq_some.1 h
  obtain ⟨scope, id⟩ := Prod.mk.inj hkey
  exact ⟨r, Db.run_eq_some.2 ⟨hr, scope, id⟩⟩

/-- The bodies references lead to can be read. -/
structure RunRefs.Readable (R : Reader) (base : String) (c : RunRefs) : Prop where
  configSnapshot : ∃ body, R.readObjectJson base c.configSnapshotRef = .ok body
  input : ∃ body, R.readMessage base c.inputRef = .ok body
  output : ∀ ref, c.outputRef = some ref → ∃ body, R.readMessage base ref = .ok body

/-- The file holds the input, the snapshot or the output of a run. -/
def ContentPath.ofRun : ContentPath → Bool
  | .message _ _ _ | .snapshot _ _ => true
  | _ => false

/-- The files of the runs are the same. -/
def Files.SameBodies (f g : Files) : Prop := ∀ k, k.2.ofRun = true → g.lookup k = f.lookup k

theorem Files.SameObjects.bodies {f g : Files} (h : Files.SameObjects f g) :
    Files.SameBodies f g := by
  rintro ⟨base, path⟩ hpath
  refine h _ ?_
  cases path with
  | message | snapshot => rfl
  | log | response => cases hpath

/-- An answer goes to a file of its own. -/
theorem Files.withResponse_bodies (d : Deployment) (f : Files) (base : String) (sessionId : Uuid)
    (pendingId text : String) :
    Files.SameBodies f (f.withResponse d base sessionId pendingId text) := by
  rintro ⟨b, path⟩ hpath
  refine Files.writeObject_lookup_ne d.sha256 _ ?_
  rintro ⟨⟩
  cases hpath

theorem Files.SameBodies.trans {f g h : Files} (hfg : Files.SameBodies f g)
    (hgh : Files.SameBodies g h) : Files.SameBodies f h :=
  fun k hk => (hgh k hk).trans (hfg k hk)

section Reading

variable {R : Reader} {A : Access} {d : Deployment} {db : Db}

/-- Decoding a run reads what its references lead to. -/
theorem Reader.decodeRun_ok_iff {r : RunRow} :
    (∃ view, R.decodeRun d db r = .ok view) ↔ r.refs.Readable R (db.bases d r.sessionId) := by
  simp only [decodeRun, except_bind_eq_ok]
  constructor
  · rintro ⟨view, snapshot, hsnapshot, input, hinput, output, houtput, -⟩
    refine ⟨⟨snapshot, hsnapshot⟩, ⟨input, hinput⟩, fun ref href => ?_⟩
    change r.outputRef = some ref at href
    rw [href] at houtput
    obtain ⟨body, hbody, -⟩ := except_bind_eq_ok.1 houtput
    exact ⟨body, hbody⟩
  · rintro ⟨⟨snapshot, hsnapshot⟩, ⟨input, hinput⟩, houtput⟩
    cases href : r.outputRef with
    | none => exact ⟨_, snapshot, hsnapshot, input, hinput, none, rfl, rfl⟩
    | some ref =>
        obtain ⟨body, hbody⟩ := houtput ref href
        exact ⟨_, snapshot, hsnapshot, input, hinput, some body,
          except_bind_eq_ok.2 ⟨body, hbody, rfl⟩, rfl⟩

theorem Reader.getRun_ok_iff {scopeId : String} {runId : Uuid} :
    (∃ view, R.getRun d db scopeId runId = .ok view) ↔
      ∀ c, db.refs (scopeId, runId) = some c → c.Readable R (db.bases d c.sessionId) := by
  unfold getRun
  cases hrun : db.run scopeId runId with
  | none =>
      constructor
      · intro _ c hc
        obtain ⟨r, hr⟩ := Db.run_of_refs hc
        rw [hr] at hrun
        cases hrun
      · exact fun _ => ⟨none, rfl⟩
  | some r =>
      have refs : db.refs (scopeId, runId) = some r.refs := Table.view_of_getIn hrun _
      have decoded : (∃ view, (some r).mapM (fun r => R.decodeRun d db r) = .ok view) ↔
          ∃ view, R.decodeRun d db r = .ok view := by
        constructor
        · rintro ⟨view, h⟩
          obtain ⟨v, hv, -⟩ := except_bind_eq_ok.1 h
          exact ⟨v, hv⟩
        · rintro ⟨v, hv⟩
          exact ⟨some v, except_bind_eq_ok.2 ⟨v, hv, rfl⟩⟩
      rw [decoded, decodeRun_ok_iff, refs]
      constructor
      · rintro h c ⟨⟩
        exact h
      · exact fun h => h _ rfl

/-- Reading looks at the file of the reference. -/
theorem Access.readObject_congr {f g : Files} {base : String} {ref : ContentPath}
    (same : g.lookup (base, ref) = f.lookup (base, ref)) :
    (A.reader g).readObject base ref = (A.reader f).readObject base ref := by
  simp only [Reader.readObject, Access.reader, same]

theorem Access.readObjectJson_congr {f g : Files} {base : String} {ref : ContentPath}
    (same : g.lookup (base, ref) = f.lookup (base, ref)) :
    (A.reader g).readObjectJson base ref = (A.reader f).readObjectJson base ref := by
  unfold Reader.readObjectJson
  rw [Access.readObject_congr same]
  rfl

theorem Access.readMessage_congr {f g : Files} {base : String} {ref : ContentPath}
    (same : g.lookup (base, ref) = f.lookup (base, ref)) :
    (A.reader g).readMessage base ref = (A.reader f).readMessage base ref := by
  unfold Reader.readMessage
  rw [Access.readObject_congr same]
  rfl

/-- References that are filed lead to the files of runs. -/
theorem RunRefs.Readable.congr {c : RunRefs} {runId : Uuid} (filed : c.Filed runId)
    {f g : Files} (same : Files.SameBodies f g) (base : String) :
    c.Readable (A.reader g) base ↔ c.Readable (A.reader f) base := by
  have snapshot := A.readObjectJson_congr (same (base, c.configSnapshotRef)
    (by rw [filed.configSnapshot]; rfl))
  have input := A.readMessage_congr (same (base, c.inputRef) (by rw [filed.input]; rfl))
  have output : ∀ ref, c.outputRef = some ref →
      (A.reader g).readMessage base ref = (A.reader f).readMessage base ref :=
    fun ref href => A.readMessage_congr (same (base, ref) (by rw [filed.output ref href]; rfl))
  constructor
  · rintro ⟨h₁, h₂, h₃⟩
    exact ⟨by rwa [snapshot] at h₁, by rwa [input] at h₂,
      fun ref href => by rw [← output ref href]; exact h₃ ref href⟩
  · rintro ⟨h₁, h₂, h₃⟩
    exact ⟨by rwa [snapshot], by rwa [input],
      fun ref href => by rw [output ref href]; exact h₃ ref href⟩

end Reading

/-! ## Reading after a change -/

section Writing

variable {A : Access} {d : Deployment} {s t : Store} {scopeId : String} {runId : Uuid}

/-- What leaves references and object files alone leaves the run readable. -/
theorem Access.reads_congr (filed : s.db.Filed)
    (refs : t.db.refs (scopeId, runId) = s.db.refs (scopeId, runId))
    (bases : t.db.bases d = s.db.bases d) (objects : Files.SameBodies s.files t.files) :
    A.Reads d t scopeId runId ↔ A.Reads d s scopeId runId := by
  unfold Access.Reads
  rw [Reader.getRun_ok_iff, Reader.getRun_ok_iff, refs, bases]
  constructor
  · intro h c hc
    exact (RunRefs.Readable.congr (filed _ c hc) objects _).1 (h c hc)
  · intro h c hc
    exact (RunRefs.Readable.congr (filed _ c hc) objects _).2 (h c hc)

theorem Access.readObject_of_lookup {f : Files} {base : String} {ref : ContentPath}
    {b : List UInt8} (readable : A.unreadable (base, ref) = false)
    (known : f.lookup (base, ref) = some b) : (A.reader f).readObject base ref = .ok b := by
  simp only [Reader.readObject, Access.reader, readable, Bool.false_eq_true, if_false, known]

theorem Access.readObject_unreadable {f : Files} {base : String} {ref : ContentPath}
    (unreadable : A.unreadable (base, ref) = true) :
    (A.reader f).readObject base ref = .error (.unavailable (.missing ref)) := by
  simp only [Reader.readObject, Access.reader, unreadable, if_true]

/-- A message that was written is read exactly if it can be read back. -/
theorem Access.readMessage_written {f : Files} {base : String} {sessionId : Uuid} {role : Role}
    (text : String) (runSeq : Nat) :
    (∃ m, (A.reader (f.writeObject d.sha256 base (.message sessionId runId role)
        (messagePayload d sessionId runId role text runSeq)).2).readMessage base
          (.message sessionId runId role) = .ok m) ↔
      A.ReadsBack f (base, .message sessionId runId role) := by
  unfold Reader.readMessage Access.ReadsBack
  cases readable : A.unreadable (base, .message sessionId runId role) with
  | true =>
      rw [Access.readObject_unreadable readable]
      constructor
      · rintro ⟨m, h⟩
        cases h
      · rintro ⟨h, -⟩
        cases h
  | false =>
      cases known : f.lookup (base, .message sessionId runId role) with
      | some b =>
          have same : (f.writeObject d.sha256 base (.message sessionId runId role)
              (messagePayload d sessionId runId role text runSeq)).2 = f := by
            simp only [Files.writeObject, known]
          rw [same, Access.readObject_of_lookup readable known, except_ok_bind]
          constructor
          · intro h
            refine ⟨rfl, ?_⟩
            rintro _ ⟨⟩
            exact h
          · rintro ⟨-, h⟩
            exact h b rfl
      | none =>
          rw [Access.readObject_of_lookup readable (Files.writeObject_new d.sha256 _ known),
            except_ok_bind, Reader.loadObject_message]
          constructor
          · intro _
            refine ⟨rfl, ?_⟩
            rintro b ⟨⟩
          · exact fun _ => ⟨_, rfl⟩

/-- Whether a run can be read once its output was written is known before. -/
theorem Access.readsWith_iff {row : RunRow} {output : Option String} (filed : s.db.Filed)
    (run : s.db.run scopeId runId = some row)
    (refs : t.db.refs = Function.update s.db.refs (scopeId, runId)
      (some (row.refs.withOutput d runId output)))
    (bases : t.db.bases d = s.db.bases d)
    (objects : Files.SameBodies
      (s.files.withOutput d (s.db.bases d row.sessionId) row.refs runId output) t.files) :
    A.Reads d t scopeId runId ↔ A.ReadsWith d s row output := by
  obtain ⟨-, rfl, rfl⟩ := Db.run_eq_some.1 run
  have known : s.db.refs (row.scopeId, row.id) = some row.refs := Table.view_of_getIn run _
  have mine : row.refs.Filed row.id := filed _ _ known
  cases output with
  | none =>
      refine Access.reads_congr filed ?_ bases objects
      rw [refs, Function.update_self, known]
      rfl
  | some text =>
      unfold Access.Reads Access.ReadsWith
      rw [Reader.getRun_ok_iff, Reader.decodeRun_ok_iff, refs, bases, Function.update_self]
      have other : ∀ path, path ≠ ContentPath.message row.sessionId row.id .assistant →
          (s.files.withOutput d (s.db.bases d row.sessionId) row.refs row.id (some text)).lookup
            (s.db.bases d row.sessionId, path) =
          s.files.lookup (s.db.bases d row.sessionId, path) := by
        intro path ne
        exact Files.writeObject_lookup_ne d.sha256 _ fun h => ne (congrArg Prod.snd h)
      have snapshot := A.readObjectJson_congr (other row.configSnapshotRef (by
        rw [show row.configSnapshotRef = _ from mine.configSnapshot]
        simp))
      have input := A.readMessage_congr (other row.inputRef (by
        rw [show row.inputRef = _ from mine.input]
        simp))
      have written := @Access.readMessage_written A d row.id s.files
        (s.db.bases d row.sessionId) row.sessionId .assistant text row.runSeq
      constructor
      · intro h
        obtain ⟨h₁, h₂, h₃⟩ := (RunRefs.Readable.congr (mine.withOutput (some text)) objects _).1
          (h _ rfl)
        refine ⟨⟨?_, ?_, fun ref href => by cases href⟩, written.1 (h₃ _ rfl)⟩
        · obtain ⟨body, hbody⟩ := h₁
          exact ⟨body, snapshot.symm.trans hbody⟩
        · obtain ⟨body, hbody⟩ := h₂
          exact ⟨body, input.symm.trans hbody⟩
      · rintro ⟨⟨⟨b₁, h₁⟩, ⟨b₂, h₂⟩, -⟩, h₃⟩ c ⟨⟩
        refine (RunRefs.Readable.congr (mine.withOutput (some text)) objects _).2 ⟨?_, ?_, ?_⟩
        · exact ⟨b₁, snapshot.trans h₁⟩
        · exact ⟨b₂, input.trans h₂⟩
        · rintro ref ⟨⟩
          exact written.2 h₃

end Writing

end CodeForge
