import CodeForge.Persistence.Bindings
import CodeForge.Persistence.References

/-!
# What the writing operations do

`accept_once`, `transition_run` and `respond_to_run` write object files and set
the columns that refer to them.  For each there is a lemma that says what it does
to the references, to the pending responses and to the object files where it
goes through (`acceptOnce_writes`, `transitionRun_writes`, `respondToRun_writes`).
The logs of events are left out: an event never touches an object file.
-/

namespace CodeForge

open Lib StoreM

variable {d : Deployment}

/-! ## Object files -/

/-- The object files are the same. -/
def Files.SameObjects (f g : Files) : Prop := ∀ k, k.2.isLog = false → g.lookup k = f.lookup k

theorem Files.SameObjects.refl (f : Files) : Files.SameObjects f f := fun _ _ => rfl

theorem Files.SameObjects.trans {f g h : Files} (hfg : Files.SameObjects f g)
    (hgh : Files.SameObjects g h) : Files.SameObjects f h :=
  fun k hk => (hgh k hk).trans (hfg k hk)

/-- A record goes to a log. -/
theorem Files.appendRecord_sameObjects (sha256 : List UInt8 → String) (maxFileBytes : Nat)
    (f : Files) (base : String) (session : Uuid) (record : Json) :
    Files.SameObjects f (f.appendRecord sha256 maxFileBytes base session record).2 := by
  intro k hk
  have hne : k ≠ (base, .log session
      (f.nextLog maxFileBytes base session (Files.encodeRecord record).length)) := by
    rintro rfl
    cases hk
  exact AList.lookup_insert_ne hne

/-- An event touches no object file. -/
theorem insertEventLocked_sameObjects {scopeId : String} {runId : Uuid} {type : EventType}
    {data : Json} {actor : String} {occurredAt : Timestamp} {e : EventRow} {s s' : Store}
    (h : insertEventLocked d scopeId runId type data actor occurredAt s = .ok e s') :
    Files.SameObjects s.files s'.files := by
  simp only [insertEventLocked, getDb_bind_eq_ok, orThrow_bind_eq_ok, uuid4_bind_eq_ok,
    now_bind_eq_ok, appendRecord_bind_eq_ok, modifyDb_bind_eq_ok, pure_eq_ok] at h
  obtain ⟨r, -, ss, -, events, -, -, rfl⟩ := h
  exact Files.appendRecord_sameObjects d.sha256 _ _ _ _ _

/-! ## Changes of status -/

/-- The references of a run after a change of status with or without an output. -/
def RunRefs.withOutput (d : Deployment) (c : RunRefs) (runId : Uuid) : Option String → RunRefs
  | none => c
  | some text =>
      { c with
        outputRef := some (.message c.sessionId runId .assistant),
        outputDigest :=
          some (d.sha256 (messagePayload d c.sessionId runId .assistant text c.runSeq)),
        outputChars := some text.length }

/-- The files after the output was written, if there is one. -/
def Files.withOutput (d : Deployment) (f : Files) (base : String) (c : RunRefs) (runId : Uuid) :
    Option String → Files
  | none => f
  | some text =>
      (f.writeObject d.sha256 base (.message c.sessionId runId .assistant)
        (messagePayload d c.sessionId runId .assistant text c.runSeq)).2

/-- The reference of the output. -/
def RunRefs.outputFile (d : Deployment) (c : RunRefs) (runId : Uuid) (text : String) :
    ObjectRef where
  ref := .message c.sessionId runId .assistant
  bytes := (messagePayload d c.sessionId runId .assistant text c.runSeq).length
  digest := d.sha256 (messagePayload d c.sessionId runId .assistant text c.runSeq)

theorem writeOutput_eq_ok {db : Db} {r : RunRow} {output : Option String} {o : Option ObjectRef}
    {s s' : Store} (h : writeOutput d db r output s = .ok o s') :
    o = output.map (r.refs.outputFile d r.id) ∧
      s' = { s with files := s.files.withOutput d (db.bases d r.sessionId) r.refs r.id output } := by
  cases output with
  | none =>
      obtain ⟨rfl, rfl⟩ := pure_eq_ok.1 h
      exact ⟨rfl, rfl⟩
  | some text =>
      obtain ⟨ref, s₁, hw, h⟩ := bind_eq_ok.1 h
      obtain ⟨rfl, rfl⟩ := pure_eq_ok.1 h
      cases hw
      exact ⟨rfl, rfl⟩

/-- The references of a run whose state is set. -/
theorem RunRow.refs_moveTo (r : RunRow) (after : RunState) (output : Option String)
    (error : Option Json) (now : Timestamp) (actor : String) :
    (r.moveTo after (output.map (r.refs.outputFile d r.id)) (output.map String.length) error now
      actor).refs = r.refs.withOutput d r.id output := by
  cases output with
  | none => rfl
  | some text => rfl

/-- What a change of status does to references and object files. -/
theorem transitionRun_writes {scopeId : String} {runId : Uuid} {expectedVersion : Nat}
    {target : RunStatus} {args : TransitionArgs} {actorRef : Option String} {s t : Store}
    {o : Option RunRow}
    (h : transitionRun d scopeId runId expectedVersion target args actorRef s = .ok o t) :
    ∃ row, s.db.run scopeId runId = some row ∧
      t.db.refs = Function.update s.db.refs (scopeId, runId)
        (some (row.refs.withOutput d runId args.output)) ∧
      t.db.pendings = s.db.pendings ∧ t.db.bases d = s.db.bases d ∧
      Files.SameObjects
        (s.files.withOutput d (s.db.bases d row.sessionId) row.refs runId args.output) t.files := by
  simp only [transitionRun, transaction_eq_ok, transitionRunBody, getDb_bind_eq_ok,
    orThrow_bind_eq_ok, fromExcept_bind_eq_ok, now_bind_eq_ok] at h
  obtain ⟨row, run, after, change, h⟩ := h
  obtain ⟨out, s₁, hout, h⟩ := bind_eq_ok.1 h
  rw [modifyDb_bind_eq_ok] at h
  obtain ⟨e, s₂, hev, hend⟩ := bind_eq_ok.1 h
  obtain ⟨hmem, hscope, rfl⟩ := Db.run_eq_some.1 run
  obtain ⟨rfl, rfl⟩ := writeOutput_eq_ok hout
  have version : row.stateVersion = expectedVersion := (transition_eq_ok.1 change).1
  have bodies := (insertEvent_keeps (d := d) Db.Apart.bodies.toAside _ _ _ _ _ _).of_ok hev
  have bases := (insertEvent_keeps (d := d) (Db.Apart.bases d).toAside _ _ _ _ _ _).of_ok hev
  have objects := insertEventLocked_sameObjects hev
  have moved : s₂.db.refs = Function.update s.db.refs (scopeId, row.id)
      (some (row.refs.withOutput d row.id args.output)) := by
    rw [show s₂.db.refs = _ from congrArg Prod.fst bodies]
    simp only [Db.bodies, Db.refs, Db.moveRun]
    rw [Table.view_updateIn_of run, if_pos version, RunRow.refs_moveTo]
  have kept : s₂.db.pendings = s.db.pendings := congrArg Prod.snd bodies
  refine ⟨row, run, ?_⟩
  split at hend
  · simp only [modifyDb_bind_eq_ok, getDb_bind_eq_ok, pure_eq_ok] at hend
    obtain ⟨-, rfl⟩ := hend
    refine ⟨?_, kept, (Db.bases_release _ _ _ _).trans bases, objects⟩
    rw [← moved]
    exact congrArg Prod.fst (Db.bodies_release s₂.db _ _ _)
  · simp only [getDb_bind_eq_ok, pure_eq_ok] at hend
    obtain ⟨-, rfl⟩ := hend
    exact ⟨moved, kept, bases, objects⟩

/-- A change of status that fails leaves the tables as they were. -/
theorem transitionRun_error_db {scopeId : String} {runId : Uuid} {version : Nat}
    {target : RunStatus} {args : TransitionArgs} {actorRef : Option String} {s t : Store}
    {e : StoreError} (h : transitionRun d scopeId runId version target args actorRef s =
      .error e t) : t.db = s.db := transaction_error_db h

/-! ## Claims -/

/-- A claim leaves references and object files alone, and adds an event. -/
theorem startAttempt_writes {c : Candidate} {a : AttemptRow} {actor : String} {u : Unit}
    {s t : Store} (h : startAttempt d c a actor s = .ok u t) :
    Files.SameObjects s.files t.files ∧ ∃ e, t.db.events.rows = s.db.events.rows ++ [e] := by
  obtain ⟨attempts, e, r, ss, -, record, -, -⟩ := startAttempt_changes h
  refine ⟨?_, e, record.statuses.2⟩
  simp only [startAttempt, getDb_bind_eq_ok, orThrow_bind_eq_ok, modifyDb_bind_eq_ok,
    ensure_bind_eq_ok] at h
  obtain ⟨_, -, -, -, h⟩ := h
  obtain ⟨e', s₁, hev, hend⟩ := bind_eq_ok.1 h
  obtain ⟨-, rfl⟩ := pure_eq_ok.1 hend
  have objects := insertEventLocked_sameObjects hev
  exact objects

theorem claimNextRun_sameObjects {scopeId : Option String} {workerId : String}
    {nowIso leaseUntil : Timestamp} {s t : Store} {o : Option ClaimedRun}
    (h : claimNextRun d scopeId workerId nowIso leaseUntil s = .ok o t) :
    Files.SameObjects s.files t.files := by
  cases o with
  | none =>
      obtain ⟨-, rfl⟩ := claimNextRun_none h
      exact .refl _
  | some claimed =>
      obtain ⟨c, a, binding, u, -, -, -, start⟩ := claimNextRun_some h
      have objects := (startAttempt_writes start).1
      exact objects

/-! ## Sessions -/

/-- The base directory of a session is the user directory of its workspace. -/
theorem Db.bases_of_workspace {db : Db} {id : Uuid} {ss : SessionRow} {path : String}
    (session : db.sessions.get? id = some ss)
    (workspace : db.workspaces.view WorkspaceRow.userPath (ss.scopeId, ss.workspaceId) =
      some path) : db.bases d id = if path ≠ "" then path else d.legacyRoot := by
  obtain ⟨w, found, rfl⟩ := Option.map_eq_some_iff.1 workspace
  have read : db.workspace ss.scopeId ss.workspaceId = some w := found
  simp only [Db.bases, Db.baseForSession, session, Option.bind_some, read]

/-- The workspaces there are keep their user directories where the one of the project does. -/
theorem workspaceFor_writes {scopeId : String} {binding : Option UserBinding} {now : Timestamp}
    {actor : String} {s t : Store} {id : Uuid}
    (h : workspaceFor d scopeId binding now actor s = .ok id t)
    (same : ∀ b w, binding = some b → s.db.projectWorkspace scopeId b.projectRef = some w →
      w.userPath = b.userPath) :
    t.db.sessions = s.db.sessions ∧
      ∀ k path, s.db.workspaces.view WorkspaceRow.userPath k = some path →
        t.db.workspaces.view WorkspaceRow.userPath k = some path := by
  obtain ⟨workspaces, hdb, -⟩ := workspaceFor_row h
  have read : ∀ (db : Db) k, db.workspaces.view WorkspaceRow.userPath k =
      (db.bindings k).map UserBinding.userPath := by
    intro db k
    simp only [Db.bindings, Table.view, Option.map_map]
    rfl
  refine ⟨by rw [hdb], fun k path hk => ?_⟩
  rw [read] at hk ⊢
  obtain ⟨columns, known, rfl⟩ := Option.map_eq_some_iff.1 hk
  rcases workspaceFor_bindings h known with kept | ⟨b, w, hb, found, -, -, -, rfl, now_⟩
  · rw [kept]
    rfl
  · have row := (Db.projectWorkspace_eq_some found).1
    have columns_ : s.db.bindings (scopeId, w.id) = some w.bindingColumns :=
      Table.view_of_getIn row _
    cases known.symm.trans columns_
    rw [now_]
    exact congrArg some (same b w hb found).symm

/-- A new session leaves the directories of the others where they are. -/
theorem createSession_bases {scopeId key title : String} {externalRef : Option String}
    {context : ExecutionContext} {s t : Store} {view : Option SessionView}
    (h : createSession d scopeId key title externalRef context s = .ok view t)
    (same : ∀ b w, context.userBinding = some b →
      s.db.projectWorkspace scopeId b.projectRef = some w → w.userPath = b.userPath)
    {id : Uuid} {ss : SessionRow} {path : String} (session : s.db.sessions.get? id = some ss)
    (workspace : s.db.workspaces.view WorkspaceRow.userPath (ss.scopeId, ss.workspaceId) =
      some path) : t.db.bases d id = s.db.bases d id := by
  rcases createSession_eq_ok h with ⟨-, unchanged⟩ | ⟨-, now, wid, s₁, s₂, row, sessions', requests,
    placed, unchanged, insert, hdb⟩
  · rw [unchanged]
  · obtain ⟨sessions, kept⟩ := workspaceFor_writes placed (by rw [unchanged]; exact same)
    have old : s₂.db.sessions.get? id = some ss := by rw [sessions, unchanged, session]
    have still : t.db.sessions.get? id = some ss := by
      rw [hdb, Table.get?_insert? insert, if_neg, old]
      rintro rfl
      rw [Table.get?_of_insert? insert] at old
      cases old
    rw [Db.bases_of_workspace session workspace]
    rw [← unchanged] at workspace
    refine Db.bases_of_workspace still ?_
    rw [hdb]
    exact kept _ _ workspace

/-- A session that is not created leaves the tables as they were. -/
theorem createSession_error_db {scopeId key title : String} {externalRef : Option String}
    {context : ExecutionContext} {s t : Store} {e : StoreError}
    (h : createSession d scopeId key title externalRef context s = .error e t) :
    t.db = s.db := by
  rcases bind_eq_error.1 h with failed | ⟨time, s₁, ticked, h⟩
  · cases failed
  cases ticked
  rcases bind_eq_error.1 h with failed | ⟨id, s₂, -, ended⟩
  · have rolledBack := transaction_error_db failed
    exact rolledBack
  · cases ended

/-! ## Acceptances -/

/-- The references of a new run. -/
def RunRequest.refs (d : Deployment) (request : RunRequest) (runId : Uuid) (runSeq : Nat)
    (snapshot : RunSnapshot) : RunRefs where
  sessionId := request.sessionId
  runSeq := runSeq
  inputRef := .message request.sessionId runId .user
  inputDigest := d.sha256 (messagePayload d request.sessionId runId .user request.input runSeq)
  inputChars := request.input.length
  configSnapshotRef := .snapshot request.sessionId runId
  configSnapshotDigest := d.sha256 (snapshotPayload snapshot)
  configSnapshotBytes := (snapshotPayload snapshot).length
  outputRef := none
  outputDigest := none
  outputChars := none

/-- The files of a new run, written. -/
def Files.withRun (d : Deployment) (f : Files) (base : String) (request : RunRequest)
    (runId : Uuid) (runSeq : Nat) (snapshot : RunSnapshot) : Files :=
  ((f.writeObject d.sha256 base (.message request.sessionId runId .user)
      (messagePayload d request.sessionId runId .user request.input runSeq)).2.writeObject d.sha256
    base (.snapshot request.sessionId runId) (snapshotPayload snapshot)).2

/-- The base directory of a session with its workspace. -/
theorem Db.bases_of_getSession {db : Db} {scopeId : String} {sessionId : Uuid} {view : SessionView}
    (h : db.getSession scopeId sessionId = some view) :
    view.workspace.contentBase d = db.bases d sessionId := by
  obtain ⟨hsession, hworkspace⟩ := Db.getSession_eq_some.1 h
  have found : db.sessions.get? sessionId = some view.session := Table.get?_of_getIn hsession
  simp only [Db.bases, Db.baseForSession, found, Option.bind_some, hworkspace,
    WorkspaceRow.contentBase]

/-- An acceptance that fails leaves the tables as they were. -/
theorem acceptOnce_error_db {request : RunRequest} {idempotencyKey fingerprint : String}
    {snapshot : RunSnapshot} {rejectIfActive : Bool} {s t : Store} {e : StoreError}
    (h : acceptOnce d request idempotencyKey fingerprint snapshot rejectIfActive s =
      .error e t) : t.db = s.db := by
  rcases bind_eq_error.1 h with failed | ⟨time, s₁, ticked, failed⟩
  · cases failed
  · cases ticked
    have rolledBack := transaction_error_db failed
    exact rolledBack

/-- What an acceptance does to references and object files: nothing where the request was
accepted before, else it adds a run. -/
theorem acceptOnce_writes {request : RunRequest} {idempotencyKey fingerprint : String}
    {snapshot : RunSnapshot} {rejectIfActive : Bool} {s t : Store} {run : AcceptedRun}
    (h : acceptOnce d request idempotencyKey fingerprint snapshot rejectIfActive s = .ok run t) :
    t.db.pendings = s.db.pendings ∧ t.db.bases d = s.db.bases d ∧
      ((run.reused = true ∧ t.db.refs = s.db.refs ∧ t.files = s.files) ∨
        (run.reused = false ∧ run.id = ⟨s.drawn⟩ ∧
          (∀ scopeId, s.db.refs (scopeId, ⟨s.drawn⟩) = none) ∧
          ∃ runSeq, t.db.refs = Function.update s.db.refs (request.context.scopeId, ⟨s.drawn⟩)
              (some (request.refs d ⟨s.drawn⟩ runSeq snapshot)) ∧
            Files.SameObjects (s.files.withRun d (s.db.bases d request.sessionId) request
              ⟨s.drawn⟩ runSeq snapshot) t.files)) := by
  simp only [acceptOnce, now_bind_eq_ok, transaction_eq_ok, getDb_bind_eq_ok] at h
  cases hreq : s.db.requestedRun request.context.scopeId request.sessionId idempotencyKey with
  | some existing =>
      simp only [hreq, ensure_bind_eq_ok, pure_eq_ok] at h
      obtain ⟨-, rfl, rfl⟩ := h
      exact ⟨rfl, rfl, .inl ⟨rfl, rfl, rfl⟩⟩
  | none =>
      simp only [hreq, orThrow_bind_eq_ok, fromExcept_bind_eq_ok, ensure_bind_eq_ok,
        uuid4_bind_eq_ok, writeMessage, writeSnapshot, writeObject_bind_eq_ok] at h
      obtain ⟨view, hview, -, -, -, h⟩ := h
      obtain ⟨_, s₁, hrun, h⟩ := bind_eq_ok.1 h
      obtain ⟨e, s₂, hev, h⟩ := bind_eq_ok.1 h
      simp only [modifyDb_bind_eq_ok, pure_eq_ok] at h
      obtain ⟨rfl, rfl⟩ := h
      obtain ⟨runs, hins, rfl⟩ := insertRun_eq_ok.1 hrun
      have bodies := (insertEvent_keeps (d := d) Db.Apart.bodies.toAside _ _ _ _ _ _).of_ok hev
      have kept := (insertEvent_keeps (d := d) (Db.Apart.bases d).toAside _ _ _ _ _ _).of_ok hev
      have bases : s₂.db.bases d = s.db.bases d := kept
      have objects := insertEventLocked_sameObjects hev
      refine ⟨congrArg Prod.snd bodies, ?_, .inr ⟨rfl, rfl, ?_, view.session.nextRunSeq, ?_, ?_⟩⟩
      · rw [← bases]
        refine Db.bases_congr (fun id => ?_) rfl
        simp only [Db.setNextRunSeq, Table.updateIn]
        exact get?_updateWhere_home _ _ _ (by intro s; rfl) id
      · intro scopeId
        exact Table.view_of_insert? hins _ _
      · change s₂.db.refs = _
        rw [show s₂.db.refs = _ from congrArg Prod.fst bodies]
        simp only [Db.bodies, Db.refs]
        rw [Table.view_insert? hins]
        rfl
      · rw [Db.bases_of_getSession hview] at objects
        exact objects

/-! ## Answers -/

/-- The payload of a response file. -/
def responsePayload (text : String) : List UInt8 := utf8 (Json.spaced (.obj [("text", .str text)]))

/-- The reference of an answer. -/
def responseFile (d : Deployment) (sessionId : Uuid) (pendingId text : String) : ObjectRef where
  ref := .response sessionId pendingId
  bytes := (responsePayload text).length
  digest := d.sha256 (responsePayload text)

/-- The digest an answer is told apart by. -/
def answerDigest (d : Deployment) (text : String) : String :=
  fingerprintOf d (.obj [("text", .str text)])

/-- The files after an answer was written. -/
def Files.withResponse (d : Deployment) (f : Files) (base : String) (sessionId : Uuid)
    (pendingId text : String) : Files :=
  (f.writeObject d.sha256 base (.response sessionId pendingId) (responsePayload text)).2

/-- Putting a run back is a change of status with its event, which leaves references and object
files alone. -/
theorem transitionRunLocked_writes {scopeId : String} {runId : Uuid} {target : RunStatus}
    {expectedVersion : Nat} {actor : String} {u : Unit} {s t : Store}
    (h : transitionRunLocked d scopeId runId target expectedVersion {} actor s = .ok u t) :
    t.db.bodies = s.db.bodies ∧ t.db.bases d = s.db.bases d ∧
      Files.SameObjects s.files t.files ∧ (∃ e, t.db.events.rows = s.db.events.rows ++ [e]) ∧
        ∃ row after, s.db.run scopeId runId = some row ∧
          transition row.state target expectedVersion none none = .ok after := by
  simp only [transitionRunLocked, getDb_bind_eq_ok, orThrow_bind_eq_ok, fromExcept_bind_eq_ok]
    at h
  obtain ⟨row, run, after, change, h⟩ := h
  obtain ⟨out, s₁, hout, h⟩ := bind_eq_ok.1 h
  obtain ⟨rfl, rfl⟩ := writeOutput_eq_ok hout
  simp only [now_bind_eq_ok, modifyDb_bind_eq_ok] at h
  obtain ⟨e, s₂, hev, hend⟩ := bind_eq_ok.1 h
  obtain ⟨-, rfl⟩ := pure_eq_ok.1 hend
  have bodies := (insertEvent_keeps (d := d) Db.Apart.bodies.toAside _ _ _ _ _ _).of_ok hev
  have bases := (insertEvent_keeps (d := d) (Db.Apart.bases d).toAside _ _ _ _ _ _).of_ok hev
  have objects := insertEventLocked_sameObjects hev
  obtain ⟨⟨r, ss, record⟩, -, -⟩ := insertEventLocked_records hev
  exact ⟨bodies.trans (Db.bodies_moveRun _ _ _ _ _ _ _ _), bases, objects,
    ⟨e, record.statuses.2⟩, row, after, run, change⟩

/-- An answer that fails leaves the tables as they were. -/
theorem respondToRun_error_db {scopeId : String} {runId : Uuid} {pendingId responseKey : String}
    {expectedStateVersion : Nat} {text actor : String} {s t : Store} {e : StoreError}
    (h : respondToRun d scopeId runId pendingId responseKey expectedStateVersion text actor s =
      .error e t) : t.db = s.db := by
  rcases bind_eq_error.1 h with failed | ⟨u, s₁, -, ended⟩
  · exact transaction_error_db failed
  · cases ended

/-- An answer that comes with another version than the one of the run is written, and refused. -/
theorem respondToRun_stale {scopeId : String} {runId : Uuid} {pendingId responseKey : String}
    {expectedStateVersion : Nat} {s : Store} {p : PendingRow} {r : RunRow}
    (found : s.db.pendings.getIn scopeId pendingId = some p) (ofRun : p.runId = runId)
    (run : s.db.run scopeId runId = some r) (unresolved : p.resolved = false)
    (free : s.db.responseKeyTaken p responseKey = false)
    (stale : r.stateVersion ≠ expectedStateVersion) (text actor : String) :
    respondToRun d scopeId runId pendingId responseKey expectedStateVersion text actor s =
      .error (.domain .stateConflict "Expected state version mismatch")
        { s with
          files := s.files.withResponse d (s.db.bases d r.sessionId) r.sessionId pendingId text
          ticks := s.ticks + 2 } := by
  obtain ⟨-, hpscope, hpid⟩ := Table.getIn_eq_some.1 found
  change p.id = pendingId at hpid
  subst hpid
  have chosen : (s.db.pendings.getIn scopeId p.id).filter (fun p => p.runId = runId) =
      some p := by
    rw [found]
    simp [ofRun]
  have free' : (!s.db.responseKeyTaken p responseKey) = true := by
    rw [free]
    rfl
  have refused : ∃ db, resolveResponse d p r responseKey expectedStateVersion text actor s =
      .error (.domain .stateConflict "Expected state version mismatch")
        { db, drawn := s.drawn, ticks := s.ticks + 2,
          files := s.files.withResponse d (s.db.bases d r.sessionId) r.sessionId p.id text } := by
    refine ⟨s.db.resolvePending p responseKey (answerDigest d text)
      (responseFile d r.sessionId p.id text) (d.clock s.ticks) (d.clock (s.ticks + 1)) actor,
      bind_eq_error.2 (.inr ⟨s.db, s, rfl, ?_⟩)⟩
    refine bind_eq_error.2 (.inr ⟨_, _, rfl, bind_eq_error.2 (.inr ⟨_, _, rfl,
      bind_eq_error.2 (.inr ⟨_, _, rfl, ?_⟩)⟩)⟩)
    refine bind_eq_error.2 (.inr ⟨⟨⟩, _, ensure_eq_ok.2 ⟨free', rfl⟩, ?_⟩)
    refine bind_eq_error.2 (.inr ⟨_, _, rfl, bind_eq_error.2 (.inl ?_)⟩)
    rw [decide_eq_false stale]
    rfl
  obtain ⟨db, refused⟩ := refused
  refine bind_eq_error.2 (.inl ?_)
  have body : (do
      let db ← getDb
      let p ← orThrow ((db.pendings.getIn scopeId p.id).filter fun p => p.runId = runId)
        (.domain .runNotFound "Pending response not found")
      let run ← orThrow (db.run scopeId runId) (.domain .runNotFound "Pending response not found")
      if p.resolved then
        ensure (p.responseKey = some responseKey &&
            p.responseDigest = some (fingerprintOf d (.obj [("text", .str text)])))
          (.domain .stateConflict "Response is already resolved")
      else resolveResponse d p run responseKey expectedStateVersion text actor : StoreM Unit) s =
        .error (.domain .stateConflict "Expected state version mismatch")
        { db, drawn := s.drawn, ticks := s.ticks + 2,
          files := s.files.withResponse d (s.db.bases d r.sessionId) r.sessionId p.id text } := by
    refine bind_eq_error.2 (.inr ⟨s.db, s, rfl, ?_⟩)
    rw [chosen]
    refine bind_eq_error.2 (.inr ⟨p, s, rfl, ?_⟩)
    rw [run]
    refine bind_eq_error.2 (.inr ⟨r, s, rfl, ?_⟩)
    rw [unresolved]
    exact refused
  unfold transaction
  rw [body]

/-- What an answer does to references and object files: nothing where it was given before, else it
resolves the pending response. -/
theorem respondToRun_writes {scopeId : String} {runId : Uuid} {pendingId responseKey : String}
    {expectedStateVersion : Nat} {text actor : String} {s t : Store} {o : Option RunRow}
    (h : respondToRun d scopeId runId pendingId responseKey expectedStateVersion text actor s =
      .ok o t) :
    t.db.refs = s.db.refs ∧ t.db.bases d = s.db.bases d ∧
      ∃ p r, s.db.pendings.getIn scopeId pendingId = some p ∧ p.runId = runId ∧
        s.db.run scopeId runId = some r ∧
        ((p.resolved = true ∧ t = s) ∨
          (p.resolved = false ∧ s.db.responseKeyTaken p responseKey = false ∧
            (∃ after, transition r.state .queued expectedStateVersion none none = .ok after) ∧
            (∃ e, t.db.events.rows = s.db.events.rows ++ [e]) ∧
            (∃ resolvedAt updated, t.db.pendings = s.db.pendings.updateIn scopeId pendingId
              (fun q => q.resolve responseKey (answerDigest d text)
                (responseFile d r.sessionId pendingId text) resolvedAt updated actor)) ∧
            Files.SameObjects
              (s.files.withResponse d (s.db.bases d r.sessionId) r.sessionId pendingId text)
              t.files)) := by
  obtain ⟨u, s₁, body, hend⟩ := bind_eq_ok.1 h
  clear h
  simp only [getDb_bind_eq_ok, pure_eq_ok] at hend
  obtain ⟨-, rfl⟩ := hend
  simp only [transaction_eq_ok, getDb_bind_eq_ok, orThrow_bind_eq_ok] at body
  obtain ⟨p, found, r, hr, h⟩ := body
  obtain ⟨hp, ofRun⟩ := Option.filter_eq_some_iff.1 found
  have hrun : p.runId = runId := of_decide_eq_true ofRun
  obtain ⟨-, hpscope, hpid⟩ := Table.getIn_eq_some.1 hp
  change p.scopeId = scopeId at hpscope
  change p.id = pendingId at hpid
  subst hpscope hpid
  split at h
  next resolved =>
    obtain ⟨-, rfl⟩ := ensure_eq_ok.1 h
    exact ⟨rfl, rfl, p, r, hp, hrun, hr, .inl ⟨resolved, rfl⟩⟩
  next open_ =>
    simp only [resolveResponse, getDb_bind_eq_ok, writeObject_bind_eq_ok, now_bind_eq_ok,
      ensure_bind_eq_ok, modifyDb_bind_eq_ok, Bool.not_eq_true'] at h
    obtain ⟨free, -, h⟩ := h
    obtain ⟨bodies, bases, objects, event, row, after, run, change⟩ := transitionRunLocked_writes h
    obtain ⟨-, hscope, hid⟩ := Db.run_eq_some.1 hr
    rw [hscope, hid] at run
    cases hr.symm.trans run
    refine ⟨congrArg Prod.fst bodies, bases, p, r, hp, hrun, hr,
      .inr ⟨?_, free, ⟨after, change⟩, event, ?_, objects⟩⟩
    · exact Bool.eq_false_of_not_eq_true open_
    · exact ⟨_, _, congrArg Prod.snd bodies⟩

/-- A request for the user's input is one more row. -/
theorem openPending_eq_ok {p : PendingRow} {u : Unit} {s t : Store} (h : openPending p s = .ok u t) :
    ∃ pendings, s.db.pendings.insert? p = some pendings ∧
      t = { s with db := { s.db with pendings } } := by
  simp only [openPending, transaction_eq_ok, getDb_bind_eq_ok, orThrow_bind_eq_ok,
    modifyDb_eq_ok] at h
  obtain ⟨-, -, pendings, insert, rfl⟩ := h
  exact ⟨pendings, insert, rfl⟩

/-! ## The files of a run -/

/-- References name the files of their run. -/
structure RunRefs.Filed (c : RunRefs) (runId : Uuid) : Prop where
  input : c.inputRef = .message c.sessionId runId .user
  configSnapshot : c.configSnapshotRef = .snapshot c.sessionId runId
  output : ∀ path, c.outputRef = some path → path = .message c.sessionId runId .assistant

/-- All references do. -/
def Db.Filed (db : Db) : Prop := ∀ k c, db.refs k = some c → c.Filed k.2

theorem RunRefs.Filed.withOutput {c : RunRefs} {runId : Uuid} (h : c.Filed runId)
    (output : Option String) : (c.withOutput d runId output).Filed runId := by
  cases output with
  | none => exact h
  | some text => exact ⟨h.input, h.configSnapshot, fun path hpath => (Option.some.inj hpath).symm⟩

/-- Who leaves the references alone leaves them filed. -/
theorem Db.Filed.of_refs {db db' : Db} (h : db.Filed) (refs : db'.refs = db.refs) :
    db'.Filed := by
  intro k c hk
  rw [refs] at hk
  exact h k c hk

/-- Setting the references of one run keeps all filed. -/
theorem Db.Filed.update {db db' : Db} (h : db.Filed) {k : Key} {c : RunRefs}
    (hc : c.Filed k.2) (refs : db'.refs = Function.update db.refs k (some c)) : db'.Filed := by
  intro k' c' hk
  rw [refs] at hk
  by_cases hkey : k' = k
  · subst hkey
    rw [Function.update_self] at hk
    cases hk
    exact hc
  · rw [Function.update_of_ne hkey] at hk
    exact h k' c' hk

theorem transitionRun_filed {scopeId : String} {runId : Uuid} {version : Nat}
    {target : RunStatus} {args : TransitionArgs} {actorRef : Option String} {s : Store}
    (h : s.db.Filed) :
    (finalState (transitionRun d scopeId runId version target args actorRef) s).db.Filed := by
  cases hrun : transitionRun d scopeId runId version target args actorRef s with
  | error e t =>
      rw [finalState_of_error hrun]
      exact h.of_refs (congrArg Db.refs (transaction_error_db hrun))
  | ok o t =>
      rw [finalState_of_ok hrun]
      obtain ⟨row, found, refs, -⟩ := transitionRun_writes hrun
      exact h.update ((h _ _ (Table.view_of_getIn found _)).withOutput _) refs

theorem acceptOnce_filed {request : RunRequest} {idempotencyKey fingerprint : String}
    {snapshot : RunSnapshot} {rejectIfActive : Bool} {s : Store} (h : s.db.Filed) :
    (finalState (acceptOnce d request idempotencyKey fingerprint snapshot rejectIfActive)
      s).db.Filed := by
  cases hrun : acceptOnce d request idempotencyKey fingerprint snapshot rejectIfActive s with
  | error e t =>
      rw [finalState_of_error hrun]
      exact h.of_refs (congrArg Db.refs (acceptOnce_error_db hrun))
  | ok run t =>
      rw [finalState_of_ok hrun]
      obtain ⟨-, -, ⟨-, refs, -⟩ | ⟨-, -, -, runSeq, refs, -⟩⟩ := acceptOnce_writes hrun
      · exact h.of_refs refs
      · exact h.update ⟨rfl, rfl, fun _ hpath => by cases hpath⟩ refs

theorem respondToRun_filed {scopeId : String} {runId : Uuid} {pendingId responseKey : String}
    {version : Nat} {text actor : String} {s : Store} (h : s.db.Filed) :
    (finalState (respondToRun d scopeId runId pendingId responseKey version text actor)
      s).db.Filed := by
  cases hrun : respondToRun d scopeId runId pendingId responseKey version text actor s with
  | error e t =>
      rw [finalState_of_error hrun]
      exact h.of_refs (congrArg Db.refs (respondToRun_error_db hrun))
  | ok o t =>
      rw [finalState_of_ok hrun]
      exact h.of_refs (respondToRun_writes hrun).1

/-- A call either leaves the references alone, or sets those of one run. -/
theorem Op.exec_filed (op : Op) {s : Store} (h : s.db.Filed) : (op.exec d s).db.Filed := by
  have keeps : ∀ {α : Type} {x : StoreM α}, Keeps Db.bodies x → (finalState x s).db.Filed :=
    fun hx => h.of_refs (congrArg Prod.fst (hx s))
  cases op with
  | createSession => exact keeps (createSession_keeps _ _ _ _ _)
  | acceptOnce => exact acceptOnce_filed h
  | claimNextRun => exact keeps (claimNextRun_keeps Db.Apart.bodies.toAside _ _ _ _)
  | transitionRun => exact transitionRun_filed h
  | cancelRun => exact keeps (cancelRun_keeps Db.Apart.bodies.toAside Db.bodies_moveRun_plain _ _ _)
  | respondToRun => exact respondToRun_filed h
  | recordWorkspaceRevision =>
      exact keeps (recordWorkspaceRevision_keeps (fun _ _ _ _ _ _ _ => rfl) _ _ _ _ _ _)
  | appendEvent => exact keeps (appendEvent_keeps Db.Apart.bodies.toAside _ _ _ _ _)
  | prepareTool => exact keeps (prepareTool_keeps .bodies _ _)
  | startTool => exact keeps (startTool_keeps .bodies _ _ _)
  | appendToolOutput => exact keeps (appendToolOutput_keeps .bodies _ _ _ _ _ _)
  | finishTool => exact keeps (finishTool_keeps .bodies _ _ _ _ _ _ _)
  | openPending p => exact h.of_refs (openPending_keeps_refs p s)

/-- In every reachable store references name the files of their run. -/
theorem Reachable.filed {π : Discipline} {s : Store} (h : Reachable d π s) : s.db.Filed := by
  induction h with
  | refl => exact fun k c hk => by cases hk
  | tail _ st ih =>
      cases st with
      | call op obeys => exact op.exec_filed ih
      | fault grown rollback =>
          rw [rollback]
          exact ih

end CodeForge
