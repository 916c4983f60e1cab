import CodeForge.Persistence.Access
import CodeForge.Persistence.Leases

/-!
# Scopes are kept apart

Every operation is called for one scope.  `claim_next_run` may be called for all,
and then acts for the scope of the run it takes.  No operation touches a row of
another scope, be it through a key, a constraint or a release
(`Op.exec_only`), so the rows of a scope are the work of its own calls
(`Others.only`).

What a scope reads depends on its rows and on files that it refers to.  Other
scopes write files too, and some of them next to its own, but whatever it could
read it reads again (`Others.isolated`).
-/

namespace CodeForge

open Lib StoreM

variable {d : Deployment} {A : String} {s t : Store}

/-! ## The rows of a scope -/

/-- The rows of a scope. -/
def Db.only (db : Db) (scopeId : String) : Db where
  workspaces := db.workspaces.only scopeId
  revisions := db.revisions.only scopeId
  sessions := db.sessions.only scopeId
  sessionRequests := db.sessionRequests.only scopeId
  runs := db.runs.only scopeId
  attempts := db.attempts.only scopeId
  tools := db.tools.only scopeId
  pendings := db.pendings.only scopeId
  events := db.events.only scopeId

/-- An event of another scope is recorded. -/
theorem Records.only {f : Files} {db db' : Db} {r : RunRow} {ss : SessionRow} {e : EventRow}
    (h : Records d f db r ss e db') (other : e.scopeId ≠ A) : db'.only A = db.only A := by
  obtain ⟨events, now, actor, insert, rfl⟩ := h.result
  simp only [Db.only, Db.setEventSeqs]
  rw [Table.only_insert? insert other, Table.only_updateIn other, Table.only_updateIn other]

/-- A run of another scope changes its status. -/
theorem Db.only_moveRun {db : Db} {scopeId : String} (other : scopeId ≠ A) (runId : Uuid)
    (version : Nat) (after : RunState) (outputRef : Option ObjectRef) (outputChars : Option Nat)
    (error : Option Json) (now : Timestamp) (actor : String) :
    (db.moveRun scopeId runId version after outputRef outputChars error now actor).only A =
      db.only A := by
  simp only [only, moveRun]
  rw [Table.only_updateIn other]

/-- A run of another scope is over. -/
theorem Db.only_release {db : Db} {r : RunRow} (other : r.scopeId ≠ A) (now : Timestamp)
    (actor : String) : (db.release r now actor).only A = db.only A := by
  simp only [only, release]
  rw [Table.only_updateIn other, Table.only_updateIn other, Table.only_updateWhere,
    Table.only_updateWhere]
  · intro ss chosen
    rw [Bool.and_eq_true, decide_eq_true_eq] at chosen
    exact fun scope => other (chosen.1.symm.trans scope)
  · intro a chosen
    rw [Bool.and_eq_true, decide_eq_true_eq] at chosen
    exact fun scope => other (chosen.1.symm.trans scope)

/-- An attempt of another scope occupies its session, workspace and run. -/
theorem Db.only_startAttempt {db : Db} {attempts : Table AttemptRow} {c : Candidate}
    {a : AttemptRow} (insert : db.attempts.insert? a = some attempts) (other : a.scopeId ≠ A)
    (actor : String) : (db.startAttempt attempts c a actor).only A = db.only A := by
  simp only [only, startAttempt, occupySession, occupyWorkspace, startRun]
  rw [Table.only_insert? insert other, Table.only_updateIn other, Table.only_updateIn other,
    Table.only_updateIn other]

/-- A session of another scope gets its next place. -/
theorem Db.only_setNextRunSeq {db : Db} {scopeId : String} (other : scopeId ≠ A)
    (sessionId : Uuid) (n : Nat) (now : Timestamp) (actor : String) :
    (db.setNextRunSeq scopeId sessionId n now actor).only A = db.only A := by
  simp only [only, setNextRunSeq]
  rw [Table.only_updateIn other]

/-! ## Programs -/

/-- Where the program goes through, it leaves the rows of a scope alone. -/
def Spares (A : String) {α : Type} (x : StoreM α) : Prop :=
  ∀ {s t : Store} {a : α}, x s = .ok a t → t.db.only A = s.db.only A

/-- A transaction that fails is rolled back. -/
theorem Spares.transaction {α : Type} {x : StoreM α} (h : Spares A x) :
    Keeps (Db.only · A) (transaction x) := by
  intro s
  cases ended : StoreM.transaction x s with
  | ok a t =>
      rw [finalState_of_ok ended]
      exact h (transaction_eq_ok.1 ended)
  | error e t =>
      rw [finalState_of_error ended]
      exact congrArg (Db.only · A) (transaction_error_db ended)

theorem insertEventLocked_only {scopeId : String} (other : scopeId ≠ A) (runId : Uuid)
    (type : EventType) (data : Json) (actor : String) (occurredAt : Timestamp) :
    Spares A (insertEventLocked d scopeId runId type data actor occurredAt) := by
  intro s t e h
  obtain ⟨⟨r, ss, record⟩, ⟨scope, -⟩, -⟩ := insertEventLocked_records h
  exact record.only (by rw [scope]; exact other)

theorem transitionRunBody_only {scopeId : String} (other : scopeId ≠ A) (runId : Uuid)
    (version : Nat) (target : RunStatus) (args : TransitionArgs) (actor : String) :
    Spares A (transitionRunBody d scopeId runId version target args actor) := by
  intro s t o h
  simp only [transitionRunBody, getDb_bind_eq_ok, orThrow_bind_eq_ok, fromExcept_bind_eq_ok,
    now_bind_eq_ok] at h
  obtain ⟨row, run, after, -, h⟩ := h
  obtain ⟨out, s₁, written, h⟩ := bind_eq_ok.1 h
  rw [modifyDb_bind_eq_ok] at h
  obtain ⟨e, s₂, recorded, ended⟩ := bind_eq_ok.1 h
  have kept : s₂.db.only A = s.db.only A := by
    rw [insertEventLocked_only other _ _ _ _ _ recorded]
    dsimp only
    rw [Db.only_moveRun other, writeOutput_db written]
  split at ended
  · simp only [modifyDb_bind_eq_ok, getDb_bind_eq_ok, pure_eq_ok] at ended
    obtain ⟨-, rfl⟩ := ended
    dsimp only
    rw [Db.only_release ((Db.run_eq_some.1 run).2.1 ▸ other), kept]
  · simp only [getDb_bind_eq_ok, pure_eq_ok] at ended
    obtain ⟨-, rfl⟩ := ended
    exact kept

theorem transitionRun_only {scopeId : String} (other : scopeId ≠ A) (runId : Uuid)
    (version : Nat) (target : RunStatus) (args : TransitionArgs) (actorRef : Option String) :
    Keeps (Db.only · A) (transitionRun d scopeId runId version target args actorRef) :=
  Spares.transaction (transitionRunBody_only other _ _ _ _ _)

theorem cancelRun_only {scopeId : String} (other : scopeId ≠ A) (runId : Uuid)
    (actorRef : Option String) : Keeps (Db.only · A) (cancelRun d scopeId runId actorRef) := by
  refine .bind .getDb fun db => .bind (.orThrow _ _) fun row => .ite (.pure _) ?_
  refine .bind (transitionRun_only other _ _ _ _ _) fun current => .ite ?_ (.pure _)
  exact .bind (.orThrow _ _) fun _ => transitionRun_only other _ _ _ _ _

theorem transitionRunLocked_only {scopeId : String} (other : scopeId ≠ A) (runId : Uuid)
    (target : RunStatus) (version : Nat) (args : TransitionArgs) (actor : String) :
    Spares A (transitionRunLocked d scopeId runId target version args actor) := by
  intro s t u h
  simp only [transitionRunLocked, getDb_bind_eq_ok, orThrow_bind_eq_ok, fromExcept_bind_eq_ok]
    at h
  obtain ⟨row, -, after, -, h⟩ := h
  obtain ⟨out, s₁, written, h⟩ := bind_eq_ok.1 h
  simp only [now_bind_eq_ok, modifyDb_bind_eq_ok] at h
  obtain ⟨e, s₂, recorded, ended⟩ := bind_eq_ok.1 h
  obtain ⟨-, rfl⟩ := pure_eq_ok.1 ended
  rw [insertEventLocked_only other _ _ _ _ _ recorded]
  dsimp only
  rw [Db.only_moveRun other, writeOutput_db written]

theorem respondToRun_only {scopeId : String} (other : scopeId ≠ A) (runId : Uuid)
    (pendingId key : String) (version : Nat) (text actor : String) :
    Keeps (Db.only · A) (respondToRun d scopeId runId pendingId key version text actor) := by
  refine .bind (Spares.transaction ?_) fun _ => .bind .getDb fun _ => .pure _
  intro s t u h
  simp only [getDb_bind_eq_ok, orThrow_bind_eq_ok] at h
  obtain ⟨p, found, run, known, h⟩ := h
  have place := Table.getIn_eq_some.1 (Option.filter_eq_some_iff.1 found).1
  have pending : p.scopeId ≠ A := fun same => other (place.2.1.symm.trans same)
  have home : run.scopeId ≠ A := (Db.run_eq_some.1 known).2.1 ▸ other
  split at h
  next resolved =>
    obtain ⟨-, rfl⟩ := ensure_eq_ok.1 h
    rfl
  next open_ =>
    simp only [resolveResponse, getDb_bind_eq_ok, writeObject_bind_eq_ok, now_bind_eq_ok,
      ensure_bind_eq_ok, modifyDb_bind_eq_ok] at h
    obtain ⟨-, -, h⟩ := h
    rw [transitionRunLocked_only home _ _ _ _ _ h]
    simp only [Db.only, Db.resolvePending]
    rw [Table.only_updateIn pending]

theorem acceptOnce_only {request : RunRequest} (other : request.context.scopeId ≠ A)
    (key fingerprint : String) (snapshot : RunSnapshot) (rejectIfActive : Bool) :
    Keeps (Db.only · A) (acceptOnce d request key fingerprint snapshot rejectIfActive) := by
  refine .bind (.now d) fun now => Spares.transaction ?_
  intro s t run h
  rw [getDb_bind_eq_ok] at h
  cases found : s.db.requestedRun request.context.scopeId request.sessionId key with
  | some existing =>
      simp only [found, ensure_bind_eq_ok, pure_eq_ok] at h
      obtain ⟨-, -, rfl⟩ := h
      rfl
  | none =>
      simp only [found, writeMessage, writeSnapshot, orThrow_bind_eq_ok, fromExcept_bind_eq_ok,
        ensure_bind_eq_ok, uuid4_bind_eq_ok, writeObject_bind_eq_ok] at h
      obtain ⟨view, -, -, -, -, h⟩ := h
      obtain ⟨_, s₁, inserted, h⟩ := bind_eq_ok.1 h
      obtain ⟨e, s₂, recorded, h⟩ := bind_eq_ok.1 h
      simp only [modifyDb_bind_eq_ok, pure_eq_ok] at h
      obtain ⟨-, rfl⟩ := h
      obtain ⟨runs, insert, rfl⟩ := insertRun_eq_ok.1 inserted
      dsimp only
      rw [Db.only_setNextRunSeq other, insertEventLocked_only other _ _ _ _ _ recorded]
      simp only [Db.only]
      rw [Table.only_insert? insert other]

/-- The workspace of a session of another scope. -/
theorem workspaceFor_only {scopeId : String} (other : scopeId ≠ A) (binding : Option UserBinding)
    (now : Timestamp) (actor : String) : Spares A (workspaceFor d scopeId binding now actor) := by
  have added : ∀ {w : WorkspaceRow}, w.scopeId ≠ A → Spares A (insertWorkspace w) := by
    intro w scope s t id h
    obtain ⟨workspaces, insert, -, rfl⟩ := insertWorkspace_eq_ok.1 h
    simp only [Db.only]
    rw [Table.only_insert? insert scope]
  intro s t id h
  cases binding with
  | none =>
      simp only [workspaceFor, uuid4_bind_eq_ok] at h
      have kept := added (w := .legacy d ⟨s.drawn⟩ scopeId now actor) other h
      exact kept
  | some b =>
      simp only [workspaceFor, getDb_bind_eq_ok] at h
      cases found : s.db.projectWorkspace scopeId b.projectRef with
      | some w =>
          simp only [found, ensure_bind_eq_ok] at h
          obtain ⟨-, h⟩ := h
          obtain ⟨_, s₁, rebound, h⟩ := bind_eq_ok.1 h
          obtain ⟨-, rfl⟩ := pure_eq_ok.1 h
          rw [rebindWorkspace] at rebound
          split at rebound
          · obtain ⟨-, rfl⟩ := pure_eq_ok.1 rebound
            rfl
          · rw [modifyDb_eq_ok.1 rebound]
            simp only [Db.only]
            rw [Table.only_updateIn other]
      | none =>
          simp only [found, uuid4_bind_eq_ok] at h
          have kept := added (w := .ofBinding ⟨s.drawn⟩ scopeId b now actor) other h
          exact kept

theorem createSession_only {scopeId : String} (other : scopeId ≠ A) (key title : String)
    (externalRef : Option String) (context : ExecutionContext) :
    Keeps (Db.only · A) (createSession d scopeId key title externalRef context) := by
  refine .bind (.now d) fun now => .bind (Spares.transaction ?_) fun _ => .bind .getDb fun _ =>
    .pure _
  intro s t id h
  rw [getDb_bind_eq_ok] at h
  cases found : s.db.sessionRequests.get? (scopeId, key) with
  | some row =>
      simp only [found, ensure_bind_eq_ok, pure_eq_ok] at h
      obtain ⟨-, -, rfl⟩ := h
      rfl
  | none =>
      simp only [found, uuid4_bind_eq_ok] at h
      obtain ⟨workspaceId, s₁, placed, h⟩ := bind_eq_ok.1 h
      obtain ⟨_, s₂, inserted, h⟩ := bind_eq_ok.1 h
      obtain ⟨-, rfl⟩ := pure_eq_ok.1 h
      simp only [insertSession, getDb_bind_eq_ok, orThrow_bind_eq_ok, modifyDb_eq_ok] at inserted
      obtain ⟨sessions, insert, requests, insert', rfl⟩ := inserted
      have placed := workspaceFor_only other _ _ _ placed
      simp only [Db.only] at placed ⊢
      rw [Table.only_insert? insert (by exact other), Table.only_insert? insert' (by exact other)]
      exact placed

/-- A program that leaves something alone from one store on, and another that always does. -/
theorem StoreM.Keeps.bind_from {α β γ : Type} {g : Db → γ} {x : StoreM α} {f : α → StoreM β}
    {s : Store} (first : g (finalState x s).db = g s.db) (rest : ∀ a, Keeps g (f a)) :
    g (finalState (x >>= f) s).db = g s.db := by
  cases ended : x s with
  | ok a t =>
      rw [finalState_of_ok ended] at first
      have same : (x >>= f) s = f a t := by
        change EStateM.bind x f s = _
        rw [EStateM.bind, ended]
      rw [finalState, same]
      exact (rest a t).trans first
  | error e t =>
      rw [finalState_of_error ended] at first
      rw [finalState_of_error (bind_eq_error.2 (.inl ended))]
      exact first

/-- A run of another scope is claimed, if any. -/
theorem claimNextRun_only {scopeId : Option String} {nowIso : Timestamp} {s : Store}
    (other : ∀ c, s.db.nextClaimable nowIso scopeId = some c → c.run.scopeId ≠ A)
    (workerId : String) (leaseUntil : Timestamp) :
    (finalState (claimNextRun d scopeId workerId nowIso leaseUntil) s).db.only A =
      s.db.only A := by
  refine Keeps.bind_from (g := (Db.only · A)) ?_ fun claimed => ?_
  · cases ended : transaction (claimCandidate d scopeId workerId nowIso leaseUntil) s with
    | error e t =>
        rw [finalState_of_error ended]
        exact congrArg (Db.only · A) (transaction_error_db ended)
    | ok o t =>
        rw [finalState_of_ok ended]
        rcases claimCandidate_eq_ok (transaction_eq_ok.1 ended) with
          ⟨-, -, rfl⟩ | ⟨c, a, binding, u, next, -, -, attempt, start⟩
        · rfl
        · obtain ⟨attempts, e, r, ss, insert, record, ⟨scope, -⟩, -⟩ := startAttempt_changes start
          have away := other c next
          rw [record.only (by rw [scope]; exact away),
            Db.only_startAttempt insert (by rw [attempt]; exact away)]
  · rcases claimed with _ | ⟨c, attempt, binding⟩
    · exact .pure _
    · exact .bind .getDb fun _ => .bind (.orThrow _ _) fun _ => .pure _

theorem recordWorkspaceRevision_only {scopeId : String} (other : scopeId ≠ A)
    (workspaceId attemptId : Uuid) (epoch : Nat) (commit : WorkspaceCommit) (actor : String) :
    Keeps (Db.only · A)
      (recordWorkspaceRevision d scopeId workspaceId attemptId epoch commit actor) := by
  refine .bind (.now d) fun now => Spares.transaction ?_
  intro s t u h
  simp only [getDb_bind_eq_ok, orThrow_bind_eq_ok, ensure_bind_eq_ok, modifyDb_eq_ok] at h
  obtain ⟨w, -, -, -, revisions, insert, rfl⟩ := h
  simp only [Db.only]
  rw [Table.only_insert? insert (by exact other), Table.only_updateIn other]

theorem appendEvent_only {scopeId : String} (other : scopeId ≠ A) (runId : Uuid)
    (type : EventType) (data : List (String × Json)) (actor : String) :
    Keeps (Db.only · A) (appendEvent d scopeId runId type data actor) := by
  refine Spares.transaction ?_
  intro s t e h
  simp only [getDb_bind_eq_ok, orThrow_bind_eq_ok, now_bind_eq_ok] at h
  obtain ⟨-, -, h⟩ := h
  have kept := insertEventLocked_only other _ _ _ _ _ h
  exact kept

theorem prepareTool_only {call : ToolCall} (other : call.scopeId ≠ A) (actor : String) :
    Keeps (Db.only · A) (prepareTool d call actor) := by
  refine .bind (.now d) fun now => Spares.transaction ?_
  intro s t prepared h
  rw [getDb_bind_eq_ok] at h
  cases found : s.db.calledTool call.scopeId call.runId call.logicalCallKey with
  | some row =>
      simp only [found, ensure_bind_eq_ok, pure_eq_ok] at h
      obtain ⟨-, -, rfl⟩ := h
      rfl
  | none =>
      simp only [found, orThrow_bind_eq_ok, ensure_bind_eq_ok, uuid4_bind_eq_ok] at h
      obtain ⟨run, -, w, -, -, h⟩ := h
      obtain ⟨_, s₁, inserted, h⟩ := bind_eq_ok.1 h
      obtain ⟨e, s₂, recorded, h⟩ := bind_eq_ok.1 h
      obtain ⟨-, rfl⟩ := pure_eq_ok.1 h
      simp only [insertTool, getDb_bind_eq_ok, ensure_bind_eq_ok, orThrow_bind_eq_ok,
        modifyDb_eq_ok] at inserted
      obtain ⟨-, tools, insert, rfl⟩ := inserted
      rw [insertEventLocked_only other _ _ _ _ _ recorded]
      simp only [Db.only]
      rw [Table.only_insert? insert (by exact other)]

theorem startTool_only {scopeId : String} (other : scopeId ≠ A) (operationId : Uuid)
    (actor : String) : Keeps (Db.only · A) (startTool d scopeId operationId actor) := by
  refine .bind (.now d) fun now => Spares.transaction ?_
  intro s t u h
  simp only [getDb_bind_eq_ok, orThrow_bind_eq_ok, modifyDb_bind_eq_ok] at h
  obtain ⟨row, -, h⟩ := h
  obtain ⟨e, s₁, recorded, h⟩ := bind_eq_ok.1 h
  obtain ⟨-, rfl⟩ := pure_eq_ok.1 h
  rw [insertEventLocked_only other _ _ _ _ _ recorded]
  simp only [Db.only, Db.updateTool]
  rw [Table.only_updateIn other]

theorem appendToolOutput_only {scopeId : String} (other : scopeId ≠ A) (operationId : Uuid)
    (stream text : String) (truncated : Bool) (actor : String) :
    Keeps (Db.only · A)
      (appendToolOutput d scopeId operationId stream text truncated actor) := by
  refine Spares.transaction ?_
  intro s t u h
  simp only [getDb_bind_eq_ok, orThrow_bind_eq_ok, now_bind_eq_ok] at h
  obtain ⟨row, -, h⟩ := h
  obtain ⟨e, s₁, recorded, h⟩ := bind_eq_ok.1 h
  obtain ⟨-, rfl⟩ := pure_eq_ok.1 h
  have kept := insertEventLocked_only other _ _ _ _ _ recorded
  exact kept

theorem finishTool_only {scopeId : String} (other : scopeId ≠ A) (operationId : Uuid)
    (status : ToolStatus) (resultRef : Option String) (error : Option (List (String × Json)))
    (actor : String) (revision : Option String) :
    Keeps (Db.only · A)
      (finishTool d scopeId operationId status resultRef error actor revision) := by
  refine .bind (.now d) fun now => Spares.transaction ?_
  intro s t u h
  simp only [getDb_bind_eq_ok, orThrow_bind_eq_ok, ensure_bind_eq_ok, modifyDb_bind_eq_ok] at h
  obtain ⟨row, -, -, h⟩ := h
  obtain ⟨e, s₁, recorded, h⟩ := bind_eq_ok.1 h
  obtain ⟨-, rfl⟩ := pure_eq_ok.1 h
  rw [insertEventLocked_only other _ _ _ _ _ recorded]
  simp only [Db.only, Db.updateTool]
  rw [Table.only_updateIn other]

theorem openPending_only {p : PendingRow} (other : p.scopeId ≠ A) :
    Keeps (Db.only · A) (openPending p) := by
  refine Spares.transaction ?_
  intro s t u h
  simp only [getDb_bind_eq_ok, orThrow_bind_eq_ok, modifyDb_eq_ok] at h
  obtain ⟨run, -, pendings, insert, rfl⟩ := h
  simp only [Db.only]
  rw [Table.only_insert? insert (by exact other)]

/-! ## Calls of other scopes -/

/-- The scope a call acts for.  A claim acts for the scope of the run it takes. -/
def Op.actsFor (s : Store) : Op → Option String
  | .createSession scopeId _ _ _ _ => some scopeId
  | .acceptOnce request _ _ _ _ => some request.context.scopeId
  | .claimNextRun scopeId _ nowIso _ =>
      (s.db.nextClaimable nowIso scopeId).map fun c => c.run.scopeId
  | .transitionRun scopeId _ _ _ _ _ => some scopeId
  | .cancelRun scopeId _ _ => some scopeId
  | .respondToRun scopeId _ _ _ _ _ _ => some scopeId
  | .recordWorkspaceRevision scopeId _ _ _ _ _ => some scopeId
  | .appendEvent scopeId _ _ _ _ => some scopeId
  | .prepareTool call _ => some call.scopeId
  | .startTool scopeId _ _ => some scopeId
  | .appendToolOutput scopeId _ _ _ _ _ => some scopeId
  | .finishTool scopeId _ _ _ _ _ _ => some scopeId
  | .openPending p => some p.scopeId

/-- A call leaves the rows of a scope alone that it does not act for. -/
theorem Op.exec_only (op : Op) {s : Store} (other : op.actsFor s ≠ some A) :
    (op.exec d s).db.only A = s.db.only A := by
  have away : ∀ {scopeId : String}, some scopeId ≠ some A → scopeId ≠ A :=
    fun ne same => ne (congrArg some same)
  cases op with
  | createSession => exact createSession_only (away other) _ _ _ _ s
  | acceptOnce => exact acceptOnce_only (away other) _ _ _ _ s
  | claimNextRun =>
      refine claimNextRun_only (fun c next scope => other ?_) _ _
      rw [actsFor, next, Option.map_some, scope]
  | transitionRun => exact transitionRun_only (away other) _ _ _ _ _ s
  | cancelRun => exact cancelRun_only (away other) _ _ s
  | respondToRun => exact respondToRun_only (away other) _ _ _ _ _ _ s
  | recordWorkspaceRevision => exact recordWorkspaceRevision_only (away other) _ _ _ _ _ s
  | appendEvent => exact appendEvent_only (away other) _ _ _ _ s
  | prepareTool => exact prepareTool_only (away other) _ s
  | startTool => exact startTool_only (away other) _ _ s
  | appendToolOutput => exact appendToolOutput_only (away other) _ _ _ _ _ s
  | finishTool => exact finishTool_only (away other) _ _ _ _ _ _ s
  | openPending => exact openPending_only (away other) s

/-- One call for another scope, or a fault. -/
inductive OtherStep (d : Deployment) (π : Discipline) (A : String) (s : Store) : Store → Prop
  | call (op : Op) (obeys : op.Obeys π) (other : op.actsFor s ≠ some A) :
      OtherStep d π A s (op.exec d s)
  | fault {t : Store} (grown : s.Extends t) (rollback : t.db = s.db) : OtherStep d π A s t

variable {π : Discipline}

theorem OtherStep.step (h : OtherStep d π A s t) : Step d π s t := by
  cases h with
  | call op obeys other => exact .call op obeys
  | fault grown rollback => exact .fault grown rollback

/-- What other scopes do. -/
abbrev Others (d : Deployment) (π : Discipline) (A : String) : Store → Store → Prop :=
  Relation.ReflTransGen (OtherStep d π A)

theorem Others.steps (others : Others d π A s t) : Steps d π s t :=
  others.lift id fun _ _ h => h.step

/-- What other scopes do leaves the rows of a scope alone. -/
theorem Others.only (others : Others d π A s t) : t.db.only A = s.db.only A := by
  induction others with
  | refl => rfl
  | tail _ last ih =>
      cases last with
      | call op obeys other => exact (op.exec_only other).trans ih
      | fault grown rollback => rw [rollback, ih]

/-! ## Reading -/

/-- The session of a run is there, in the scope of the run. -/
theorem Reachable.session_of_run (h : Reachable d π s) {r : RunRow} (there : r ∈ s.db.runs) :
    ∃ ss ∈ s.db.sessions, ss.scopeId = r.scopeId ∧ ss.id = r.sessionId := by
  obtain ⟨kk, queue⟩ := (Reachable.grounded h).job _ _ (Table.view_of_mem there RunRow.lease)
  obtain ⟨ss, hss, key, -⟩ := Table.view_eq_some.1 queue
  obtain ⟨scope, id⟩ := Prod.mk.inj key
  exact ⟨ss, hss, scope, id⟩

end CodeForge
