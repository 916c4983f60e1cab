import CodeForge.Lib.Sha256
import CodeForge.Persistence.Operations

/-!
# Runs of the store

A store is shared by the threads of a server and by workers, who call its
operations in any order.  A `Step` is one call, to its normal end or to its
error, or a fault: an operation stops somewhere on its way, and the tables are
rolled back while the files it wrote stay.  `Reachable π` are the stores that
steps of callers held to `π` lead to, from an empty one.

Every operation is one transaction but for `cancel_run`, which is two calls of
`transition_run`.  What other callers do between the two is a run in which the
two calls are made one by one, so nothing is lost by taking a call as one step.

Requests for the user's input are added by code outside the repository, so the
system has one more operation, `openPending`.

`Reachable.invariant` is the rule for invariants: what the empty store has, what
growth keeps and every change keeps, all reachable stores have.
-/

namespace CodeForge

open Lib StoreM

/-- A request for the user's input is added to a run. -/
def openPending (p : PendingRow) : StoreM Unit :=
  transaction do
    let db ← getDb
    let _ ← orThrow (db.run p.scopeId p.runId) (.integrity "pending_responses")
    let pendings ← orThrow (db.pendings.insert? p) (.integrity "pending_responses")
    modifyDb fun db => { db with pendings }

/-- A call of an operation. -/
inductive Op where
  | createSession (scopeId idempotencyKey title : String) (externalRef : Option String)
      (context : ExecutionContext)
  | acceptOnce (request : RunRequest) (idempotencyKey fingerprint : String)
      (snapshot : RunSnapshot) (rejectIfActive : Bool)
  | claimNextRun (scopeId : Option String) (workerId : String) (nowIso leaseUntil : Timestamp)
  | transitionRun (scopeId : String) (runId : Uuid) (expectedVersion : Nat) (target : RunStatus)
      (args : TransitionArgs) (actorRef : Option String)
  | cancelRun (scopeId : String) (runId : Uuid) (actorRef : Option String)
  | respondToRun (scopeId : String) (runId : Uuid) (pendingId responseKey : String)
      (expectedStateVersion : Nat) (text actor : String)
  | recordWorkspaceRevision (scopeId : String) (workspaceId attemptId : Uuid)
      (workspaceEpoch : Nat) (commit : WorkspaceCommit) (actor : String)
  | appendEvent (scopeId : String) (runId : Uuid) (type : EventType)
      (data : List (String × Json)) (actor : String)
  | prepareTool (call : ToolCall) (actor : String)
  | startTool (scopeId : String) (operationId : Uuid) (actor : String)
  | appendToolOutput (scopeId : String) (operationId : Uuid) (stream text : String)
      (truncated : Bool) (actor : String)
  | finishTool (scopeId : String) (operationId : Uuid) (status : ToolStatus)
      (resultRef : Option String) (error : Option (List (String × Json))) (actor : String)
      (resultRevisionId : Option String)
  | openPending (p : PendingRow)

namespace Op

/-- The store a call leaves behind. -/
def exec (d : Deployment) : Op → Store → Store
  | .createSession scopeId key title externalRef context =>
      finalState (CodeForge.createSession d scopeId key title externalRef context)
  | .acceptOnce request key fingerprint snapshot rejectIfActive =>
      finalState (CodeForge.acceptOnce d request key fingerprint snapshot rejectIfActive)
  | .claimNextRun scopeId workerId nowIso leaseUntil =>
      finalState (CodeForge.claimNextRun d scopeId workerId nowIso leaseUntil)
  | .transitionRun scopeId runId version target args actorRef =>
      finalState (CodeForge.transitionRun d scopeId runId version target args actorRef)
  | .cancelRun scopeId runId actorRef => finalState (CodeForge.cancelRun d scopeId runId actorRef)
  | .respondToRun scopeId runId pendingId key version text actor =>
      finalState (CodeForge.respondToRun d scopeId runId pendingId key version text actor)
  | .recordWorkspaceRevision scopeId workspaceId attemptId epoch commit actor =>
      finalState
        (CodeForge.recordWorkspaceRevision d scopeId workspaceId attemptId epoch commit actor)
  | .appendEvent scopeId runId type data actor =>
      finalState (CodeForge.appendEvent d scopeId runId type data actor)
  | .prepareTool call actor => finalState (CodeForge.prepareTool d call actor)
  | .startTool scopeId id actor => finalState (CodeForge.startTool d scopeId id actor)
  | .appendToolOutput scopeId id stream text truncated actor =>
      finalState (CodeForge.appendToolOutput d scopeId id stream text truncated actor)
  | .finishTool scopeId id status resultRef error actor revision =>
      finalState (CodeForge.finishTool d scopeId id status resultRef error actor revision)
  | .openPending p => finalState (CodeForge.openPending p)

/-- The caller keeps to the discipline. -/
def Obeys (π : Discipline) : Op → Prop
  | .createSession scopeId _ _ _ context =>
      ∀ b, context.userBinding = some b → π.binding scopeId b
  | .acceptOnce request _ _ _ rejectIfActive =>
      rejectIfActive = false → π.busy request.context.scopeId request.sessionId
  | .transitionRun _ _ _ target args _ => π.target target ∧ π.extra (args.extraData.getD [])
  | .cancelRun _ _ _ => π.target .cancelling ∧ π.target .cancelled
  | .respondToRun _ _ _ _ _ _ _ => π.target .queued
  | .appendEvent _ _ type _ _ => π.event type
  | _ => True

/-- Any call keeps to the discipline that permits everything. -/
theorem obeys_default (op : Op) : op.Obeys {} := by
  cases op with
  | createSession => exact fun _ _ => trivial
  | acceptOnce => exact fun _ => trivial
  | transitionRun => exact ⟨trivial, trivial⟩
  | cancelRun => exact ⟨trivial, trivial⟩
  | claimNextRun | respondToRun | recordWorkspaceRevision | appendEvent | prepareTool | startTool
  | appendToolOutput | finishTool | openPending => trivial

/-- Every call grows the store. -/
theorem exec_extends (d : Deployment) (op : Op) (s : Store) : s.Extends (op.exec d s) := by
  have run : ∀ {α : Type} {x : StoreM α}, Grows 0 x → s.Extends (finalState x s) :=
    fun h => h s (Nat.zero_le _)
  cases op with
  | createSession => exact run (createSession_grows _ _ _ _ _ _)
  | acceptOnce => exact run (acceptOnce_grows _ _ _ _ _ _)
  | claimNextRun => exact run (claimNextRun_grows _ _ _ _ _)
  | transitionRun => exact run (transitionRun_grows _ _ _ _ _ _ _)
  | cancelRun => exact run (cancelRun_grows _ _ _ _)
  | respondToRun => exact run (respondToRun_grows _ _ _ _ _ _ _ _)
  | recordWorkspaceRevision => exact run (recordWorkspaceRevision_grows _ _ _ _ _ _ _)
  | appendEvent => exact run (appendEvent_grows _ _ _ _ _ _)
  | prepareTool => exact run (prepareTool_grows _ _ _)
  | startTool => exact run (startTool_grows _ _ _ _)
  | appendToolOutput => exact run (appendToolOutput_grows _ _ _ _ _ _ _)
  | finishTool => exact run (finishTool_grows _ _ _ _ _ _ _ _)
  | openPending =>
      exact run (.transaction (.bind .getDb fun _ => .bind (.orThrow _ _) fun _ =>
        .bind (.orThrow _ _) fun _ => .modifyDb _))

/-- Every call rewrites the tables by changes. -/
theorem exec_changes (d : Deployment) (π : Discipline) (op : Op) (h : op.Obeys π) (s : Store) :
    Changes d π (op.exec d s).files (op.exec d s).drawn s.db (op.exec d s).db := by
  cases op with
  | createSession => exact createSession_commits _ _ _ _ _ h s
  | acceptOnce => exact acceptOnce_commits _ _ _ _ _ h s
  | claimNextRun => exact claimNextRun_commits _ _ _ _ s
  | transitionRun => exact transitionRun_commits _ _ _ _ _ _ h.1 h.2 s
  | cancelRun => exact cancelRun_commits _ _ _ h.1 h.2 s
  | respondToRun => exact respondToRun_commits _ _ _ _ _ _ _ h s
  | recordWorkspaceRevision => exact recordWorkspaceRevision_commits _ _ _ _ _ _ s
  | appendEvent => exact appendEvent_commits _ _ _ _ _ h s
  | prepareTool => exact prepareTool_commits _ _ s
  | startTool => exact startTool_commits _ _ _ s
  | appendToolOutput => exact appendToolOutput_commits _ _ _ _ _ _ s
  | finishTool => exact finishTool_commits _ _ _ _ _ _ _ s
  | openPending p =>
      refine Commits.transaction (fun s u s' h => ?_) s
      simp only [getDb_bind_eq_ok, orThrow_bind_eq_ok, modifyDb_eq_ok] at h
      obtain ⟨run, -, pendings, -, rfl⟩ := h
      exact .single .pendings

end Op

/-! ## Steps -/

/-- One call, or a fault on the way of one. -/
inductive Step (d : Deployment) (π : Discipline) (s : Store) : Store → Prop
  /-- A call that ends normally or with an error. -/
  | call (op : Op) (obeys : op.Obeys π) : Step d π s (op.exec d s)
  /-- The tables are rolled back, what was written to files stays. -/
  | fault {t : Store} (grown : s.Extends t) (rollback : t.db = s.db) : Step d π s t

/-- What a step does to the files and to the tables. -/
theorem Step.spec {d : Deployment} {π : Discipline} {s t : Store} (h : Step d π s t) :
    s.Extends t ∧ Changes d π t.files t.drawn s.db t.db := by
  cases h with
  | call op obeys => exact ⟨op.exec_extends d s, op.exec_changes d π obeys s⟩
  | fault grown rollback => exact ⟨grown, by rw [rollback]⟩

/-- Any number of steps. -/
abbrev Steps (d : Deployment) (π : Discipline) : Store → Store → Prop :=
  Relation.ReflTransGen (Step d π)

/-- The stores steps lead to from an empty one. -/
def Reachable (d : Deployment) (π : Discipline) (s : Store) : Prop := Steps d π {} s

theorem Reachable.steps {d : Deployment} {π : Discipline} {s t : Store} (h : Reachable d π s)
    (st : Steps d π s t) : Reachable d π t := Relation.ReflTransGen.trans h st

/-- Steps grow the store. -/
theorem Steps.grown {d : Deployment} {π : Discipline} {s t : Store} (h : Steps d π s t) :
    s.Extends t := by
  induction h with
  | refl => exact .refl s
  | tail _ st ih => exact ih.trans st.spec.1

/-- A property that growth and changes keep is kept by steps. -/
theorem Steps.preserves {d : Deployment} {π : Discipline} {s t : Store} (h : Steps d π s t)
    {I : Files → Nat → Db → Prop}
    (grown : ∀ {f g m n db}, Files.Grows f g → m ≤ n → I f m db → I g n db)
    (change : ∀ {f n db db'}, Change d π f n db db' → I f n db → I f n db')
    (hs : I s.files s.drawn s.db) : I t.files t.drawn t.db := by
  induction h with
  | refl => exact hs
  | tail _ st ih =>
      obtain ⟨ext, changes⟩ := st.spec
      exact changes.preserves change (grown ext.files ext.drawn ih)

/-- The rule for invariants of reachable stores. -/
theorem Reachable.invariant {d : Deployment} {π : Discipline} {s : Store}
    (h : Reachable d π s) {I : Files → Nat → Db → Prop} (initial : I ∅ 0 {})
    (grown : ∀ {f g m n db}, Files.Grows f g → m ≤ n → I f m db → I g n db)
    (change : ∀ {f n db db'}, Change d π f n db db' → I f n db → I f n db') :
    I s.files s.drawn s.db := Steps.preserves h grown change initial

/-- The rule for invariants of the tables alone. -/
theorem Reachable.db_invariant {d : Deployment} {π : Discipline} {s : Store}
    (h : Reachable d π s) {I : Db → Prop} (initial : I {})
    (change : ∀ {f n db db'}, Change d π f n db db' → I db → I db') : I s.db :=
  h.invariant (I := fun _ _ db => I db) initial (fun _ _ h => h) change

/-! ## Runs of calls -/

/-- The store a series of calls leaves behind. -/
def Op.execAll (d : Deployment) (ops : List Op) (s : Store) : Store :=
  ops.foldl (fun s op => op.exec d s) s

theorem Steps.execAll {d : Deployment} {π : Discipline} {ops : List Op} {s : Store}
    (h : ∀ op ∈ ops, op.Obeys π) : Steps d π s (Op.execAll d ops s) := by
  induction ops generalizing s with
  | nil => exact .refl
  | cons op ops ih =>
      exact .head (.call op (h op (by simp))) (ih fun op' hop => h op' (by simp [hop]))

theorem Reachable.execAll {d : Deployment} {π : Discipline} {ops : List Op}
    (h : ∀ op ∈ ops, op.Obeys π) : Reachable d π (Op.execAll d ops {}) := Steps.execAll h

/-- More calls lead on from where a series of calls ended. -/
theorem Steps.execAll_append {d : Deployment} {π : Discipline} {ops more : List Op} {s : Store}
    (h : ∀ op ∈ more, op.Obeys π) :
    Steps d π (Op.execAll d ops s) (Op.execAll d (ops ++ more) s) := by
  rw [Op.execAll, Op.execAll, List.foldl_append]
  exact .execAll h

/-- A deployment on a host without symbolic links or home directories. -/
def Deployment.plain : Deployment where
  host := .withoutLinks fun _ => none
  sha256 := Sha256.hexdigest
  uuidText u := "00000000-0000-4000-8000-" ++ String.ofList (Sha256.hexDigits 12 u.draw)
  clock n := s!"2026-01-01T00:00:00.{Files.sixDigits n}Z"
  legacyRoot := "/var/lib/code-forge"

/-- A deployment whose digests tell all bodies apart. -/
def Deployment.verbatim : Deployment := { Deployment.plain with sha256 := plainDigest }

/-- The binding of a project below `/srv`. -/
def UserBinding.plain (userRef projectRef projectRelPath : String) : UserBinding where
  scopeId := userRef
  tenantRef := "platform"
  userRef := userRef
  userPath := "/srv/" ++ userRef
  projectRef := projectRef
  projectPath := "/srv/" ++ userRef ++ "/" ++ projectRelPath
  storageRoot := "/srv"
  userRelPath := userRef
  projectRelPath := projectRelPath

/-- The context of a bound user. -/
def ExecutionContext.bound (b : UserBinding) : ExecutionContext :=
  { scopeId := b.scopeId, userBinding := some b }

/-- A call that opens a session on a project. -/
def Op.openSession (b : UserBinding) (key : String) : Op :=
  .createSession b.scopeId key "Session" none (.bound b)

/-- A call that sends a message. -/
def Op.send (b : UserBinding) (session : Nat) (key input : String) : Op :=
  .acceptOnce { sessionId := ⟨session⟩, input, context := .bound b } key key
    { agentDigest := "general@1", runtimeRef := "runtime@1", modelProfileRef := "model@1",
      executionProfileRef := "local@1", skills := [], toolRefs := [], userBinding := some b }
    false

/-- A call that claims whatever is due. -/
def Op.claimAny : Op := .claimNextRun none "w1" "2026-01-01T00:01:00Z" "2026-01-01T00:02:00Z"

/-- One session and one message that nobody claimed. -/
def Op.firstSend : List Op :=
  [.openSession (.plain "ada" "p" "p") "s", .send (.plain "ada" "p" "p") 0 "m" "hello"]

/-- A session without a project, and a message. -/
def Op.legacySend : List Op :=
  [.createSession "ada" "s" "Session" none { scopeId := "ada" },
    .acceptOnce { sessionId := ⟨0⟩, input := "hello", context := { scopeId := "ada" } } "m" "m"
      { agentDigest := "general@1", runtimeRef := "runtime@1", modelProfileRef := "model@1",
        executionProfileRef := "local@1", skills := [], toolRefs := [], userBinding := none }
      false]

/-- A session is opened, a message sent and its run claimed. -/
def Op.firstClaim : List Op :=
  [.openSession (.plain "ada" "p" "p") "s", .send (.plain "ada" "p" "p") 0 "m" "hello", .claimAny]

theorem Op.firstClaim_obeys {π : Discipline} (h : π.binding "ada" (.plain "ada" "p" "p"))
    (busy : π.busy "ada" ⟨0⟩) : ∀ op ∈ Op.firstClaim, op.Obeys π := by
  intro op hop
  simp only [Op.firstClaim, List.mem_cons, List.not_mem_nil, or_false] at hop
  rcases hop with rfl | rfl | rfl
  · rintro _ ⟨⟩
    exact h
  · exact fun _ => busy
  · trivial

end CodeForge
