import Mathlib.Data.List.MinMax
import Mathlib.Data.Prod.Lex
import CodeForge.Persistence.Sessions

/-!
# The life of a run

`claimNextRun` hands the next run of the queue to a worker: it opens an attempt,
points the session and the workspace at it and starts the run.  `transitionRun`
carries out one change of the state machine; a change to a terminal status also
ends the attempt and gives session and workspace back.  `cancelRun` is one or
two such changes, each a transaction of its own.  `respondToRun` resolves a
pending response and puts its run into the queue again.

What a statement does to a row is a function on rows, what it does to the tables
a function on `Db`, both under the words of the source.
-/

namespace CodeForge

open Lib StoreM

/-! ## Choosing the next run -/

/-- A run with its session and workspace. -/
structure Candidate where
  run : RunRow
  session : SessionRow
  workspace : WorkspaceRow

/-- An earlier run of the session is in the queue. -/
def Db.hasQueuedBefore (db : Db) (r : RunRow) : Bool :=
  db.runs.rows.any fun prior =>
    prior.scopeId = r.scopeId && prior.sessionId = r.sessionId && prior.status = .queued &&
      prior.runSeq < r.runSeq

/-- `JOIN sessions s ... JOIN workspaces w ...` -/
def Db.candidate (db : Db) (r : RunRow) : Option Candidate := do
  let session ← db.session r.scopeId r.sessionId
  let workspace ← db.workspace session.scopeId session.workspaceId
  return { run := r, session, workspace }

/-- The conditions of the selection in `claim_next_run`. -/
def Db.Claimable (db : Db) (nowIso : Timestamp) (scopeId : Option String) (c : Candidate) : Prop :=
  c.run.status = .queued ∧ c.run.dueAt ≤ nowIso ∧ c.session.activeRunId = none ∧
    c.workspace.activeAttemptId = none ∧ db.hasQueuedBefore c.run = false ∧
      ∀ s, scopeId = some s → c.run.scopeId = s

instance (db : Db) (nowIso : Timestamp) (scopeId : Option String) (c : Candidate) :
    Decidable (db.Claimable nowIso scopeId c) := by
  unfold Db.Claimable
  infer_instance

/-- The runs a worker may claim. -/
def Db.claimable (db : Db) (nowIso : Timestamp) (scopeId : Option String) : List Candidate :=
  (db.runs.rows.filterMap db.candidate).filter fun c => db.Claimable nowIso scopeId c

/-- `ORDER BY r.due_at, r.date_created, r.run_seq` -/
def Candidate.order (c : Candidate) : Timestamp ×ₗ Timestamp ×ₗ Nat :=
  toLex (c.run.dueAt, toLex (c.run.audit.dateCreated, c.run.runSeq))

/-- The run `claim_next_run` takes. -/
def Db.nextClaimable (db : Db) (nowIso : Timestamp) (scopeId : Option String) : Option Candidate :=
  (db.claimable nowIso scopeId).argmin Candidate.order

/-! ## Claiming it -/

/-- The binding a claimed run works under. -/
def Candidate.binding (host : Host) (c : Candidate) : Except StoreError (Option UserBinding) :=
  if c.workspace.projectPath ≠ "" then
    (UserBinding.new host c.run.scopeId c.workspace.tenantRef c.workspace.userRef
      c.workspace.userPath c.workspace.projectRef (some c.workspace.projectPath)
      c.workspace.storageRoot c.workspace.userRelPath "").map some
  else .ok none

/-- The attempt of a worker at a run. -/
def Candidate.attempt (c : Candidate) (id : Uuid) (binding : Option UserBinding)
    (workerId : String) (nowIso leaseUntil : Timestamp) (actor : String) : AttemptRow where
  id := id
  scopeId := c.run.scopeId
  sessionId := c.run.sessionId
  runId := c.run.id
  workspaceId := c.session.workspaceId
  epoch := c.session.executionEpoch + 1
  workspaceEpoch := c.workspace.workspaceEpoch + 1
  workerId := workerId
  leaseUntil := leaseUntil
  heartbeatAt := nowIso
  workspaceBaseRevision := c.workspace.currentRevision
  mountSpecRef := if binding.isSome then s!"project:{c.workspace.projectRef}" else "legacy"
  workingDirectoryRef := c.workspace.projectPath
  endedAt := none
  audit := .insert nowIso actor

/-- A session occupied by an attempt. -/
def SessionRow.occupy (s : SessionRow) (a : AttemptRow) (actor : String) : SessionRow :=
  { s with
    activeRunId := some a.runId, executionEpoch := a.epoch,
    audit := s.audit.update a.heartbeatAt actor }

/-- A workspace leased to an attempt. -/
def WorkspaceRow.occupy (w : WorkspaceRow) (a : AttemptRow) (actor : String) : WorkspaceRow :=
  { w with
    activeAttemptId := some a.id, workspaceEpoch := a.workspaceEpoch,
    leaseUntil := some a.leaseUntil, heartbeatAt := some a.heartbeatAt,
    audit := w.audit.update a.heartbeatAt actor }

/-- A run started by an attempt. -/
def RunRow.start (r : RunRow) (a : AttemptRow) (actor : String) : RunRow :=
  { r with
    status := .running, activeAttemptId := some a.id, stateVersion := r.stateVersion + 1,
    dueAt := a.leaseUntil, audit := r.audit.update a.heartbeatAt actor }

/-- `UPDATE sessions SET active_run_id = ?, execution_epoch = ?` -/
def Db.occupySession (db : Db) (a : AttemptRow) (actor : String) : Db :=
  { db with
    sessions := db.sessions.updateIn a.scopeId a.sessionId (fun s => s.occupy a actor) }

/-- The lease of a workspace is as a candidate found it. -/
def WorkspaceRow.leaseFree (w : WorkspaceRow) (epoch : Nat) : Bool :=
  w.workspaceEpoch = epoch && w.activeAttemptId = none

/-- `UPDATE workspaces SET active_attempt_id = ?, ... AND active_attempt_id IS NULL` -/
def Db.occupyWorkspace (db : Db) (a : AttemptRow) (epoch : Nat) (actor : String) : Db :=
  { db with
    workspaces := db.workspaces.updateIn a.scopeId a.workspaceId
      (fun w => if w.leaseFree epoch then w.occupy a actor else w) }

/-- `UPDATE runs SET status = ?, active_attempt_id = ?, ... AND state_version = ?` -/
def Db.startRun (db : Db) (a : AttemptRow) (version : Nat) (actor : String) : Db :=
  { db with
    runs := db.runs.updateIn a.scopeId a.runId
      (fun r => if r.stateVersion = version then r.start a actor else r) }

/-- What a worker is told about the run it claimed. -/
structure ClaimedRun where
  run : RunRow
  attemptId : Uuid
  epoch : Nat
  workspaceId : Uuid
  workspaceEpoch : Nat
  userBinding : Option UserBinding
  workingDirectory : Option String

/-- The body of `run.started`. -/
def startedData (d : Deployment) (attemptId : Uuid) : Json :=
  .obj [("attempt_id", .str (d.uuidText attemptId))]

/-- Point session, workspace and run at a new attempt, and say so. -/
def startAttempt (d : Deployment) (c : Candidate) (attempt : AttemptRow) (actor : String) :
    StoreM Unit := do
  let db ← getDb
  let attempts ← orThrow (db.attempts.insert? attempt) (.integrity "run_attempts")
  modifyDb fun db => { db with attempts }
  modifyDb fun db => db.occupySession attempt actor
  let db ← getDb
  ensure (((db.workspace c.run.scopeId c.session.workspaceId).filter fun w =>
      w.leaseFree c.workspace.workspaceEpoch).isSome)
    (.domain .stateConflict "Workspace lease conflict")
  modifyDb fun db => db.occupyWorkspace attempt c.workspace.workspaceEpoch actor
  let db ← getDb
  ensure (((db.run c.run.scopeId c.run.id).filter fun r =>
      r.stateVersion = c.run.stateVersion).isSome)
    (.domain .stateConflict "Run state conflict while claiming")
  modifyDb fun db => db.startRun attempt c.run.stateVersion actor
  let _ ← insertEventLocked d c.run.scopeId c.run.id .runStarted (startedData d attempt.id) actor
    attempt.heartbeatAt

/-- The transaction of `claim_next_run`. -/
def claimCandidate (d : Deployment) (scopeId : Option String) (workerId : String)
    (nowIso leaseUntil : Timestamp) :
    StoreM (Option (Candidate × AttemptRow × Option UserBinding)) := do
  let actor := s!"system:runtime/{workerId}"
  let db ← getDb
  match db.nextClaimable nowIso scopeId with
  | none => return none
  | some c => do
      let attemptId ← uuid4
      let binding ← fromExcept (c.binding d.host)
      let attempt := c.attempt attemptId binding workerId nowIso leaseUntil actor
      startAttempt d c attempt actor
      return some (c, attempt, binding)

/-- `claim_next_run` -/
def claimNextRun (d : Deployment) (scopeId : Option String) (workerId : String)
    (nowIso leaseUntil : Timestamp) : StoreM (Option ClaimedRun) := do
  match ← transaction (claimCandidate d scopeId workerId nowIso leaseUntil) with
  | none => return none
  | some (c, attempt, binding) => do
      let db ← getDb
      let run ← orThrow (db.run c.run.scopeId c.run.id) .assertion
      return some
        { run, attemptId := attempt.id, epoch := attempt.epoch,
          workspaceId := attempt.workspaceId, workspaceEpoch := attempt.workspaceEpoch,
          userBinding := binding,
          workingDirectory :=
            if c.workspace.projectPath ≠ "" then some c.workspace.projectPath else none }

/-! ## Changing its status -/

/-- The part of a row the state machine decides on. -/
def RunRow.state (r : RunRow) : RunState where
  status := r.status
  stateVersion := r.stateVersion
  taskOutcome := r.taskOutcome
  waitReason := r.waitReason

/-- A dictionary as it is stored: an empty one is as good as none. -/
def storedError : Option (List (String × Json)) → Option Json
  | some (m :: ms) => some (.obj (m :: ms))
  | _ => none

/-- A run after a change of its state. -/
def RunRow.moveTo (r : RunRow) (after : RunState) (outputRef : Option ObjectRef)
    (outputChars : Option Nat) (error : Option Json) (now : Timestamp) (actor : String) :
    RunRow :=
  { r with
    status := after.status, stateVersion := after.stateVersion,
    taskOutcome := after.taskOutcome, waitReason := after.waitReason,
    outputRef := (outputRef.map ObjectRef.ref).or r.outputRef,
    outputDigest := (outputRef.map ObjectRef.digest).or r.outputDigest,
    outputChars := outputChars.or r.outputChars, error := error.or r.error,
    audit := r.audit.update now actor }

/-- `UPDATE runs SET status = ?, ... AND state_version = ?` -/
def Db.moveRun (db : Db) (scopeId : String) (runId : Uuid) (version : Nat) (after : RunState)
    (outputRef : Option ObjectRef) (outputChars : Option Nat) (error : Option Json)
    (now : Timestamp) (actor : String) : Db :=
  { db with
    runs := db.runs.updateIn scopeId runId
      (fun r =>
        if r.stateVersion = version then r.moveTo after outputRef outputChars error now actor
        else r) }

/-- The text of an outcome, or `null`. -/
def outcomeJson (outcome : Option TaskOutcome) : Json := .optStr (outcome.map TaskOutcome.value)

/-- The body of the event a change is announced by. -/
def transitionData (d : Deployment) (after : RunState) (reason : Option String)
    (outputRef : Option ObjectRef) (error : Option (List (String × Json)))
    (extraData : List (String × Json)) : Json :=
  let status := ("status", Json.str after.status.value)
  match after.status with
  | .succeeded | .failed | .cancelled | .timedOut =>
      .obj [status, ("task_outcome", outcomeJson after.taskOutcome),
        ("output_ref", .optStr (outputRef.map fun o => o.ref.text d.uuidText)),
        ("error", (error.map Json.obj).getD .null)]
  | .waitingUser | .waitingExternal =>
      .obj (Json.merge [status, ("reason", .optStr after.waitReason)] extraData)
  | .queued | .cancelling => .obj (Json.merge [status] extraData)
  | .recovering => .obj (Json.merge [("reason", .str (reason.getD ""))] extraData)
  | .running => .obj extraData

/-- An attempt at its end. -/
def AttemptRow.finish (a : AttemptRow) (now : Timestamp) (actor : String) : AttemptRow :=
  { a with endedAt := some now, audit := a.audit.update now actor }

/-- A session without an active run. -/
def SessionRow.vacate (s : SessionRow) (now : Timestamp) (actor : String) : SessionRow :=
  { s with activeRunId := none, audit := s.audit.update now actor }

/-- A workspace without a lease. -/
def WorkspaceRow.vacate (w : WorkspaceRow) (now : Timestamp) (actor : String) : WorkspaceRow :=
  { w with
    activeAttemptId := none, leaseUntil := none, heartbeatAt := none,
    audit := w.audit.update now actor }

/-- A run without an attempt. -/
def RunRow.detach (r : RunRow) (now : Timestamp) (actor : String) : RunRow :=
  { r with activeAttemptId := none, audit := r.audit.update now actor }

/-- End the attempt of a run, and give its session and its workspace back. -/
def Db.release (db : Db) (r : RunRow) (now : Timestamp) (actor : String) : Db :=
  { db with
    attempts := db.attempts.updateWhere
      (fun a => a.scopeId = r.scopeId && r.activeAttemptId = some a.id)
      (fun a => a.finish now actor)
    sessions := db.sessions.updateWhere
      (fun s => s.scopeId = r.scopeId && s.activeRunId = some r.id)
      (fun s => s.vacate now actor)
    workspaces := db.workspaces.updateIn r.scopeId r.workspaceId
      (fun w =>
        if w.activeAttemptId.isSome && w.activeAttemptId = r.activeAttemptId then
          w.vacate now actor
        else w)
    runs := db.runs.updateIn r.scopeId r.id (fun r => r.detach now actor) }

/-- The optional arguments of a change. -/
structure TransitionArgs where
  taskOutcome : Option TaskOutcome := none
  reason : Option String := none
  output : Option String := none
  error : Option (List (String × Json)) := none
  extraData : Option (List (String × Json)) := none

/-- The output of a run, written where it is given. -/
def writeOutput (d : Deployment) (db : Db) (r : RunRow) :
    Option String → StoreM (Option ObjectRef)
  | none => pure none
  | some output => do
      let ref ← writeMessage d (db.baseForSession d r.sessionId) r.sessionId r.id .assistant
        output r.runSeq
      return some ref

/-- The body of `transition_run`. -/
def transitionRunBody (d : Deployment) (scopeId : String) (runId : Uuid) (expectedVersion : Nat)
    (target : RunStatus) (args : TransitionArgs) (actor : String) :
    StoreM (Option RunRow) := do
  let db ← getDb
  let row ← orThrow (db.run scopeId runId) (.domain .runNotFound "Run not found")
  let after ← fromExcept
    (transition row.state target expectedVersion args.taskOutcome args.reason)
  let nowIso ← now d
  let outputRef ← writeOutput d db row args.output
  modifyDb fun db =>
    db.moveRun scopeId runId expectedVersion after outputRef (args.output.map String.length)
      (storedError args.error) nowIso actor
  let _ ← insertEventLocked d scopeId runId (announcedBy target)
    (transitionData d after args.reason outputRef args.error (args.extraData.getD [])) actor
    nowIso
  if after.status.terminal then modifyDb fun db => db.release row nowIso actor
  let db ← getDb
  return db.run scopeId runId

/-- `transition_run` -/
def transitionRun (d : Deployment) (scopeId : String) (runId : Uuid) (expectedVersion : Nat)
    (target : RunStatus) (args : TransitionArgs := {}) (actorRef : Option String := none) :
    StoreM (Option RunRow) :=
  transaction (transitionRunBody d scopeId runId expectedVersion target args
    (textOr actorRef "system:runtime/worker"))

/-- `cancel_run` -/
def cancelRun (d : Deployment) (scopeId : String) (runId : Uuid)
    (actorRef : Option String := none) : StoreM (Option RunRow) := do
  let db ← getDb
  let row ← orThrow (db.run scopeId runId) (.domain .runNotFound "Run not found")
  if row.status.terminal || row.status = .cancelling then return some row
  let actor := textOr actorRef "system:runtime/api"
  let current ← transitionRun d scopeId runId row.stateVersion .cancelling {} (some actor)
  if row.status = .queued then
    let current ← orThrow current (.domain .runNotFound "Run not found")
    transitionRun d scopeId runId current.stateVersion .cancelled {} (some actor)
  else return current

/-! ## Resuming it -/

/-- `_transition_run_locked` -/
def transitionRunLocked (d : Deployment) (scopeId : String) (runId : Uuid) (target : RunStatus)
    (expectedVersion : Nat) (args : TransitionArgs) (actor : String) : StoreM Unit := do
  let db ← getDb
  let row ← orThrow (db.run scopeId runId) (.domain .runNotFound "Run not found")
  let after ← fromExcept
    (transition row.state target expectedVersion args.taskOutcome args.reason)
  let outputRef ← writeOutput d db row args.output
  let updated ← now d
  modifyDb fun db =>
    db.moveRun scopeId runId expectedVersion after outputRef (args.output.map String.length)
      (storedError args.error) updated actor
  let occurredAt ← now d
  let _ ← insertEventLocked d scopeId runId (announcedBy target)
    (if after.status = .queued then .obj [("status", .str after.status.value)] else .obj [])
    actor occurredAt

/-- A pending response, answered. -/
def PendingRow.resolve (p : PendingRow) (responseKey responseDigest : String)
    (payload : ObjectRef) (resolvedAt updated : Timestamp) (actor : String) : PendingRow :=
  { p with
    responseKey := some responseKey, responseDigest := some responseDigest,
    responsePayload := some payload, resolvedAt := some resolvedAt,
    audit := p.audit.update updated actor }

/-- `p.resolved_at` is set. -/
def PendingRow.resolved (p : PendingRow) : Bool :=
  match p.resolvedAt with
  | some t => t ≠ ""
  | none => false

/-- Another response of the run carries the key. -/
def Db.responseKeyTaken (db : Db) (p : PendingRow) (responseKey : String) : Bool :=
  db.pendings.rows.any fun q =>
    q.id ≠ p.id && q.scopeId = p.scopeId && q.runId = p.runId &&
      q.responseKey = some responseKey

/-- `UPDATE pending_responses SET ...` -/
def Db.resolvePending (db : Db) (p : PendingRow) (responseKey responseDigest : String)
    (payload : ObjectRef) (resolvedAt updated : Timestamp) (actor : String) : Db :=
  { db with
    pendings := db.pendings.updateIn p.scopeId p.id
      (fun p => p.resolve responseKey responseDigest payload resolvedAt updated actor)
      }

/-- Write an answer down and resume the run. -/
def resolveResponse (d : Deployment) (p : PendingRow) (run : RunRow) (responseKey : String)
    (expectedStateVersion : Nat) (text actor : String) : StoreM Unit := do
  let db ← getDb
  let payload ← writeObject d (db.baseForSession d run.sessionId) (.response run.sessionId p.id)
    (utf8 (Json.spaced (.obj [("text", .str text)])))
  let resolvedAt ← now d
  let updated ← now d
  ensure (!db.responseKeyTaken p responseKey) (.integrity "pending_responses")
  modifyDb fun db =>
    db.resolvePending p responseKey (fingerprintOf d (.obj [("text", .str text)])) payload
      resolvedAt updated actor
  ensure (run.stateVersion = expectedStateVersion)
    (.domain .stateConflict "Expected state version mismatch")
  transitionRunLocked d run.scopeId run.id .queued expectedStateVersion {} actor

/-- `respond_to_run` -/
def respondToRun (d : Deployment) (scopeId : String) (runId : Uuid) (pendingId : String)
    (responseKey : String) (expectedStateVersion : Nat) (text actor : String) :
    StoreM (Option RunRow) := do
  transaction do
    let db ← getDb
    let p ← orThrow ((db.pendings.getIn scopeId pendingId).filter fun p => p.runId = runId)
      (.domain .runNotFound "Pending response not found")
    let run ← orThrow (db.run scopeId runId) (.domain .runNotFound "Pending response not found")
    if p.resolved then
      ensure (p.responseKey = some responseKey &&
          p.responseDigest = some (fingerprintOf d (.obj [("text", .str text)])))
        (.domain .stateConflict "Response is already resolved")
    else resolveResponse d p run responseKey expectedStateVersion text actor
  let db ← getDb
  return db.run scopeId runId

/-! ## Revisions of a workspace -/

/-- A workspace at a new revision. -/
def WorkspaceRow.revise (w : WorkspaceRow) (revisionId : String) (now : Timestamp)
    (actor : String) : WorkspaceRow :=
  { w with currentRevision := some revisionId, audit := w.audit.update now actor }

/-- The lease ended before an instant. -/
def WorkspaceRow.leaseExpired (w : WorkspaceRow) (now : Timestamp) : Bool :=
  match w.leaseUntil with
  | some t => t ≠ "" && t ≤ now
  | none => false

/-- `record_workspace_revision` -/
def recordWorkspaceRevision (d : Deployment) (scopeId : String) (workspaceId attemptId : Uuid)
    (workspaceEpoch : Nat) (commit : WorkspaceCommit) (actor : String) : StoreM Unit := do
  let now ← now d
  transaction do
    let db ← getDb
    let w ← orThrow (db.workspace scopeId workspaceId)
      (.domain .runNotFound "Workspace not found")
    ensure (w.activeAttemptId = some attemptId && w.workspaceEpoch = workspaceEpoch)
      (.domain .stateConflict "Workspace lease is stale")
    ensure (!w.leaseExpired now) (.domain .stateConflict "Workspace lease has expired")
    let revisions ← orThrow
      (db.revisions.insert?
        { id := commit.revisionId, scopeId, workspaceId, parentId := w.currentRevision,
          manifestDigest := commit.manifestDigest, manifestRef := commit.manifestRef,
          storageRef := commit.storageRef, audit := .insert now actor })
      (.integrity "workspace_revisions")
    modifyDb fun db =>
      { db with
        revisions
        workspaces := db.workspaces.updateIn scopeId workspaceId
          (fun w => w.revise commit.revisionId now actor) }

end CodeForge
