import CodeForge.Persistence.Store

/-!
# Sessions and the acceptance of runs

`createSession` finds or makes the workspace of a project, points it at the
paths of the binding it was called with, and adds a session.  `acceptOnce` adds
a run to the queue of a session, at most one for an idempotency key.  Both are
one transaction.
-/

namespace CodeForge

open Lib StoreM

/-- `_fingerprint` -/
def fingerprintOf (d : Deployment) (value : Json) : String := d.sha256 (utf8 value.canonical)

/-! ## Reading a session -/

/-- A session with its workspace. -/
structure SessionView where
  session : SessionRow
  workspace : WorkspaceRow

/-- `get_session` -/
def Db.getSession (db : Db) (scopeId : String) (sessionId : Uuid) : Option SessionView := do
  let session ← db.session scopeId sessionId
  let workspace ← db.workspace session.scopeId session.workspaceId
  return { session, workspace }

/-- `get_session_unscoped` -/
def Db.getSessionUnscoped (db : Db) (sessionId : Uuid) : Option SessionView := do
  let session ← db.sessions.get? sessionId
  let workspace ← db.workspace session.scopeId session.workspaceId
  return { session, workspace }

/-- `SELECT ... FROM workspaces WHERE scope_id = ? AND project_ref = ?` -/
def Db.projectWorkspace (db : Db) (scopeId projectRef : String) : Option WorkspaceRow :=
  db.workspaces.rows.find? fun w => w.scopeId = scopeId && w.projectRef = projectRef

/-! ## Creating a session -/

/-- The workspace already has the paths of the binding. -/
def WorkspaceRow.hasPaths (w : WorkspaceRow) (b : UserBinding) : Bool :=
  w.storageRef = b.projectPath && w.storageRoot = b.storageRoot && w.userPath = b.userPath &&
    w.userRelPath = b.userRelPath && w.projectPath = b.projectPath

/-- The workspace pointed at the paths of a binding. -/
def WorkspaceRow.rebind (w : WorkspaceRow) (b : UserBinding) (now : Timestamp) (actor : String) :
    WorkspaceRow :=
  { w with
    storageRef := b.projectPath, storageRoot := b.storageRoot, userPath := b.userPath,
    userRelPath := b.userRelPath, projectPath := b.projectPath,
    audit := w.audit.update now actor }

/-- The new workspace of a project. -/
def WorkspaceRow.ofBinding (id : Uuid) (scopeId : String) (b : UserBinding) (now : Timestamp)
    (actor : String) : WorkspaceRow where
  id := id
  scopeId := scopeId
  storageRef := b.projectPath
  storageRoot := b.storageRoot
  tenantRef := b.tenantRef
  userRef := b.userRef
  userPath := b.userPath
  userRelPath := b.userRelPath
  projectRef := b.projectRef
  projectPath := b.projectPath
  currentRevision := none
  activeAttemptId := none
  workspaceEpoch := 0
  leaseUntil := none
  heartbeatAt := none
  audit := .insert now actor

/-- The workspace stands for the binding. -/
structure WorkspaceRow.Bound (w : WorkspaceRow) (b : UserBinding) : Prop where
  tenantRef : w.tenantRef = b.tenantRef
  userRef : w.userRef = b.userRef
  userPath : w.userPath = b.userPath
  projectRef : w.projectRef = b.projectRef
  projectPath : w.projectPath = b.projectPath
  storageRoot : w.storageRoot = b.storageRoot
  userRelPath : w.userRelPath = b.userRelPath

theorem WorkspaceRow.Bound.of_new (id : Uuid) (scopeId : String) (b : UserBinding)
    (now : Timestamp) (actor : String) : (WorkspaceRow.ofBinding id scopeId b now actor).Bound b :=
  ⟨rfl, rfl, rfl, rfl, rfl, rfl, rfl⟩

theorem WorkspaceRow.Bound.of_rebind {w : WorkspaceRow} {b : UserBinding}
    (tenant : w.tenantRef = b.tenantRef) (user : w.userRef = b.userRef)
    (project : w.projectRef = b.projectRef) (now : Timestamp) (actor : String) :
    (w.rebind b now actor).Bound b := ⟨tenant, user, rfl, project, rfl, rfl, rfl⟩

theorem WorkspaceRow.Bound.of_hasPaths {w : WorkspaceRow} {b : UserBinding}
    (tenant : w.tenantRef = b.tenantRef) (user : w.userRef = b.userRef)
    (project : w.projectRef = b.projectRef) (h : w.hasPaths b = true) : w.Bound b := by
  simp only [WorkspaceRow.hasPaths, Bool.and_eq_true, decide_eq_true_eq] at h
  obtain ⟨⟨⟨⟨-, root⟩, userPath⟩, rel⟩, path⟩ := h
  exact ⟨tenant, user, userPath, project, path, root, rel⟩

/-- The new workspace of a session without a binding. -/
def WorkspaceRow.legacy (d : Deployment) (id : Uuid) (scopeId : String) (now : Timestamp)
    (actor : String) : WorkspaceRow where
  id := id
  scopeId := scopeId
  storageRef := s!"workspace:{d.uuidText id}"
  storageRoot := ""
  tenantRef := s!"legacy-tenant:{scopeId}"
  userRef := scopeId
  userPath := ""
  userRelPath := ""
  projectRef := s!"legacy-project:{d.uuidText id}"
  projectPath := ""
  currentRevision := none
  activeAttemptId := none
  workspaceEpoch := 0
  leaseUntil := none
  heartbeatAt := none
  audit := .insert now actor

/-- Add a workspace. -/
def insertWorkspace (w : WorkspaceRow) : StoreM Uuid := do
  let db ← getDb
  let workspaces ← orThrow (db.workspaces.insert? w) (.integrity "workspaces")
  modifyDb fun db => { db with workspaces }
  return w.id

/-- Point a workspace at the paths of a binding, if it is not there yet. -/
def rebindWorkspace (scopeId : String) (w : WorkspaceRow) (b : UserBinding) (now : Timestamp)
    (actor : String) : StoreM Unit :=
  if w.hasPaths b then pure ()
  else modifyDb fun db =>
    { db with
      workspaces := db.workspaces.updateIn scopeId w.id (fun v => v.rebind b now actor) }

/-- The workspace of a new session: the one of the project, or a new one. -/
def workspaceFor (d : Deployment) (scopeId : String) (binding : Option UserBinding)
    (now : Timestamp) (actor : String) : StoreM Uuid := do
  match binding with
  | some b => do
      let db ← getDb
      match db.projectWorkspace scopeId b.projectRef with
      | some w => do
          ensure (w.tenantRef = b.tenantRef && w.userRef = b.userRef)
            (.domain .idempotencyConflict
              "User project is already bound to a different identity")
          rebindWorkspace scopeId w b now actor
          return w.id
      | none => do
          let id ← uuid4
          insertWorkspace (.ofBinding id scopeId b now actor)
  | none => do
      let id ← uuid4
      insertWorkspace (.legacy d id scopeId now actor)

/-- A new session. -/
def SessionRow.create (id : Uuid) (scopeId : String) (workspaceId : Uuid) (title : String)
    (externalRef : Option String) (now : Timestamp) (actor : String) : SessionRow where
  id := id
  scopeId := scopeId
  workspaceId := workspaceId
  title := title
  externalRef := externalRef
  threadId := id
  nextRunSeq := 1
  nextEventSeq := 1
  executionEpoch := 0
  activeRunId := none
  audit := .insert now actor

/-- The request of `create_session`, as it is fingerprinted. -/
def sessionRequestDict (scopeId idempotencyKey title : String) (externalRef : Option String)
    (context : ExecutionContext) : Json :=
  .obj [("scope_id", .str scopeId), ("idempotency_key", .str idempotencyKey),
    ("title", .str title), ("external_ref", .optStr externalRef), ("context", context.asDict)]

/-- Add a session and the request it answers. -/
def insertSession (session : SessionRow) (request : SessionRequestRow) : StoreM Unit := do
  let db ← getDb
  let sessions ← orThrow (db.sessions.insert? session) (.integrity "sessions")
  let sessionRequests ← orThrow (db.sessionRequests.insert? request)
    (.integrity "session_requests")
  modifyDb fun db => { db with sessions, sessionRequests }

/-- `create_session` -/
def createSession (d : Deployment) (scopeId idempotencyKey title : String)
    (externalRef : Option String) (context : ExecutionContext) :
    StoreM (Option SessionView) := do
  let now ← now d
  let actor := context.actor
  let fingerprint :=
    fingerprintOf d (sessionRequestDict scopeId idempotencyKey title externalRef context)
  let existingId ← transaction do
    let db ← getDb
    match db.sessionRequests.get? (scopeId, idempotencyKey) with
    | some row => do
        ensure (row.requestFingerprint = fingerprint)
          (.domain .idempotencyConflict "Session key is already bound to a different request")
        return row.sessionId
    | none => do
        let sessionId ← uuid4
        let workspaceId ← workspaceFor d scopeId context.userBinding now actor
        insertSession (.create sessionId scopeId workspaceId title externalRef now actor)
          { scopeId, idempotencyKey, requestFingerprint := fingerprint, sessionId,
            audit := .insert now actor }
        return sessionId
  let db ← getDb
  return db.getSession scopeId existingId

/-! ## Accepting a run -/

/-- `SELECT ... FROM runs WHERE scope_id = ? AND session_id = ? AND idempotency_key = ?` -/
def Db.requestedRun (db : Db) (scopeId : String) (sessionId : Uuid) (idempotencyKey : String) :
    Option RunRow :=
  db.runs.rows.find? fun r =>
    r.scopeId = scopeId && r.sessionId = sessionId && r.idempotencyKey = idempotencyKey

/-- A run accepted before, as its caller sees it. -/
def RunRow.reused (r : RunRow) (sessionId : Uuid) : AcceptedRun :=
  { id := r.id, sessionId, status := r.status, stateVersion := r.stateVersion, reused := true }

/-- `find_request` -/
def Db.findRequest (db : Db) (scopeId : String) (sessionId : Uuid) (idempotencyKey : String) :
    Option ExistingRequest :=
  (db.requestedRun scopeId sessionId idempotencyKey).map fun r =>
    { fingerprint := r.requestFingerprint, run := r.reused sessionId }

/-- The binding a workspace row stands for. -/
def WorkspaceRow.storedBinding (host : Host) (w : WorkspaceRow) :
    Except StoreError (Option UserBinding) :=
  if w.projectPath ≠ "" then
    (UserBinding.new host w.userRef w.tenantRef w.userRef w.userPath w.projectRef
      (some w.projectPath) w.storageRoot w.userRelPath "").map some
  else .ok none

/-- `_require_session_binding` -/
def requireSessionBinding (host : Host) (w : WorkspaceRow) (binding : Option UserBinding) :
    Except StoreError Unit := do
  let stored ← w.storedBinding host
  match binding with
  | none =>
      if stored ≠ none then
        throw (.domain .invalidRequest "Session requires its Platform user binding")
  | some b =>
      if stored ≠ some b then
        throw (.domain .idempotencyConflict "Run user binding does not match its Session")

/-- `_content_base` -/
def WorkspaceRow.contentBase (d : Deployment) (w : WorkspaceRow) : String :=
  if w.userPath ≠ "" then w.userPath else d.legacyRoot

/-- The payload of a message file. -/
def messagePayload (d : Deployment) (sessionId runId : Uuid) (role : Role) (content : String)
    (runSeq : Nat) : List UInt8 :=
  utf8 (Json.canonical (.obj [("schema_version", .str "1"),
    ("session_id", .str (d.uuidText sessionId)), ("run_id", .str (d.uuidText runId)),
    ("run_seq", .nat runSeq), ("role", .str role.value), ("content", .str content)]))

/-- `_write_message` -/
def writeMessage (d : Deployment) (base : String) (sessionId runId : Uuid) (role : Role)
    (content : String) (runSeq : Nat) : StoreM ObjectRef :=
  writeObject d base (.message sessionId runId role)
    (messagePayload d sessionId runId role content runSeq)

/-- The payload of a snapshot file. -/
def snapshotPayload (snapshot : RunSnapshot) : List UInt8 := utf8 snapshot.asDict.spaced

/-- `_write_snapshot` -/
def writeSnapshot (d : Deployment) (base : String) (sessionId runId : Uuid)
    (snapshot : RunSnapshot) : StoreM ObjectRef :=
  writeObject d base (.snapshot sessionId runId) (snapshotPayload snapshot)

/-- The body of `run.accepted`. -/
def acceptedData (snapshotRef : ObjectRef) (refText : ContentPath → String) : Json :=
  .obj [("status", .str RunStatus.queued.value),
    ("snapshot_ref", .obj [("ref", .str (refText snapshotRef.ref)),
      ("bytes", .nat snapshotRef.bytes), ("digest", .str snapshotRef.digest)])]

/-- The text of a content path. -/
def ContentPath.text (uuidText : Uuid → String) : ContentPath → String
  | .log s i => s!"sessions/{uuidText s}/{Files.logName i}"
  | .message s r role => s!"sessions/{uuidText s}/messages/{uuidText r}-{role.value}.json"
  | .snapshot s r => s!"sessions/{uuidText s}/snapshots/{uuidText r}.json"
  | .response s p => s!"sessions/{uuidText s}/pending/{p}-response.json"

/-- A new run, in the queue. -/
def RunRow.accept (id : Uuid) (request : RunRequest) (workspaceId : Uuid) (runSeq : Nat)
    (idempotencyKey fingerprint : String) (inputRef snapshotRef : ObjectRef) (now : Timestamp)
    (actor : String) : RunRow where
  id := id
  scopeId := request.context.scopeId
  sessionId := request.sessionId
  workspaceId := workspaceId
  runSeq := runSeq
  idempotencyKey := idempotencyKey
  requestFingerprint := fingerprint
  inputRef := inputRef.ref
  inputDigest := inputRef.digest
  inputChars := request.input.length
  agentRef := request.agentRef
  executionContext := request.context
  configSnapshotRef := snapshotRef.ref
  configSnapshotDigest := snapshotRef.digest
  configSnapshotBytes := snapshotRef.bytes
  status := .queued
  activeAttemptId := none
  stateVersion := 0
  taskOutcome := none
  waitReason := none
  outputRef := none
  outputDigest := none
  outputChars := none
  error := none
  dueAt := now
  nextEventSeq := 1
  audit := .insert now actor

/-- Add a run. -/
def insertRun (run : RunRow) : StoreM Unit := do
  let db ← getDb
  let runs ← orThrow (db.runs.insert? run) (.integrity "runs")
  modifyDb fun db => { db with runs }

/-- Set the next place in the queue of a session. -/
def Db.setNextRunSeq (db : Db) (scopeId : String) (sessionId : Uuid) (n : Nat) (now : Timestamp)
    (actor : String) : Db :=
  { db with
    sessions := db.sessions.updateIn scopeId sessionId
      (fun s => { s with nextRunSeq := n, audit := s.audit.update now actor }) }

/-- Some run of the session is not at its end. -/
def Db.hasActiveRun (db : Db) (scopeId : String) (sessionId : Uuid) : Bool :=
  db.runs.rows.any fun r =>
    r.scopeId = scopeId && r.sessionId = sessionId && !r.status.terminal

/-- `accept_once` -/
def acceptOnce (d : Deployment) (request : RunRequest) (idempotencyKey fingerprint : String)
    (snapshot : RunSnapshot) (rejectIfActive : Bool := false) : StoreM AcceptedRun := do
  let now ← now d
  let actor := request.context.actor
  transaction do
    let db ← getDb
    match db.requestedRun request.context.scopeId request.sessionId idempotencyKey with
    | some existing => do
        ensure (existing.requestFingerprint = fingerprint)
          (.domain .idempotencyConflict "Key is already bound to different input")
        return existing.reused request.sessionId
    | none => do
        let view ← orThrow (db.getSession request.context.scopeId request.sessionId)
          (.domain .sessionNotFound "Session not found")
        fromExcept (requireSessionBinding d.host view.workspace request.context.userBinding)
        ensure (!(rejectIfActive && db.hasActiveRun request.context.scopeId request.sessionId))
          (.domain .messageBusy "Session already has a running message")
        let runId ← uuid4
        let runSeq := view.session.nextRunSeq
        let base := view.workspace.contentBase d
        let inputRef ← writeMessage d base request.sessionId runId .user request.input runSeq
        let snapshotRef ← writeSnapshot d base request.sessionId runId snapshot
        insertRun (.accept runId request view.session.workspaceId runSeq idempotencyKey fingerprint
          inputRef snapshotRef now actor)
        let _ ← insertEventLocked d request.context.scopeId runId .runAccepted
          (acceptedData snapshotRef (ContentPath.text d.uuidText)) actor now
        modifyDb fun db =>
          db.setNextRunSeq request.context.scopeId request.sessionId (runSeq + 1) now actor
        return { id := runId, sessionId := request.sessionId, status := .queued,
                 stateVersion := 0, reused := false }

end CodeForge
