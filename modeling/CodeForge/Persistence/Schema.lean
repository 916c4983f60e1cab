import CodeForge.StateMachine
import CodeForge.Persistence.Content
import CodeForge.Lib.Table

/-!
# The database schema

One record type for each table of schema version 5, with its primary key and
its unique constraints.  The columns a constraint speaks of are never rewritten
by a statement, so a `Table` keeps its constraints by construction; the one
exception, the response key of a pending response, is checked where it is set.

A column that holds a body as a reference keeps the reference.  An event row
also carries the body itself, `data`: the reference of the row leads to a record
with this body, and the invariants say so (`EventRow.Recorded`).

Columns no operation of the model reads are left out: `cancel_requested_at`,
`deadline_at`, `checkpoint_ref`, `external_operation_ref`, `process_ref`, and the
constant `schema_version`.
-/

namespace CodeForge

open Lib

/-- An instant, as the text it is stored as. -/
abbrev Timestamp := String

/-- The audit columns of a row. -/
structure Audit where
  dateCreated : Timestamp
  createdBy : String
  dateUpdated : Timestamp
  updatedBy : String
deriving DecidableEq, Repr

/-- The audit columns of a new row. -/
def Audit.insert (now : Timestamp) (actor : String) : Audit := ⟨now, actor, now, actor⟩

/-- The audit columns after an update. -/
def Audit.update (a : Audit) (now : Timestamp) (actor : String) : Audit :=
  { a with dateUpdated := now, updatedBy := actor }

/-! ## Rows -/

structure WorkspaceRow where
  id : Uuid
  scopeId : String
  storageRef : String
  storageRoot : String
  tenantRef : String
  userRef : String
  userPath : String
  userRelPath : String
  projectRef : String
  projectPath : String
  currentRevision : Option String
  activeAttemptId : Option Uuid
  workspaceEpoch : Nat
  leaseUntil : Option Timestamp
  heartbeatAt : Option Timestamp
  audit : Audit
deriving DecidableEq, Repr

structure RevisionRow where
  id : String
  scopeId : String
  workspaceId : Uuid
  parentId : Option String
  manifestDigest : String
  manifestRef : String
  storageRef : String
  audit : Audit
deriving DecidableEq, Repr

structure SessionRow where
  id : Uuid
  scopeId : String
  workspaceId : Uuid
  title : String
  externalRef : Option String
  threadId : Uuid
  nextRunSeq : Nat
  nextEventSeq : Nat
  executionEpoch : Nat
  activeRunId : Option Uuid
  audit : Audit
deriving DecidableEq, Repr

structure SessionRequestRow where
  scopeId : String
  idempotencyKey : String
  requestFingerprint : String
  sessionId : Uuid
  audit : Audit
deriving DecidableEq, Repr

structure RunRow where
  id : Uuid
  scopeId : String
  sessionId : Uuid
  workspaceId : Uuid
  runSeq : Nat
  idempotencyKey : String
  requestFingerprint : String
  inputRef : ContentPath
  inputDigest : String
  inputChars : Nat
  agentRef : String
  executionContext : ExecutionContext
  configSnapshotRef : ContentPath
  configSnapshotDigest : String
  configSnapshotBytes : Nat
  status : RunStatus
  activeAttemptId : Option Uuid
  stateVersion : Nat
  taskOutcome : Option TaskOutcome
  waitReason : Option String
  outputRef : Option ContentPath
  outputDigest : Option String
  outputChars : Option Nat
  error : Option Json
  dueAt : Timestamp
  nextEventSeq : Nat
  audit : Audit

structure AttemptRow where
  id : Uuid
  scopeId : String
  sessionId : Uuid
  runId : Uuid
  workspaceId : Uuid
  epoch : Nat
  workspaceEpoch : Nat
  workerId : String
  leaseUntil : Timestamp
  heartbeatAt : Timestamp
  workspaceBaseRevision : Option String
  mountSpecRef : String
  workingDirectoryRef : String
  endedAt : Option Timestamp
  audit : Audit
deriving DecidableEq, Repr

structure ToolRow where
  id : Uuid
  scopeId : String
  runId : Uuid
  workspaceId : Uuid
  logicalCallKey : String
  toolRef : String
  paramsDigest : String
  inputRef : String
  inputDigest : Option String
  inputBytes : Option Nat
  status : ToolStatus
  executionProfileRef : String
  resultRef : Option String
  inputRevisionId : Option String
  resultRevisionId : Option String
  error : Option Json
  audit : Audit

structure PendingRow where
  id : String
  scopeId : String
  runId : Uuid
  kind : String
  payloadRef : String
  payloadDigest : String
  payloadBytes : Nat
  responseKey : Option String
  responseDigest : Option String
  responsePayload : Option ObjectRef
  resolvedAt : Option Timestamp
  audit : Audit
deriving DecidableEq, Repr

structure EventRow where
  eventId : Uuid
  scopeId : String
  runId : Uuid
  sessionId : Uuid
  seq : Nat
  sessionSeq : Nat
  type : EventType
  /-- The body `dataRef` leads to. -/
  data : Json
  dataRef : ContentPath
  dataOffset : Nat
  dataBytes : Nat
  dataDigest : String
  occurredAt : Timestamp
  audit : Audit

/-! ## Keys and unique constraints -/

/-- `PRIMARY KEY(id)`, `UNIQUE(scope_id,project_ref)`. -/
instance : Entity WorkspaceRow (Uuid × String × String) String Uuid where
  ident w := (w.id, w.scopeId, w.projectRef)
  scope i := i.2.1
  key i := i.1
  clash i j := i.1 = j.1 || (i.2.1 = j.2.1 && i.2.2 = j.2.2)
  clash_symm i j := by simp only [eq_comm]
  clash_of_key i j h := by simp [h]

/-- `PRIMARY KEY(id)`. -/
instance : Entity RevisionRow (String × String) String String where
  ident r := (r.scopeId, r.id)
  scope i := i.1
  key i := i.2
  clash i j := i.2 = j.2
  clash_symm i j := by simp only [eq_comm]
  clash_of_key i j h := by simp [h]

/-- `PRIMARY KEY(id)`. -/
instance : Entity SessionRow (String × Uuid) String Uuid where
  ident s := (s.scopeId, s.id)
  scope i := i.1
  key i := i.2
  clash i j := i.2 = j.2
  clash_symm i j := by simp only [eq_comm]
  clash_of_key i j h := by simp [h]

/-- `PRIMARY KEY(scope_id,idempotency_key)`. -/
instance : Entity SessionRequestRow (String × String) String (String × String) where
  ident r := (r.scopeId, r.idempotencyKey)
  scope i := i.1
  key i := i
  clash i j := i = j
  clash_symm i j := by simp only [eq_comm]
  clash_of_key i j h := by simp [h]

/-- What the constraints of `runs` speak of. -/
structure RunIdent where
  id : Uuid
  scopeId : String
  sessionId : Uuid
  runSeq : Nat
  idempotencyKey : String

/-- `PRIMARY KEY(id)`, `UNIQUE(scope_id,session_id,run_seq)`,
`UNIQUE(scope_id,session_id,idempotency_key)`. -/
instance : Entity RunRow RunIdent String Uuid where
  ident r := ⟨r.id, r.scopeId, r.sessionId, r.runSeq, r.idempotencyKey⟩
  scope i := i.scopeId
  key i := i.id
  clash i j := i.id = j.id ||
    (i.scopeId = j.scopeId && i.sessionId = j.sessionId &&
      (i.runSeq = j.runSeq || i.idempotencyKey = j.idempotencyKey))
  clash_symm i j := by simp only [eq_comm]
  clash_of_key i j h := by simp [h]

/-- What the constraints of `run_attempts` speak of. -/
structure AttemptIdent where
  id : Uuid
  scopeId : String
  sessionId : Uuid
  workspaceId : Uuid
  epoch : Nat
  workspaceEpoch : Nat

/-- `PRIMARY KEY(id)`, `UNIQUE(scope_id,session_id,epoch)`,
`UNIQUE(scope_id,workspace_id,workspace_epoch)`. -/
instance : Entity AttemptRow AttemptIdent String Uuid where
  ident a := ⟨a.id, a.scopeId, a.sessionId, a.workspaceId, a.epoch, a.workspaceEpoch⟩
  scope i := i.scopeId
  key i := i.id
  clash i j := i.id = j.id ||
    (i.scopeId = j.scopeId && i.sessionId = j.sessionId && i.epoch = j.epoch) ||
    (i.scopeId = j.scopeId && i.workspaceId = j.workspaceId &&
      i.workspaceEpoch = j.workspaceEpoch)
  clash_symm i j := by simp only [eq_comm]
  clash_of_key i j h := by simp [h]

/-- What the constraints of `tool_executions` speak of. -/
structure ToolIdent where
  id : Uuid
  scopeId : String
  runId : Uuid
  logicalCallKey : String

/-- `PRIMARY KEY(id)`, `UNIQUE(scope_id,run_id,logical_call_key)`. -/
instance : Entity ToolRow ToolIdent String Uuid where
  ident t := ⟨t.id, t.scopeId, t.runId, t.logicalCallKey⟩
  scope i := i.scopeId
  key i := i.id
  clash i j := i.id = j.id ||
    (i.scopeId = j.scopeId && i.runId = j.runId && i.logicalCallKey = j.logicalCallKey)
  clash_symm i j := by simp only [eq_comm]
  clash_of_key i j h := by simp [h]

/-- `PRIMARY KEY(id)`. -/
instance : Entity PendingRow (String × String) String String where
  ident p := (p.scopeId, p.id)
  scope i := i.1
  key i := i.2
  clash i j := i.2 = j.2
  clash_symm i j := by simp only [eq_comm]
  clash_of_key i j h := by simp [h]

/-- What the constraints of `run_events` speak of. -/
structure EventIdent where
  eventId : Uuid
  scopeId : String
  runId : Uuid
  sessionId : Uuid
  seq : Nat
  sessionSeq : Nat

/-- `PRIMARY KEY(event_id)`, `UNIQUE(scope_id,run_id,seq)` and the unique index
on `(scope_id,session_id,session_seq)`. -/
instance : Entity EventRow EventIdent String Uuid where
  ident e := ⟨e.eventId, e.scopeId, e.runId, e.sessionId, e.seq, e.sessionSeq⟩
  scope i := i.scopeId
  key i := i.eventId
  clash i j := i.eventId = j.eventId ||
    (i.scopeId = j.scopeId && i.runId = j.runId && i.seq = j.seq) ||
    (i.scopeId = j.scopeId && i.sessionId = j.sessionId && i.sessionSeq = j.sessionSeq)
  clash_symm i j := by simp only [eq_comm]
  clash_of_key i j h := by simp [h]

/-- A scope and an identifier. -/
abbrev Key := String × Uuid

/-- The run of an event. -/
def EventRow.runKey (e : EventRow) : Key := (e.scopeId, e.runId)

/-- The session of an event. -/
def EventRow.sessionKey (e : EventRow) : Key := (e.scopeId, e.sessionId)

@[simp] theorem rowScope_workspace (w : WorkspaceRow) : rowScope w = w.scopeId := rfl
@[simp] theorem rowKey_workspace (w : WorkspaceRow) : rowKey w = w.id := rfl
@[simp] theorem rowScope_session (s : SessionRow) : rowScope s = s.scopeId := rfl
@[simp] theorem rowKey_session (s : SessionRow) : rowKey s = s.id := rfl
@[simp] theorem rowScope_run (r : RunRow) : rowScope r = r.scopeId := rfl
@[simp] theorem rowKey_run (r : RunRow) : rowKey r = r.id := rfl
@[simp] theorem rowScope_attempt (a : AttemptRow) : rowScope a = a.scopeId := rfl
@[simp] theorem rowKey_attempt (a : AttemptRow) : rowKey a = a.id := rfl

theorem rowClash_attempt {a b : AttemptRow} :
    rowClash a b = true ↔ a.id = b.id ∨
      (a.scopeId = b.scopeId ∧ a.sessionId = b.sessionId ∧ a.epoch = b.epoch) ∨
      (a.scopeId = b.scopeId ∧ a.workspaceId = b.workspaceId ∧
        a.workspaceEpoch = b.workspaceEpoch) := by
  change ((decide (a.id = b.id) || _) || _) = true ↔ _
  simp only [Bool.or_eq_true, Bool.and_eq_true, decide_eq_true_eq, or_assoc, and_assoc]
  rfl

theorem rowClash_event {e f : EventRow} :
    rowClash e f = true ↔ e.eventId = f.eventId ∨
      (e.scopeId = f.scopeId ∧ e.runId = f.runId ∧ e.seq = f.seq) ∨
      (e.scopeId = f.scopeId ∧ e.sessionId = f.sessionId ∧ e.sessionSeq = f.sessionSeq) := by
  change ((decide (e.eventId = f.eventId) || _) || _) = true ↔ _
  simp only [Bool.or_eq_true, Bool.and_eq_true, decide_eq_true_eq, or_assoc, and_assoc]
  rfl

/-! ## The database -/

/-- The tables. -/
structure Db where
  workspaces : Table WorkspaceRow := .empty
  revisions : Table RevisionRow := .empty
  sessions : Table SessionRow := .empty
  sessionRequests : Table SessionRequestRow := .empty
  runs : Table RunRow := .empty
  attempts : Table AttemptRow := .empty
  tools : Table ToolRow := .empty
  pendings : Table PendingRow := .empty
  events : Table EventRow := .empty

namespace Db

/-- `SELECT ... FROM workspaces WHERE scope_id = ? AND id = ?` -/
def workspace (db : Db) (scopeId : String) (id : Uuid) : Option WorkspaceRow :=
  db.workspaces.getIn scopeId id

/-- `SELECT ... FROM sessions WHERE scope_id = ? AND id = ?` -/
def session (db : Db) (scopeId : String) (id : Uuid) : Option SessionRow :=
  db.sessions.getIn scopeId id

/-- `SELECT ... FROM runs WHERE scope_id = ? AND id = ?` -/
def run (db : Db) (scopeId : String) (id : Uuid) : Option RunRow :=
  db.runs.getIn scopeId id

/-- `SELECT ... FROM tool_executions WHERE scope_id = ? AND id = ?` -/
def tool (db : Db) (scopeId : String) (id : Uuid) : Option ToolRow :=
  db.tools.getIn scopeId id

theorem workspace_eq_some {db : Db} {scopeId : String} {id : Uuid} {w : WorkspaceRow} :
    db.workspace scopeId id = some w ↔ w ∈ db.workspaces ∧ w.scopeId = scopeId ∧ w.id = id :=
  Table.getIn_eq_some

theorem session_eq_some {db : Db} {scopeId : String} {id : Uuid} {s : SessionRow} :
    db.session scopeId id = some s ↔ s ∈ db.sessions ∧ s.scopeId = scopeId ∧ s.id = id :=
  Table.getIn_eq_some

theorem run_eq_some {db : Db} {scopeId : String} {id : Uuid} {r : RunRow} :
    db.run scopeId id = some r ↔ r ∈ db.runs ∧ r.scopeId = scopeId ∧ r.id = id :=
  Table.getIn_eq_some

theorem tool_eq_some {db : Db} {scopeId : String} {id : Uuid} {t : ToolRow} :
    db.tool scopeId id = some t ↔ t ∈ db.tools ∧ t.scopeId = scopeId ∧ t.id = id :=
  Table.getIn_eq_some

end Db

end CodeForge
