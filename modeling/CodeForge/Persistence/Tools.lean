import CodeForge.Persistence.Runs

/-!
# The tool ledger and the events of callers

A tool execution is prepared, started, writes output and finishes.  Each of the
four operations writes its row and one event of its run in one transaction.  A
revision a row names has to be one of its workspace; the database checks this.

`appendEvent` records an event on behalf of a caller, of any type.
-/

namespace CodeForge

open Lib StoreM

/-- `append_event` -/
def appendEvent (d : Deployment) (scopeId : String) (runId : Uuid) (type : EventType)
    (data : List (String × Json)) (actor : String) : StoreM EventRow :=
  transaction do
    let db ← getDb
    let _ ← orThrow (db.run scopeId runId) (.domain .runNotFound "Run not found")
    let occurredAt ← now d
    insertEventLocked d scopeId runId type (.obj data) actor occurredAt

/-! ## Preparing a tool -/

/-- `SELECT ... FROM tool_executions WHERE ... AND logical_call_key = ?` -/
def Db.calledTool (db : Db) (scopeId : String) (runId : Uuid) (logicalCallKey : String) :
    Option ToolRow :=
  db.tools.rows.find? fun t =>
    t.scopeId = scopeId && t.runId = runId && t.logicalCallKey = logicalCallKey

/-- A revision that may be named: none, or one of the workspace. -/
def Db.hasRevision (db : Db) (scopeId : String) (workspaceId : Uuid) : Option String → Bool
  | none => true
  | some id => db.revisions.rows.any fun r =>
      r.scopeId = scopeId && r.workspaceId = workspaceId && r.id = id

/-- The arguments of `prepare_tool`. -/
structure ToolCall where
  scopeId : String
  runId : Uuid
  logicalCallKey : String
  toolRef : String
  paramsDigest : String
  inputRef : String
  executionProfileRef : String
  inputSummary : String
  workspaceId : Option Uuid := none
  inputRevisionId : Option String := none
  inputText : String := ""

/-- `input_revision_id or run["current_revision"]` -/
def ToolCall.revision (call : ToolCall) (w : WorkspaceRow) : Option String :=
  match call.inputRevisionId with
  | some r => if r = "" then w.currentRevision else some r
  | none => w.currentRevision

/-- The row of a prepared tool. -/
def ToolCall.row (d : Deployment) (call : ToolCall) (id : Uuid) (w : WorkspaceRow)
    (now : Timestamp) (actor : String) : ToolRow where
  id := id
  scopeId := call.scopeId
  runId := call.runId
  workspaceId := w.id
  logicalCallKey := call.logicalCallKey
  toolRef := call.toolRef
  paramsDigest := call.paramsDigest
  inputRef := call.inputRef
  inputDigest := if call.inputText ≠ "" then some (d.sha256 (utf8 call.inputText)) else none
  inputBytes := if call.inputText ≠ "" then some (utf8 call.inputText).length else none
  status := .prepared
  executionProfileRef := call.executionProfileRef
  resultRef := none
  inputRevisionId := call.revision w
  resultRevisionId := none
  error := none
  audit := .insert now actor

/-- The body of `tool.prepared`. -/
def preparedData (d : Deployment) (id : Uuid) (call : ToolCall) : Json :=
  .obj [("operation_id", .str (d.uuidText id)), ("tool_ref", .str call.toolRef),
    ("input_summary", .str call.inputSummary), ("input", .str call.inputText)]

/-- Add the row of a tool. -/
def insertTool (row : ToolRow) : StoreM Unit := do
  let db ← getDb
  ensure (db.hasRevision row.scopeId row.workspaceId row.inputRevisionId)
    (.integrity "tool_executions")
  let tools ← orThrow (db.tools.insert? row) (.integrity "tool_executions")
  modifyDb fun db => { db with tools }

/-- `prepare_tool` -/
def prepareTool (d : Deployment) (call : ToolCall) (actor : String) :
    StoreM (Uuid × ToolStatus) := do
  let now ← now d
  transaction do
    let db ← getDb
    match db.calledTool call.scopeId call.runId call.logicalCallKey with
    | some existing => do
        ensure (existing.paramsDigest = call.paramsDigest)
          (.domain .idempotencyConflict
            "Tool call key is already bound to different parameters")
        return (existing.id, existing.status)
    | none => do
        let run ← orThrow (db.run call.scopeId call.runId)
          (.domain .runNotFound "Run not found")
        let w ← orThrow (db.workspace run.scopeId run.workspaceId)
          (.domain .runNotFound "Run not found")
        ensure (call.workspaceId.getD run.workspaceId = run.workspaceId)
          (.domain .stateConflict "Tool workspace mismatch")
        let id ← uuid4
        insertTool (call.row d id w now actor)
        let _ ← insertEventLocked d call.scopeId call.runId .toolPrepared
          (preparedData d id call) actor now
        return (id, .prepared)

/-! ## Running it -/

/-- `UPDATE tool_executions SET ... WHERE scope_id = ? AND id = ?` -/
def Db.updateTool (db : Db) (scopeId : String) (id : Uuid) (f : ToolRow → ToolRow)
    (hf : ∀ t, Entity.ident (f t) = Entity.ident t := by intro _; exact Eq.trans rfl rfl) : Db :=
  { db with tools := db.tools.updateIn scopeId id f hf }

/-- `start_tool` -/
def startTool (d : Deployment) (scopeId : String) (operationId : Uuid) (actor : String) :
    StoreM Unit := do
  let now ← now d
  transaction do
    let db ← getDb
    let row ← orThrow (db.tool scopeId operationId)
      (.domain .runNotFound "Tool execution not found")
    modifyDb fun db => db.updateTool scopeId operationId
      (fun t => { t with status := .running, audit := t.audit.update now actor })
    let _ ← insertEventLocked d scopeId row.runId .toolStarted
      (.obj [("operation_id", .str (d.uuidText operationId)), ("tool_ref", .str row.toolRef)])
      actor now

/-- `append_tool_output` -/
def appendToolOutput (d : Deployment) (scopeId : String) (operationId : Uuid)
    (stream text : String) (truncated : Bool) (actor : String) : StoreM Unit :=
  transaction do
    let db ← getDb
    let row ← orThrow (db.tool scopeId operationId)
      (.domain .runNotFound "Tool execution not found")
    let occurredAt ← now d
    let _ ← insertEventLocked d scopeId row.runId .toolOutput
      (.obj [("operation_id", .str (d.uuidText operationId)), ("stream", .str stream),
        ("text", .str text), ("truncated", .bool truncated)])
      actor occurredAt

/-- A tool at its end. -/
def ToolRow.finish (t : ToolRow) (status : ToolStatus) (resultRef : Option String)
    (error : Option (List (String × Json))) (resultRevisionId : Option String)
    (now : Timestamp) (actor : String) : ToolRow :=
  { t with
    status := status, resultRef := resultRef, resultRevisionId := resultRevisionId,
    error := storedError error, audit := t.audit.update now actor }

/-- The type of the event a tool's end is announced by. -/
def ToolStatus.announcedBy (status : ToolStatus) : EventType :=
  if status = .unknown then .toolUnknown else .toolFinished

/-- Its body. -/
def finishedToolData (d : Deployment) (id : Uuid) (status : ToolStatus)
    (error : Option (List (String × Json))) : Json :=
  let operation := ("operation_id", Json.str (d.uuidText id))
  if status = .unknown then
    .obj [operation,
      ("reason", ((storedError error).bind fun e => e.get? "message").getD (.str "unknown"))]
  else
    .obj [operation, ("status", .str status.value), ("error", (error.map Json.obj).getD .null)]

/-- `finish_tool` -/
def finishTool (d : Deployment) (scopeId : String) (operationId : Uuid) (status : ToolStatus)
    (resultRef : Option String) (error : Option (List (String × Json))) (actor : String)
    (resultRevisionId : Option String := none) : StoreM Unit := do
  let now ← now d
  transaction do
    let db ← getDb
    let row ← orThrow (db.tool scopeId operationId)
      (.domain .runNotFound "Tool execution not found")
    ensure (db.hasRevision scopeId row.workspaceId resultRevisionId)
      (.integrity "tool_executions")
    modifyDb fun db => db.updateTool scopeId operationId
      (fun t => t.finish status resultRef error resultRevisionId now actor)
    let _ ← insertEventLocked d scopeId row.runId status.announcedBy
      (finishedToolData d operationId status error) actor now

end CodeForge
