import CodeForge.Harness.Context
import CodeForge.Persistence.References
import CodeForge.Persistence.System
import CodeForge.Skills.Packages

/-!
# Code tools

Both harnesses run the code the model asks for, each with its own copy of one
procedure: prepare and start a tool, execute the operation, record the revision
it made, finish the tool.  What is the same in the copies is `operate`.

A tool that succeeded is written to the ledger as failed where its revision
cannot be recorded.  `_execute_model_code_tool` tells the model about that
status, `_run_code_tool` about the one before.  `_run_code_tool` in turn stops
for a run that was cancelled, where the other copy goes on.  `codeTools_alike_iff`
says when the model is told the same, and the truth.
-/

namespace CodeForge.Harness

open Lib StoreM
open Skills (strip)

/-! ## Operations -/

/-- What an execution backend is asked to run. -/
structure OperationSpec where
  operationId : Uuid
  runId : Uuid
  sessionId : Uuid
  attemptId : Uuid
  workspaceRef : Uuid
  argv : List String
  timeoutSeconds : Nat
  outputLimitBytes : Nat
  environmentProfileRef : String
  userBinding : Option UserBinding
  workspaceEpoch : Nat
  workingDirectory : Option String
  stdinText : Option String

/-- What became of an operation. -/
structure OperationResult where
  status : ToolStatus
  stdoutRef : Option String
  stderrRef : Option String
  workspaceRevision : Option String
  errorCode : Option ErrorCode
  manifestDigest : Option String
  manifestRef : Option String
  storageRef : Option String
  changedPaths : List String

/-- What a harness finds around it. -/
structure Backend where
  /-- `submit`, what the operation reports and what others do meanwhile, and the first result whose
  status is not `RUNNING`. -/
  execute : OperationSpec → StoreM OperationResult
  /-- The text of a log, none where there is no file. -/
  logs : String → Option String

/-- The languages of the tools.  The copies know no other `tool_ref` from their callers. -/
inductive CodeTool where
  | python
  | command
deriving DecidableEq, Repr

/-- `tool_ref` -/
def CodeTool.ref : CodeTool → String
  | .python => "python"
  | .command => "command"

/-- What executes the code. -/
def CodeTool.argv : CodeTool → List String
  | .python => ["python3", "-"]
  | .command => ["/bin/bash", "-s"]

/-- The arguments of a copy, with what it reads of the run. -/
structure CodeCall where
  scopeId : String
  runId : Uuid
  sessionId : Uuid
  configSnapshot : Json
  attemptId : Uuid
  workspaceId : Uuid
  workspaceEpoch : Nat
  userBinding : Option UserBinding
  workingDirectory : Option String
  tool : CodeTool
  code : String
  skillName : String
  actor : String

/-- `_read_log` -/
def readLog (env : Backend) : Option String → String
  | none => ""
  | some ref => if ref = "" then "" else (env.logs ref).getD ""

/-- `_read_log(ref).strip()` -/
def logText (env : Backend) (ref : Option String) : String :=
  String.ofList (strip isSpace (readLog env ref).toList)

/-- `_skill_version` -/
def skillVersion (configSnapshot : Json) (name : String) : Json :=
  let items := match configSnapshot.get? "skills" with
    | some (.arr items) => items
    | _ => []
  let named := items.find? fun item =>
    match item.get? "name" with
    | some (.str s) => s = name
    | _ => false
  (named.map fun item => (item.get? "version").getD (.str "")).getD (.str "")

/-- `build_operation_spec` -/
def buildOperationSpec (call : CodeCall) (operationId : Uuid) : OperationSpec where
  operationId
  runId := call.runId
  sessionId := call.sessionId
  attemptId := call.attemptId
  workspaceRef := call.workspaceId
  argv := call.tool.argv
  timeoutSeconds := 30
  outputLimitBytes := 256 * 1024
  environmentProfileRef := "local@1"
  userBinding := call.userBinding
  workspaceEpoch := call.workspaceEpoch
  workingDirectory :=
    match call.workingDirectory with
    | some dir => if dir = "" then call.userBinding.map (·.projectPath) else some dir
    | none => call.userBinding.map (·.projectPath)
  stdinText := some call.code

/-- `persist_workspace_commit` -/
def persistWorkspaceCommit (d : Deployment) (result : OperationResult) (call : CodeCall) :
    StoreM (Option WorkspaceCommit) := do
  match result.workspaceRevision with
  | none => return none
  | some revisionId =>
      match result.manifestDigest, result.manifestRef, result.storageRef with
      | some manifestDigest, some manifestRef, some storageRef => do
          let commit : WorkspaceCommit := { revisionId, manifestDigest, manifestRef, storageRef }
          recordWorkspaceRevision d call.scopeId call.workspaceId call.attemptId
            call.workspaceEpoch commit call.actor
          return some commit
      | _, _, _ =>
          throw (.domain .executionFailed "Tool committed files without revision metadata")

/-- `try ... except DomainError` -/
def tryDomain {α : Type} (x : StoreM α) : StoreM (Except (ErrorCode × String) α) := fun s =>
  match x s with
  | .ok a s' => .ok (.ok a) s'
  | .error (.domain code message) s' => .ok (.error (code, message)) s'
  | .error e s' => .error e s'

/-! ## What the copies share -/

/-- An operation that was run: its result, what became of its revision, and the status
`finish_tool` was given for it. -/
structure Ended where
  operationId : Uuid
  result : OperationResult
  committed : Except (ErrorCode × String) (Option WorkspaceCommit)
  status : ToolStatus

/-- `{"code": ..., "message": ...}` -/
def toolError (code message : String) : List (String × Json) :=
  [("code", .str code), ("message", .str message)]

/-- The error of a tool that did not succeed. -/
def errorOf (env : Backend) (result : OperationResult)
    (committed : Except (ErrorCode × String) (Option WorkspaceCommit)) :
    Option (List (String × Json)) :=
  match committed with
  | .error (code, message) => some (toolError code.value message)
  | .ok _ =>
      if result.status = .succeeded then none
      else
        let message := logText env result.stderrRef
        some (toolError ((result.errorCode.map ErrorCode.value).getD "EXECUTION_FAILED")
          (if message = "" then "Tool failed" else message))

/-- The status of a tool: failed, where its revision was not recorded. -/
def statusOf (result : OperationResult)
    (committed : Except (ErrorCode × String) (Option WorkspaceCommit)) : ToolStatus :=
  match committed with
  | .error _ => .failed
  | .ok _ => result.status

/-- `skill_finished_status` -/
def skillFinishedStatus (status : ToolStatus) : ToolStatus :=
  if status = .succeeded ∨ status = .failed ∨ status = .cancelled then status else .failed

/-- The call the ledger is given.  `hex` is drawn for it. -/
def toolCall (d : Deployment) (call : CodeCall) (hex : Uuid) (inputSummary : String) : ToolCall :=
  let attempt := d.uuidText call.attemptId
  let logicalKey := call.tool.ref ++ ":" ++ attempt ++ ":" ++
    String.ofList ((d.uuidText hex).toList.filter (· ≠ '-'))
  { scopeId := call.scopeId, runId := call.runId, logicalCallKey := logicalKey,
    toolRef := call.tool.ref,
    paramsDigest := d.sha256 (utf8 (call.tool.ref ++ "\x00" ++ call.code)),
    inputRef := "local-stdin:" ++ attempt ++ ":" ++ logicalKey,
    executionProfileRef := "local@1", inputSummary, workspaceId := some call.workspaceId,
    inputText := call.code }

/-- An event of the skill a call names, if it names one. -/
def skillEvent (d : Deployment) (call : CodeCall) (operationId : Uuid) (type : EventType)
    (more : List (String × Json)) : StoreM Unit :=
  if call.skillName = "" then pure ()
  else do
    let _ ← appendEvent d call.scopeId call.runId type
      ([("name", .str call.skillName), ("version", skillVersion call.configSnapshot call.skillName),
        ("operation_id", .str (d.uuidText operationId))] ++ more) call.actor
    return ()

/-- Recording the revision of a tool that succeeded. -/
def commitResult (d : Deployment) (result : OperationResult) (call : CodeCall) :
    StoreM (Except (ErrorCode × String) (Option WorkspaceCommit)) :=
  if result.status = .succeeded then tryDomain (persistWorkspaceCommit d result call)
  else pure (.ok none)

/-- `result_revision_id` -/
def revisionOf : Except (ErrorCode × String) (Option WorkspaceCommit) → Option String
  | .ok (some commit) => some commit.revisionId
  | _ => none

/-- The event of a revision that was recorded. -/
def committedEvent (d : Deployment) (call : CodeCall) (changedPaths : List String)
    (revision : Option String) : StoreM Unit :=
  match revision with
  | none => pure ()
  | some id =>
      if id = "" then pure ()
      else do
        let _ ← appendEvent d call.scopeId call.runId .workspaceCommitted
          [("revision_id", .str id), ("changed_paths", .arr (changedPaths.map .str))] call.actor
        return ()

/-- From `prepare_tool` to the event after `finish_tool`. -/
def operate (d : Deployment) (env : Backend) (call : CodeCall) (inputSummary : String) :
    StoreM Ended := do
  let hex ← uuid4
  let (operationId, _) ← prepareTool d (toolCall d call hex inputSummary) call.actor
  startTool d call.scopeId operationId call.actor
  skillEvent d call operationId .skillStarted []
  let result ← env.execute (buildOperationSpec call operationId)
  let committed ← commitResult d result call
  committedEvent d call result.changedPaths (revisionOf committed)
  let status := statusOf result committed
  finishTool d call.scopeId operationId status result.stdoutRef (errorOf env result committed)
    call.actor (revisionOf committed)
  skillEvent d call operationId .skillFinished
    [("status", .str (skillFinishedStatus status).value)]
  return { operationId, result, committed, status }

/-! ## Both copies -/

/-- The first text that is not empty. -/
def said (stdout stderr otherwise_ : String) : String :=
  if stdout ≠ "" then stdout else if stderr ≠ "" then stderr else otherwise_

/-- What is said of a status. -/
def remark (status : ToolStatus) : String :=
  if status = .succeeded then "Tool executed successfully." else "Tool failed."

/-- An answer of a copy, and the operation it ran, if any. -/
structure Told (α : Type) where
  answer : α
  ended : Option Ended

/-- The status of the run as `get_run` gives it. -/
def runStatus (call : CodeCall) : StoreM (Option RunStatus) := do
  let db ← getDb
  return (db.run call.scopeId call.runId).map (·.status)

/-- `LangGraphHarness._run_code_tool` -/
def runCodeTool (d : Deployment) (env : Backend) (call : CodeCall) : StoreM (Told String) :=
  if isBlank call.code then return ⟨"Tool arguments are empty", none⟩
  else do
    let current ← runStatus call
    if current = none ∨ current = some .cancelling ∨ current = some .cancelled then
      return ⟨"Run was cancelled", none⟩
    else do
      let ended ← operate d env call ("langgraph " ++ call.tool.ref ++ " call")
      return ⟨said (logText env ended.result.stdoutRef) (logText env ended.result.stderrRef)
        (remark ended.result.status), some ended⟩

/-- `LocalDeterministicHarness._execute_model_code_tool` -/
def executeModelCodeTool (d : Deployment) (env : Backend) (call : CodeCall) :
    StoreM (Told (ToolStatus × String × String)) :=
  if isBlank call.code then return ⟨(.failed, "", "Tool arguments are empty"), none⟩
  else do
    let current ← runStatus call
    if current = none ∨ current = some .cancelling then
      return ⟨(.cancelled, "", "Run was cancelled"), none⟩
    else do
      let ended ← operate d env call ("model " ++ call.tool.ref ++ " call")
      return ⟨(ended.status, logText env ended.result.stdoutRef,
        logText env ended.result.stderrRef), some ended⟩

/-- The content of the message of `_tools_node`. -/
def toolsNodeContent (d : Deployment) (env : Backend) (call : CodeCall) : StoreM (Told String) := do
  let told ← runCodeTool d env call
  return ⟨cut 16000 told.answer, told.ended⟩

/-- The content of the message of `_run_model_loop`. -/
def modelLoopContent (d : Deployment) (env : Backend) (call : CodeCall) : StoreM (Told String) := do
  let told ← executeModelCodeTool d env call
  return ⟨cut 16000 (said told.answer.2.1 told.answer.2.2 (remark told.answer.1)), told.ended⟩

/-! ## What the copies come to -/

variable {d : Deployment} {env : Backend} {call : CodeCall} {s s' : Store}

/-- What an operation that was run has been through. -/
theorem operate_eq_ok {summary : String} {e : Ended}
    (h : operate d env call summary s = .ok e s') :
    e.status = statusOf e.result e.committed ∧
      ∃ s₁ s₂ s₃, env.execute (buildOperationSpec call e.operationId) s₁ = .ok e.result s₂ ∧
        commitResult d e.result call s₂ = .ok e.committed s₃ := by
  rw [operate, uuid4_bind_eq_ok] at h
  obtain ⟨⟨operationId, _⟩, _, -, h⟩ := bind_eq_ok.1 h
  obtain ⟨_, _, -, h⟩ := bind_eq_ok.1 h
  obtain ⟨_, s₁, -, h⟩ := bind_eq_ok.1 h
  obtain ⟨result, s₂, executed, h⟩ := bind_eq_ok.1 h
  obtain ⟨committed, s₃, recorded, h⟩ := bind_eq_ok.1 h
  obtain ⟨_, _, -, h⟩ := bind_eq_ok.1 h
  obtain ⟨_, _, -, h⟩ := bind_eq_ok.1 h
  obtain ⟨_, _, -, h⟩ := bind_eq_ok.1 h
  obtain ⟨rfl, -⟩ := pure_eq_ok.1 h
  exact ⟨rfl, s₁, s₂, s₃, executed, recorded⟩

/-- A short text is not cut, and nothing longer is cut to it. -/
theorem cut_eq_iff {n : Nat} {text short : String} (h : short.length < n) :
    cut n text = short ↔ text = short := by
  have lengths : ∀ t : String, t.length = t.toList.length := fun t => String.length_toList.symm
  rw [lengths] at h
  constructor
  · intro same
    have chars : text.toList.take n = short.toList := by rw [← same, cut, String.toList_ofList]
    have all : text.toList.length ≤ n := by
      have := congrArg List.length chars
      rw [List.length_take] at this
      omega
    rw [List.take_of_length_le all] at chars
    exact String.toList_inj.1 chars
  · rintro rfl
    rw [cut, List.take_of_length_le (Nat.le_of_lt h), String.ofList_toList]

/-- `_run_code_tool` and `_execute_model_code_tool` find nothing to run. -/
def Stopped (status : Option RunStatus) : Prop := status = none ∨ status = some .cancelling

/-- The status of the run of a call. -/
def statusIn (s : Store) (call : CodeCall) : Option RunStatus :=
  (s.db.run call.scopeId call.runId).map (·.status)

/-- What the model is told by `_run_code_tool`. -/
theorem toolsNodeContent_eq_ok {t : Told String} (h : toolsNodeContent d env call s = .ok t s') :
    (isBlank call.code = true ∧ t = ⟨"Tool arguments are empty", none⟩) ∨
      (isBlank call.code = false ∧
        (Stopped (statusIn s call) ∨ statusIn s call = some .cancelled) ∧
        t = ⟨"Run was cancelled", none⟩) ∨
      (isBlank call.code = false ∧ ¬ Stopped (statusIn s call) ∧
        statusIn s call ≠ some .cancelled ∧ ∃ e summary, operate d env call summary s = .ok e s' ∧
          t = ⟨cut 16000 (said (logText env e.result.stdoutRef) (logText env e.result.stderrRef)
            (remark e.result.status)), some e⟩) := by
  obtain ⟨told, s₁, h, done⟩ := bind_eq_ok.1 h
  obtain ⟨rfl, rfl⟩ := pure_eq_ok.1 done
  rw [runCodeTool] at h
  cases blank : isBlank call.code with
  | true =>
      rw [if_pos blank] at h
      obtain ⟨rfl, -⟩ := pure_eq_ok.1 h
      exact .inl ⟨rfl, congrArg (Told.mk · none) ((cut_eq_iff (by decide)).2 rfl)⟩
  | false =>
      rw [if_neg (by simp [blank])] at h
      obtain ⟨current, s₂, read, h⟩ := bind_eq_ok.1 h
      rw [runStatus, getDb_bind_eq_ok] at read
      obtain ⟨rfl, rfl⟩ := pure_eq_ok.1 read
      split at h
      next stop =>
        obtain ⟨rfl, -⟩ := pure_eq_ok.1 h
        refine .inr (.inl ⟨rfl, ?_, congrArg (Told.mk · none) ((cut_eq_iff (by decide)).2 rfl)⟩)
        rw [Stopped, or_assoc]
        exact stop
      next go =>
        obtain ⟨e, s₃, ran, h⟩ := bind_eq_ok.1 h
        obtain ⟨rfl, rfl⟩ := pure_eq_ok.1 h
        dsimp only
        refine .inr (.inr ⟨rfl, fun stop => go ?_, fun cancelled => go (.inr (.inr cancelled)),
          e, _, ran, rfl⟩)
        rw [← or_assoc]
        exact .inl stop

/-- What the model is told by `_execute_model_code_tool`. -/
theorem modelLoopContent_eq_ok {t : Told String} (h : modelLoopContent d env call s = .ok t s') :
    (isBlank call.code = true ∧ t = ⟨"Tool arguments are empty", none⟩) ∨
      (isBlank call.code = false ∧ Stopped (statusIn s call) ∧ t = ⟨"Run was cancelled", none⟩) ∨
      (isBlank call.code = false ∧ ¬ Stopped (statusIn s call) ∧
        ∃ e summary, operate d env call summary s = .ok e s' ∧
          t = ⟨cut 16000 (said (logText env e.result.stdoutRef) (logText env e.result.stderrRef)
            (remark e.status)), some e⟩) := by
  obtain ⟨told, s₁, h, done⟩ := bind_eq_ok.1 h
  obtain ⟨rfl, rfl⟩ := pure_eq_ok.1 done
  rw [executeModelCodeTool] at h
  cases blank : isBlank call.code with
  | true =>
      rw [if_pos blank] at h
      obtain ⟨rfl, -⟩ := pure_eq_ok.1 h
      exact .inl ⟨rfl, congrArg (Told.mk · none) ((cut_eq_iff (by decide)).2 rfl)⟩
  | false =>
      rw [if_neg (by simp [blank])] at h
      obtain ⟨current, s₂, read, h⟩ := bind_eq_ok.1 h
      rw [runStatus, getDb_bind_eq_ok] at read
      obtain ⟨rfl, rfl⟩ := pure_eq_ok.1 read
      split at h
      next stop =>
        obtain ⟨rfl, -⟩ := pure_eq_ok.1 h
        exact .inr (.inl ⟨rfl, stop, congrArg (Told.mk · none) ((cut_eq_iff (by decide)).2 rfl)⟩)
      next go =>
        obtain ⟨e, s₃, ran, h⟩ := bind_eq_ok.1 h
        obtain ⟨rfl, rfl⟩ := pure_eq_ok.1 h
        exact .inr (.inr ⟨rfl, go, e, _, ran, rfl⟩)

theorem toolsNodeContent_ended {t : Told String} {e : Ended}
    (h : toolsNodeContent d env call s = .ok t s') (ended : t.ended = some e) :
    ∃ summary, operate d env call summary s = .ok e s' := by
  rcases toolsNodeContent_eq_ok h with ⟨-, rfl⟩ | ⟨-, -, rfl⟩ | ⟨-, -, -, e', summary, ran, rfl⟩
  · cases ended
  · cases ended
  · cases ended
    exact ⟨summary, ran⟩

theorem modelLoopContent_ended {t : Told String} {e : Ended}
    (h : modelLoopContent d env call s = .ok t s') (ended : t.ended = some e) :
    ∃ summary, operate d env call summary s = .ok e s' := by
  rcases modelLoopContent_eq_ok h with ⟨-, rfl⟩ | ⟨-, -, rfl⟩ | ⟨-, -, e', summary, ran, rfl⟩
  · cases ended
  · cases ended
  · cases ended
    exact ⟨summary, ran⟩

/-! ## The ledger -/

theorem skillEvent_keeps (operationId : Uuid) (type : EventType) (more : List (String × Json)) :
    Keeps Db.tools (skillEvent d call operationId type more) := by
  rw [skillEvent]
  refine .ite (.pure _) (.bind (.transaction ?_) fun _ => .pure _)
  exact .bind .getDb fun _ => .bind (.orThrow _ _) fun _ => .bind (.now d) fun _ =>
    insertEventLocked_keeps (fun _ _ _ _ _ => rfl) _ _ _ _ _ _

/-- `finish_tool` leaves the row of the tool with the status it was given. -/
theorem finishTool_status {scopeId : String} {operationId : Uuid} {status : ToolStatus}
    {resultRef : Option String} {error : Option (List (String × Json))} {actor : String}
    {resultRevisionId : Option String}
    (h : finishTool d scopeId operationId status resultRef error actor resultRevisionId s =
      .ok () s') :
    (s'.db.tool scopeId operationId).map (·.status) = some status := by
  rw [finishTool, now_bind_eq_ok] at h
  rw [transaction_eq_ok] at h
  simp only [getDb_bind_eq_ok, orThrow_bind_eq_ok, ensure_bind_eq_ok, modifyDb_bind_eq_ok] at h
  obtain ⟨row, found, -, h⟩ := h
  obtain ⟨_, _, recorded, h⟩ := bind_eq_ok.1 h
  obtain ⟨-, rfl⟩ := pure_eq_ok.1 h
  have kept : Keeps Db.tools (insertEventLocked d scopeId row.runId status.announcedBy
      (finishedToolData d operationId status error) actor (d.clock s.ticks)) :=
    insertEventLocked_keeps (fun _ _ _ _ _ => rfl) _ _ _ _ _ _
  rw [Db.tool, kept.of_ok recorded]
  have finished := Table.getIn_updateIn_of found
    (fun t => t.finish status resultRef error resultRevisionId (d.clock s.ticks) actor)
    fun _ => rfl
  exact congrArg (Option.map (·.status)) finished

/-- What the ledger says of a tool that was run. -/
theorem operate_ledger {summary : String} {e : Ended}
    (h : operate d env call summary s = .ok e s') :
    (s'.db.tool call.scopeId e.operationId).map (·.status) = some e.status := by
  rw [operate, uuid4_bind_eq_ok] at h
  obtain ⟨⟨operationId, _⟩, _, -, h⟩ := bind_eq_ok.1 h
  obtain ⟨_, _, -, h⟩ := bind_eq_ok.1 h
  obtain ⟨_, _, -, h⟩ := bind_eq_ok.1 h
  obtain ⟨result, _, -, h⟩ := bind_eq_ok.1 h
  obtain ⟨committed, _, -, h⟩ := bind_eq_ok.1 h
  obtain ⟨_, _, -, h⟩ := bind_eq_ok.1 h
  obtain ⟨_, _, finished, h⟩ := bind_eq_ok.1 h
  obtain ⟨_, _, announced, h⟩ := bind_eq_ok.1 h
  obtain ⟨rfl, rfl⟩ := pure_eq_ok.1 h
  rw [Db.tool, (skillEvent_keeps _ _ _).of_ok announced]
  exact finishTool_status finished

/-! ## The truth about a tool -/

/-- The model is told of a success only if the ledger says so. -/
def Told.Honest (t : Told String) : Prop :=
  t.answer = "Tool executed successfully." → ∃ e, t.ended = some e ∧ e.status = .succeeded

/-- The logs say a text, which may be none. -/
def Speaks (env : Backend) (result : OperationResult) (text : String) : Prop :=
  said (logText env result.stdoutRef) (logText env result.stderrRef) "" = text

/-- When both copies tell the model the same, and the truth: nothing is run for either, or neither
finds the run cancelled, a tool without output that succeeded has its revision recorded, and no
other tool's output claims the success.  Output that speaks of the cancellation itself makes up for
the first. -/
def Alike (env : Backend) (call : CodeCall) (status : Option RunStatus) (result : OperationResult)
    (committed : Bool) : Prop :=
  isBlank call.code = true ∨ Stopped status ∨
    (status = some .cancelled → Speaks env result "Run was cancelled") ∧
      (Speaks env result "" → result.status = .succeeded → committed = true) ∧
      (Speaks env result "Tool executed successfully." →
        result.status = .succeeded ∧ committed = true)

theorem said_eq (stdout stderr text : String) :
    said stdout stderr text =
      if said stdout stderr "" = "" then text else said stdout stderr "" := by
  unfold said
  by_cases first : stdout = ""
  · by_cases second : stderr = "" <;> simp [first, second]
  · simp [first]

theorem remark_eq_iff {status : ToolStatus} :
    remark status = "Tool executed successfully." ↔ status = .succeeded := by
  cases status <;> decide

theorem remark_ne_cancelled (status : ToolStatus) : remark status ≠ "Run was cancelled" := by
  cases status <;> decide

/-- The ledger says that a tool succeeded if it did and its revision was recorded. -/
theorem statusOf_eq_iff {result : OperationResult}
    {committed : Except (ErrorCode × String) (Option WorkspaceCommit)} :
    statusOf result committed = .succeeded ↔
      result.status = .succeeded ∧ committed.isOk = true := by
  cases committed with
  | error e => simp [statusOf, Except.isOk, Except.toBool]
  | ok commit => simp [statusOf, Except.isOk, Except.toBool]

/-- The model is told of a success by the remark, where the logs are silent, or by the logs. -/
theorem success_iff {stdout stderr : String} {status : ToolStatus} :
    cut 16000 (said stdout stderr (remark status)) = "Tool executed successfully." ↔
      (said stdout stderr "" = "" ∧ status = .succeeded) ∨
        said stdout stderr "" = "Tool executed successfully." := by
  rw [cut_eq_iff (by decide), said_eq]
  by_cases silent : said stdout stderr "" = ""
  · simp [silent, remark_eq_iff]
  · simp [silent]

/-- Nothing but the logs speaks of the cancellation. -/
theorem cancelled_iff {stdout stderr : String} {status : ToolStatus} :
    cut 16000 (said stdout stderr (remark status)) = "Run was cancelled" ↔
      said stdout stderr "" = "Run was cancelled" := by
  rw [cut_eq_iff (by decide), said_eq]
  by_cases silent : said stdout stderr "" = ""
  · simp [silent, remark_ne_cancelled]
  · simp [silent]

/-- The texts of two statuses are the same where the logs speak, or where both statuses call for the
same remark. -/
theorem texts_eq_iff {stdout stderr : String} {status status₂ : ToolStatus} :
    cut 16000 (said stdout stderr (remark status)) =
        cut 16000 (said stdout stderr (remark status₂)) ↔
      (said stdout stderr "" = "" → (status = .succeeded ↔ status₂ = .succeeded)) := by
  rw [said_eq stdout stderr (remark status), said_eq stdout stderr (remark status₂)]
  by_cases silent : said stdout stderr "" = ""
  · simp only [silent, ↓reduceIte, forall_const]
    cases status <;> cases status₂ <;> decide
  · simp [silent]

/-- What both copies say of operations with the same result. -/
theorem operated_alike_iff {stdout stderr : String} {status : ToolStatus} {committed : Bool}
    {e e₂ : Ended} (ledger : e.status = .succeeded ↔ status = .succeeded ∧ committed = true)
    (ledger₂ : e₂.status = .succeeded ↔ status = .succeeded ∧ committed = true) :
    (cut 16000 (said stdout stderr (remark status)) =
          cut 16000 (said stdout stderr (remark e₂.status)) ∧
        Told.Honest ⟨cut 16000 (said stdout stderr (remark status)), some e⟩ ∧
        Told.Honest ⟨cut 16000 (said stdout stderr (remark e₂.status)), some e₂⟩) ↔
      (said stdout stderr "" = "" → status = .succeeded → committed = true) ∧
        (said stdout stderr "" = "Tool executed successfully." →
          status = .succeeded ∧ committed = true) := by
  simp only [texts_eq_iff, Told.Honest, success_iff, Option.some.injEq, exists_eq_left', ledger₂,
    ledger]
  constructor
  · intro ⟨same, truth, _⟩
    exact ⟨fun silent succeeded => ((same silent).1 succeeded).2, fun claims => truth (.inr claims)⟩
  · intro ⟨recorded, claimed⟩
    refine ⟨fun silent => ⟨fun succeeded => ⟨succeeded, recorded silent succeeded⟩, And.left⟩,
      ?_, ?_⟩
    · intro told
      cases told with
      | inl quiet => exact ⟨quiet.2, recorded quiet.1 quiet.2⟩
      | inr claims => exact claimed claims
    · intro told
      cases told with
      | inl quiet => exact quiet.2
      | inr claims => exact claimed claims

/-- **When both harnesses tell the model the truth about a tool.**  The copies may run anywhere;
what they have in common is the status the run had, the result of the operation, with its logs, and
whether `persist_workspace_commit` returned. -/
theorem codeTools_alike_iff (d : Deployment) (env : Backend) (call : CodeCall)
    (status : Option RunStatus) (result : OperationResult) (committed : Bool)
    {s s' s₂ s₂' : Store} {g l : Told String}
    (tools : toolsNodeContent d env call s = .ok g s')
    (loop : modelLoopContent d env call s₂ = .ok l s₂')
    (read : statusIn s call = status) (read₂ : statusIn s₂ call = status)
    (learnt : ∀ e, g.ended = some e ∨ l.ended = some e →
      e.result = result ∧ e.committed.isOk = committed) :
    (g.answer = l.answer ∧ g.Honest ∧ l.Honest) ↔ Alike env call status result committed := by
  have empty : ¬ "Tool arguments are empty" = "Tool executed successfully." := by decide
  have stopped : ¬ "Run was cancelled" = "Tool executed successfully." := by decide
  have plain : ∀ {answer : String} {e : Option Ended}, ¬ answer = "Tool executed successfully." →
      Told.Honest ⟨answer, e⟩ := fun other same => absurd same other
  subst read
  rcases toolsNodeContent_eq_ok tools with
    ⟨blank, rfl⟩ | ⟨code, stop, rfl⟩ | ⟨code, go, alive, e, summary, ran, rfl⟩
  · rcases modelLoopContent_eq_ok loop with ⟨-, rfl⟩ | ⟨code, -⟩ | ⟨code, -⟩
    · exact ⟨fun _ => .inl blank, fun _ => ⟨rfl, plain empty, plain empty⟩⟩
    · rw [blank] at code
      cases code
    · rw [blank] at code
      cases code
  · rcases modelLoopContent_eq_ok loop with ⟨blank, -⟩ | ⟨-, stop', rfl⟩ | ⟨-, go, e, -, -, rfl⟩
    · rw [code] at blank
      cases blank
    · rw [read₂] at stop'
      exact ⟨fun _ => .inr (.inl stop'), fun _ => ⟨rfl, plain stopped, plain stopped⟩⟩
    · -- the run is `CANCELLED`, and only one copy looks for that
      have cancelled := stop.resolve_left (read₂ ▸ go)
      obtain ⟨rfl, -⟩ := learnt e (.inr rfl)
      constructor
      · intro ⟨same, _⟩
        have speaks := cancelled_iff.1 same.symm
        refine .inr (.inr ⟨fun _ => speaks, fun silent => ?_, fun claims => ?_⟩)
        · exact absurd (speaks.symm.trans silent) (by decide)
        · exact absurd (speaks.symm.trans claims) stopped
      · intro alike
        rcases alike with blank | stop' | ⟨speaks, -⟩
        · rw [code] at blank
          cases blank
        · exact absurd stop' (read₂ ▸ go)
        · have same := (@cancelled_iff _ _ e.status).2 (speaks cancelled)
          exact ⟨same.symm, plain stopped, plain (same ▸ stopped)⟩
  · rcases modelLoopContent_eq_ok loop with
      ⟨blank, -⟩ | ⟨-, stop, -⟩ | ⟨-, -, e₂, summary₂, ran₂, rfl⟩
    · rw [code] at blank
      cases blank
    · exact absurd (read₂ ▸ stop) go
    · obtain ⟨rfl, recorded⟩ := learnt e (.inl rfl)
      obtain ⟨same, recorded₂⟩ := learnt e₂ (.inr rfl)
      have ledger : e.status = .succeeded ↔ e.result.status = .succeeded ∧ committed = true := by
        rw [(operate_eq_ok ran).1, statusOf_eq_iff, recorded]
      have ledger₂ : e₂.status = .succeeded ↔ e.result.status = .succeeded ∧ committed = true := by
        rw [(operate_eq_ok ran₂).1, statusOf_eq_iff, recorded₂, same]
      rw [same]
      refine (operated_alike_iff ledger ledger₂).trans ?_
      constructor
      · intro truth
        exact .inr (.inr ⟨fun cancelled => absurd cancelled alive, truth⟩)
      · intro alike
        rcases alike with blank | stop | ⟨-, truth⟩
        · rw [code] at blank
          cases blank
        · exact absurd stop go
        · exact truth

/-! ## A tool that outlives its lease -/

/-- A call of the attempt of `Op.firstClaim`. -/
def CodeCall.plain : CodeCall where
  scopeId := "ada"
  runId := ⟨2⟩
  sessionId := ⟨0⟩
  configSnapshot := .obj []
  attemptId := ⟨4⟩
  workspaceId := ⟨1⟩
  workspaceEpoch := 1
  userBinding := some (.plain "ada" "p" "p")
  workingDirectory := none
  tool := .python
  code := "pass"
  skillName := ""
  actor := "w1"

/-- An operation that succeeds, says nothing and leaves the workspace as it was. -/
def OperationResult.plain : OperationResult where
  status := .succeeded
  stdoutRef := none
  stderrRef := none
  workspaceRevision := none
  errorCode := none
  manifestDigest := none
  manifestRef := none
  storageRef := none
  changedPaths := []

/-- One that leaves a file. -/
def OperationResult.revised : OperationResult :=
  { OperationResult.plain with
    workspaceRevision := some "r1", manifestDigest := some "m", manifestRef := some "manifests/r1",
    storageRef := some "revisions/r1", changedPaths := ["a.txt"] }

/-- A backend where every operation ends the same, after some ticks of the clock. -/
def Backend.plain (result : OperationResult) (ticks : Nat) : Backend where
  execute _ := fun s => .ok result { s with ticks := s.ticks + ticks }
  logs _ := none

/-- A deployment whose clock passes the lease of `Op.claimAny` after a hundred ticks. -/
def late : Deployment :=
  { Deployment.plain with
    clock := fun n => if n < 100 then Deployment.plain.clock n else "2026-01-01T00:02:01Z" }

/-- What a call tells, what it says of the status, and what the ledger says. -/
def observed (x : StoreM (Told String)) (s : Store) :
    Option (String × Option ToolStatus × Option ToolStatus) :=
  match x s with
  | .ok t s' => some (t.answer, t.ended.map (·.status),
      t.ended.bind fun e => (s'.db.tool "ada" e.operationId).map (·.status))
  | .error .. => none

theorem observed_eq_some {x : StoreM (Told String)} {answer : String}
    {status status₂ : Option ToolStatus} (h : observed x s = some (answer, status, status₂)) :
    ∃ t s', x s = .ok t s' ∧ t.answer = answer ∧ t.ended.map (·.status) = status ∧
      (t.ended.bind fun e => (s'.db.tool "ada" e.operationId).map (·.status)) = status₂ := by
  rw [observed] at h
  cases ran : x s with
  | error e s' =>
      rw [ran] at h
      cases h
  | ok t s' =>
      rw [ran] at h
      cases h
      exact ⟨t, s', rfl, rfl, rfl, rfl⟩

/-- What is learnt from an operation that the ledger says succeeded. -/
theorem operate_learnt {result : OperationResult} {ticks : Nat} {summary : String} {e : Ended}
    (h : operate d (.plain result ticks) call summary s = .ok e s')
    (succeeded : e.status = .succeeded) : e.result = result ∧ e.committed.isOk = true := by
  obtain ⟨status, _, _, _, executed, -⟩ := operate_eq_ok h
  cases executed
  exact ⟨rfl, (statusOf_eq_iff.1 (status.symm.trans succeeded)).2⟩

/-- A tool whose revision is recorded. -/
theorem codeTools_alike_revised :
    let s := Op.execAll .plain Op.firstClaim {}
    ∃ g s' l s₂', toolsNodeContent .plain (.plain .revised 0) .plain s = .ok g s' ∧
      modelLoopContent .plain (.plain .revised 0) .plain s = .ok l s₂' ∧
      g.answer = "Tool executed successfully." ∧ g.answer = l.answer ∧ g.Honest ∧ l.Honest := by
  have runs : statusIn (Op.execAll .plain Op.firstClaim {}) .plain = some .running ∧
      observed (toolsNodeContent .plain (.plain .revised 0) .plain)
          (Op.execAll .plain Op.firstClaim {}) =
        some ("Tool executed successfully.", some .succeeded, some .succeeded) ∧
      observed (modelLoopContent .plain (.plain .revised 0) .plain)
          (Op.execAll .plain Op.firstClaim {}) =
        some ("Tool executed successfully.", some .succeeded, some .succeeded) := by
    decide +kernel
  obtain ⟨running, tools, loop⟩ := runs
  generalize Op.execAll .plain Op.firstClaim {} = s at *
  obtain ⟨g, s', tools, answer, status, -⟩ := observed_eq_some tools
  obtain ⟨l, s₂', loop, -, status₂, -⟩ := observed_eq_some loop
  refine ⟨g, s', l, s₂', tools, loop, answer, ?_⟩
  refine (codeTools_alike_iff .plain (.plain .revised 0) .plain (some .running) .revised true tools
    loop running running ?_).2 ?_
  · intro e ended
    cases ended with
    | inl ended =>
        rw [ended] at status
        obtain ⟨summary, ran⟩ := toolsNodeContent_ended tools ended
        exact operate_learnt ran (Option.some.inj status)
    | inr ended =>
        rw [ended] at status₂
        obtain ⟨summary, ran⟩ := modelLoopContent_ended loop ended
        exact operate_learnt ran (Option.some.inj status₂)
  · exact .inr (.inr ⟨nofun, fun _ _ => rfl, fun _ => ⟨rfl, rfl⟩⟩)

/-- **A tool whose revision was lost.**  The lease of the workspace lapses while the tool runs, and
it says nothing.  One harness tells the model that it succeeded; for the ledger it failed. -/
theorem runCodeTool_told_lost_revision :
    let s := Op.execAll .plain Op.firstClaim {}
    ∃ g s' l s₂', toolsNodeContent late (.plain .revised 100) .plain s = .ok g s' ∧
      modelLoopContent late (.plain .revised 100) .plain s = .ok l s₂' ∧
      g.answer = "Tool executed successfully." ∧ l.answer = "Tool failed." ∧
      (g.ended.bind fun e => (s'.db.tool "ada" e.operationId).map (·.status)) = some .failed ∧
      ¬ g.Honest := by
  have runs : observed (toolsNodeContent late (.plain .revised 100) .plain)
          (Op.execAll .plain Op.firstClaim {}) =
        some ("Tool executed successfully.", some .failed, some .failed) ∧
      observed (modelLoopContent late (.plain .revised 100) .plain)
          (Op.execAll .plain Op.firstClaim {}) =
        some ("Tool failed.", some .failed, some .failed) := by
    decide +kernel
  obtain ⟨tools, loop⟩ := runs
  generalize Op.execAll .plain Op.firstClaim {} = s at *
  obtain ⟨g, s', tools, answer, status, ledger⟩ := observed_eq_some tools
  obtain ⟨l, s₂', loop, answer₂, -⟩ := observed_eq_some loop
  refine ⟨g, s', l, s₂', tools, loop, answer, answer₂, ledger, fun honest => ?_⟩
  obtain ⟨e, ended, succeeded⟩ := honest answer
  rw [ended, Option.map_some, succeeded] at status
  cases status

end CodeForge.Harness
