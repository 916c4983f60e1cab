import CodeForge.Execution.Capture
import CodeForge.Execution.Reports
import CodeForge.Harness.Blocks
import CodeForge.Integrations.DeepSeek
import CodeForge.Lib.Client
import CodeForge.Persistence.Beside
import CodeForge.Persistence.Replies

/-!
# The local harness

`LocalDeterministicHarness.execute` takes a run that was claimed to its end.  It
runs the fenced blocks of the message one after the other, or asks a model what to
do where there are none, and reports the run as succeeded.

Everything it does to the store is one call after the other, and other callers may
come between any two of them: `execute` is a `Client`.  An operation that is never
over is a client that makes no more calls.

Without a dispatcher for Impala a tool of this name is an unsupported one.
-/

namespace CodeForge.Harness

open Lib StoreM
open Skills (Python strip)
open Execution (SinkCall)

/-! ## Programs of the harness -/

/-- What stops the harness. -/
inductive Raised where
  | call (e : CallError)
  /-- Any other exception. -/
  | other (message : String)

/-- A program that calls the store while others do. -/
abbrev HarnessM := Client Raised Store

/-- A call of the store. -/
def ask {α : Type} (x : StoreM α) : HarnessM α := .ask (Raised.call ∘ .store) x

/-- The result of an operation that is over. -/
structure Outcome extends OperationResult where
  unprepared : status ≠ .prepared
  stopped : status ≠ .running

/-- What a backend does with an operation: it calls the sink, which may raise, or is done with
it. -/
inductive Submitted where
  | ended (outcome : Except Raised Outcome)
  | output (call : SinkCall) (next : Bool → Submitted)

/-- A message of the model.  Its content is a text, if there is any. -/
structure ModelMessage where
  members : List (String × Json)
  content : ∀ j ∈ (Json.obj members).get? "content", j = .null ∨ ∃ s, j = .str s

/-- `SkillRef`, as the harness makes one of a skill in the snapshot. -/
structure FrozenSkill where
  name : Json
  version : Json
  digest : Json
  bundleRef : Json

/-- What the harness finds around it. -/
structure Surroundings where
  deployment : Deployment
  access : Access
  python : Python
  workerId : String
  maxToolSteps : Nat
  /-- `workspace.prepare_attempt` -/
  prepareAttempt : Except Raised Unit
  /-- `resolver.load_skill_body`, if there is a resolver. -/
  loadSkillBody : Option (FrozenSkill → Except Raised String)
  /-- `model_adapter.complete`, if there is a model. -/
  complete : Option (List Json → Except Raised ModelMessage)
  /-- `execution.submit`, and the first result that is not `RUNNING`. -/
  submit : OperationSpec → Submitted
  /-- The text of a log, none where there is no file. -/
  logs : String → Option String

/-- What `claim_next_run` told. -/
structure Assignment where
  scopeId : String
  runId : Uuid
  sessionId : Uuid
  input : String
  configSnapshot : Json
  attemptId : Uuid
  workspaceId : Uuid
  workspaceEpoch : Nat
  userBinding : Option UserBinding
  workingDirectory : Option String

/-- The run of an assignment. -/
def Assignment.key (work : Assignment) : Key := (work.scopeId, work.runId)

/-! ## Skills of a snapshot -/

/-- What a `for` loop goes through, if the value can be looped over. -/
def items : Json → Option (List Json)
  | .arr items => some items
  | .obj members => some (members.map fun m => .str m.1)
  | .str s => some (s.toList.map fun c => .str (String.singleton c))
  | _ => none

/-- `run.get("config_snapshot", {}).get("skills", [])`, looped over. -/
def skillItems (configSnapshot : Json) : Option (List Json) :=
  match configSnapshot with
  | .obj members => items (((Json.obj members).get? "skills").getD (.arr []))
  | _ => none

/-- The skill of an item, if it has all its members. -/
def frozenSkill (item : Json) : Option FrozenSkill := do
  let name ← item.get? "name"
  let version ← item.get? "version"
  let digest ← item.get? "digest"
  let bundleRef ← item.get? "bundle_ref"
  some { name, version, digest, bundleRef }

/-- `active_skill_names` -/
def activeSkillNames (configSnapshot : Json) : Option (List Json) := do
  let items ← skillItems configSnapshot
  let names ← items.mapM fun item =>
    match item with
    | .obj _ => some ((item.get? "name").filter Json.truthy)
    | _ => none
  some names.reduceOption

/-! ## Texts and outcomes -/

/-- What the loop over the blocks has so far. -/
structure Tally where
  outputParts : List String := []
  successes : Nat := 0
  failures : Nat := 0

/-- A tool has ended. -/
def Tally.add (tally : Tally) (logs : Backend) (ended : Ended) : Tally :=
  let text := logText logs
    (if ended.status = .succeeded then ended.result.stdoutRef else ended.result.stderrRef)
  { outputParts := if text = "" then tally.outputParts else tally.outputParts ++ [text]
    successes := if ended.status = .succeeded then tally.successes + 1 else tally.successes
    failures := if ended.status = .succeeded then tally.failures else tally.failures + 1 }

/-- The final text and the outcome of blocks that were run. -/
def Tally.conclusion (tally : Tally) : String × TaskOutcome :=
  let text := join ['\n'] tally.outputParts
  if tally.failures ≠ 0 ∧ tally.successes = 0 then
    (if text = "" then "Tool execution failed." else text, .blocked)
  else if tally.failures ≠ 0 then (text, .partially)
  else (if text = "" then "Tool execution completed." else text, .completed)

/-- The tool of a `tool_ref`. -/
def toolNamed (ref : String) : Option CodeTool :=
  if ref = "python" then some .python else if ref = "command" then some .command else none

/-- There is no run, or it is being cancelled. -/
def stops : Option Reader.RunView → Bool
  | none => true
  | some view => view.row.status = .cancelling

/-- `call.get("function") or {}` -/
def functionOf : Json → Except Raised Json
  | .obj members =>
      (DeepSeek.orEmpty (DeepSeek.get (.obj members) "function")).elim
        (.error (.other "AttributeError")) .ok
  | _ => .error (.other "AttributeError")

/-- A text that is an argument. -/
def textArgument (arguments : Json) (name : String) : Except Raised String :=
  match (arguments.get? name).getD (.str "") with
  | .str s => .ok s
  | _ => .error (.other "AttributeError")

/-- `_system_prompt` -/
def systemPrompt (skillContext : List String) : String :=
  let base := "你是 Code Forge 的 Agent。你可以调用 execute_python 或 execute_command，" ++
    "用真实执行结果继续工作。需要计算、读文件、修改文件或生成文件时，" ++
    "优先用 execute_python；需要运行 shell 命令时用 execute_command。" ++
    "有活动 Skill 时，工具调用的 skill 字段只能选择活动 Skill；没有活动 Skill 时省略该字段。" ++
    "不要声称未执行的结果已经验证。"
  if skillContext = [] then base
  else base ++ "\n\n## Active Skills\n" ++ join "\n\n".toList skillContext

/-- The text of a message that calls no tool. -/
def finalText (message : ModelMessage) : String :=
  match (Json.obj message.members).get? "content" with
  | some (.str s) => if s = "" then "模型未返回文本" else s
  | _ => "模型未返回文本"

/-- What is said where there are no blocks and no model. -/
def noModelText : String :=
  "当前本地运行模式未配置真实模型，因此无法自主规划一般任务。" ++
    "请提供 python 或 bash 围栏代码块，或配置 DEEPSEEK_API_KEY 接入模型。"

/-! ## Calls of the store -/

namespace Surroundings

variable (env : Surroundings) (work : Assignment)

def actor : String := "system:runtime/" ++ env.workerId

/-- A backend of which only the logs are read. -/
def backend : Backend where
  execute _ := throw .assertion
  logs := env.logs

/-- `get_run` -/
def getRun : HarnessM (Option Reader.RunView) :=
  .ask .call (readRun env.access env.deployment work.scopeId work.runId)

/-- The arguments of a tool. -/
def codeCall (tool : CodeTool) (code skillName : String) : CodeCall where
  scopeId := work.scopeId
  runId := work.runId
  sessionId := work.sessionId
  configSnapshot := work.configSnapshot
  attemptId := work.attemptId
  workspaceId := work.workspaceId
  workspaceEpoch := work.workspaceEpoch
  userBinding := work.userBinding
  workingDirectory := work.workingDirectory
  tool
  code
  skillName
  actor := env.actor

/-! ### Operations -/

/-- `_output_sink`, and what the backend does after it. -/
def watch (call : CodeCall) (operationId : Uuid) : Submitted → HarnessM Outcome
  | .ended outcome => .given outcome
  | .output out next =>
      if out.passed then do
        let passed ← .attempt (appendToolOutput env.deployment call.scopeId operationId out.stream
          (String.ofList out.text) out.truncated call.actor)
        watch call operationId (next passed)
      else watch call operationId (next true)

/-- From `start_tool` to the event after `finish_tool`. -/
def carryOut (call : CodeCall) (operationId : Uuid) : HarnessM Ended := do
  let d := env.deployment
  ask (startTool d call.scopeId operationId call.actor)
  ask (skillEvent d call operationId .skillStarted [])
  let outcome ← env.watch call operationId (env.submit (buildOperationSpec call operationId))
  let result := outcome.toOperationResult
  let committed ← ask (commitResult d result call)
  ask (committedEvent d call result.changedPaths (revisionOf committed))
  let status := statusOf result committed
  ask (finishTool d call.scopeId operationId status result.stdoutRef
    (errorOf env.backend result committed) call.actor (revisionOf committed))
  ask (skillEvent d call operationId .skillFinished
    [("status", .str (skillFinishedStatus status).value)])
  return { operationId, result, committed, status }

/-- From `prepare_tool` on. -/
def operation (call : CodeCall) (asked : ToolCall) : HarnessM Ended := do
  let (operationId, _) ← ask (prepareTool env.deployment asked call.actor)
  env.carryOut call operationId

/-! ### Skills -/

/-- What the model is told of a skill, if there is a resolver. -/
def skillBlock (skill : FrozenSkill) : Except Raised (List String) :=
  match env.loadSkillBody with
  | none => .ok []
  | some load => (load skill).map fun body =>
      ["## " ++ env.python.text skill.name ++ "@" ++ env.python.text skill.version ++ "\n" ++ body]

/-- `_activate_skills`, of some items. -/
def activateItems : List Json → HarnessM (List String)
  | [] => pure []
  | item :: rest => do
      let skill ← .given ((frozenSkill item).elim (.error (.other "KeyError")) .ok)
      let _ ← ask (appendEvent env.deployment work.scopeId work.runId .skillActivated
        [("name", skill.name), ("version", skill.version), ("digest", skill.digest)] env.actor)
      let block ← .given (env.skillBlock skill)
      let blocks ← activateItems rest
      return block ++ blocks

/-- `_activate_skills` -/
def activateSkills : HarnessM (List String) := do
  let items ← .given ((skillItems work.configSnapshot).elim (.error (.other "TypeError")) .ok)
  env.activateItems work items

/-- `select_active_skill`: the skill of a tool, or what is wrong with the one that was asked for. -/
def selectActiveSkill (configSnapshot requested : Json) : Option (Except String String) := do
  let names ← activeSkillNames configSnapshot
  if names = [] then some (.ok "")
  else do
    let active := match requested with
      | .str s => names.any fun name => match name with
          | .str t => s = t
          | _ => false
      | _ => false
    match requested, active with
    | .str s, true => some (.ok s)
    | _, _ => do
        let texts ← names.mapM DeepSeek.asText
        some (.error ("Skill '" ++ env.python.text requested ++
          "' is not active for this Run. Active skills: " ++ join ", ".toList texts))

/-! ### The blocks of a message -/

/-- The arguments of `prepare_tool` for a block. -/
def blockCall (call : CodeCall) (index : Nat) : ToolCall :=
  let attempt := env.deployment.uuidText call.attemptId
  let logicalKey := call.tool.ref ++ ":" ++ attempt ++ ":" ++ toString index
  { scopeId := call.scopeId, runId := call.runId, logicalCallKey := logicalKey,
    toolRef := call.tool.ref,
    paramsDigest := env.deployment.sha256 (utf8 (call.tool.ref ++ "\x00" ++ call.code)),
    inputRef := "local-stdin:" ++ attempt ++ ":" ++ logicalKey,
    executionProfileRef := "local@1",
    inputSummary := call.tool.ref ++ " block " ++ toString index,
    workspaceId := some call.workspaceId, inputText := call.code }

/-- The loop over the blocks. -/
def runBlocks (index : Nat) (tally : Tally) : List (String × String) → HarnessM Tally
  | [] => pure tally
  | (toolRef, code) :: actions => do
      let current ← env.getRun work
      if stops current then pure tally
      else match toolNamed toolRef with
        | none => runBlocks (index + 1) tally actions
        | some tool => do
            let call := env.codeCall work tool code ""
            let ended ← env.operation call (env.blockCall call index)
            runBlocks (index + 1) (tally.add env.backend ended) actions

/-! ### The model loop -/

/-- `_execute_model_code_tool` -/
def executeModelTool (tool : CodeTool) (code skillName : String) :
    HarnessM (ToolStatus × String × String) := do
  if isBlank code then return (.failed, "", "Tool arguments are empty")
  let current ← env.getRun work
  if stops current then return (.cancelled, "", "Run was cancelled")
  let hex ← ask uuid4
  let call := env.codeCall work tool code skillName
  let ended ← env.operation call
    (toolCall env.deployment call hex ("model " ++ tool.ref ++ " call"))
  return (ended.status, logText env.backend ended.result.stdoutRef,
    logText env.backend ended.result.stderrRef)

/-- `json.loads(function.get("arguments") or "{}")`, where malformed text is no argument. -/
def argumentsOf (function : Json) : Except Raised Json :=
  let arguments := DeepSeek.get function "arguments"
  if arguments.truthy then
    match arguments with
    | .str text =>
        match Json.loads env.python.numerals text with
        | .value j => .ok j
        | .malformed => .ok (.obj [])
        | _ => .error (.other "UnicodeEncodeError")
    | _ => .error (.other "TypeError")
  else .ok (.obj [])

/-- The status and the texts of one tool call of the model. -/
def callTool (name : Json) (arguments : Json) : HarnessM (ToolStatus × String × String) := do
  let skill ← .given ((env.selectActiveSkill work.configSnapshot
    (DeepSeek.get arguments "skill")).elim (.error (.other "TypeError")) .ok)
  match skill, name with
  | .error message, _ => pure (.failed, "", message)
  | .ok skillName, .str name =>
      if name = "execute_python" then do
        let code ← .given (textArgument arguments "code")
        env.executeModelTool work .python code skillName
      else if name = "execute_command" then do
        let command ← .given (textArgument arguments "command")
        env.executeModelTool work .command command skillName
      else pure (.failed, "", "Unsupported tool: " ++ name)
  | .ok _, _ => .stop (.other "AttributeError")

/-- The message that answers one tool call of the model. -/
def answerCall (entry : Json) : HarnessM Json := do
  let function ← .given (functionOf entry)
  let arguments ← .given (env.argumentsOf function)
  match arguments with
  | .obj _ => do
      let (status, stdout, stderr) ←
        env.callTool work ((function.get? "name").getD (.str "")) arguments
      return .obj [("role", .str "tool"), ("tool_call_id", DeepSeek.get entry "id"),
        ("content", .str (cut 16000 (said stdout stderr (remark status))))]
  | _ => .stop (.other "AttributeError")

/-- The messages that answer the tool calls of a message. -/
def answerCalls : List Json → HarnessM (List Json)
  | [] => pure []
  | entry :: entries => do
      let answer ← env.answerCall work entry
      let answers ← answerCalls entries
      return answer :: answers

/-- The loop of `_run_model_loop`, with the steps that are left. -/
def modelSteps (complete : List Json → Except Raised ModelMessage) :
    Nat → List Json → HarnessM (String × TaskOutcome)
  | 0, _ => pure ("达到最大工具调用步数。", .partially)
  | steps + 1, messages => do
      let current ← env.getRun work
      if (current.map (·.row.status)) ≠ some .running then
        return ("Message is no longer executing.", .blocked)
      let message ← .given (complete messages)
      let toolCalls := DeepSeek.get (.obj message.members) "tool_calls"
      if !toolCalls.truthy then return (finalText message, .completed)
      let entries ← .given ((items toolCalls).elim (.error (.other "TypeError")) .ok)
      let answers ← env.answerCalls work entries
      modelSteps complete steps (messages ++ .obj message.members :: answers)

/-- `_run_model_loop` -/
def runModelLoop (complete : List Json → Except Raised ModelMessage) (skillContext : List String) :
    HarnessM (String × TaskOutcome) :=
  env.modelSteps work complete env.maxToolSteps
    [.obj [("role", .str "system"), ("content", .str (systemPrompt skillContext))],
      .obj [("role", .str "user"), ("content", .str work.input)]]

/-! ### The whole of it -/

/-- From the message to the end. -/
def conclude (text : String) (outcome : TaskOutcome) : HarnessM (Option Reader.RunView) := do
  let messageId ← ask uuid4
  let _ ← ask (appendEvent env.deployment work.scopeId work.runId .messageCompleted
    [("message_id", .str (env.deployment.uuidText messageId)), ("text", .str text)] env.actor)
  let current ← env.getRun work
  let status := current.map (·.row.status)
  if status = some .cancelled then return current
  else if status ≠ some .cancelling then do
    let version := (current.map (·.row.stateVersion)).getD 1
    let _ ← ask (transitionRun env.deployment work.scopeId work.runId version .succeeded
      { taskOutcome := some outcome, output := some text } (some env.actor))
    env.getRun work
  else return current

/-- `execute` up to the final text. -/
def finalMessage : HarnessM (String × TaskOutcome) := do
  .given env.prepareAttempt
  let skillContext ← env.activateSkills work
  let actions := planActions work.input
  let tally ← env.runBlocks work 0 {} actions
  if actions = [] then
    match env.complete with
    | some complete => env.runModelLoop work complete skillContext
    | none => pure (noModelText, .blocked)
  else pure tally.conclusion

/-- `LocalDeterministicHarness.execute` -/
def execute : HarnessM (Option Reader.RunView) := do
  let (text, outcome) ← env.finalMessage work
  env.conclude work text outcome

end Surroundings

end CodeForge.Harness
