import CodeForge.Harness.CodeTools
import CodeForge.Lib.Machine

/-!
# Operations

`LocalProcessBackend` runs one process for each operation it is asked to run.  A
task of its own supervises the process, and the callers of `get_status` and
`cancel` look at the operation while it does.  They share one event loop: what
stands between two `await`s is one step, and `step` is the table of these steps.
What the process does, how long anything takes and which caller is served next is
up to the actions.

`submit` holds a lock while the process is spawned, which the other methods wait
for.  The task of an operation does not.

The status of an operation is final before its workspace is committed: the task
waits for the readers of the two streams in between.  So a caller may be told of a
success that has no revision yet, and that fails later (`Report.Later`).
-/

namespace CodeForge.Execution

open Lib Harness

/-! ## Submissions and reports -/

/-- `MountGranularity` -/
inductive MountGranularity where
  | project
  | revision
deriving DecidableEq, Repr

/-- What of the project an operation is to see. -/
structure MountSpec where
  specVersion : String
  granularity : MountGranularity
  sourceRef : String
  target : String
  mode : String
  cwd : String
deriving DecidableEq, Repr

/-- `OperationSpec`, with what only a backend reads of it. -/
structure Submission extends OperationSpec where
  mountSpec : Option MountSpec

/-- `build_operation_spec`, with its mount. -/
def submission (call : CodeCall) (operationId : Uuid) : Submission :=
  let spec := buildOperationSpec call operationId
  { spec with
    mountSpec := call.userBinding.map fun binding => {
      specVersion := "1", granularity := .project, sourceRef := binding.projectRef
      target := "/workspace", mode := "rw", cwd := spec.workingDirectory.getD "" } }

/-- `OperationResult`, with what no harness reads of it. -/
structure Report extends OperationResult where
  operationId : Uuid
  exitCode : Option Int

/-- What `submit` raises. -/
inductive Failure where
  | domain (code : ErrorCode) (message : String)
  /-- No `DomainError`. -/
  | other (message : String)
deriving DecidableEq, Repr

/-- What the code outside the backend does for it. -/
structure Site where
  /-- `WorkspaceStore.root` -/
  workspaceRoot : PurePath
  /-- `LocalProcessBackend.root` -/
  root : PurePath
  /-- `Path(path).resolve(strict=False)` -/
  resolve : String → PurePath
  uuidText : Uuid → String

/-- `attempt_dir` -/
def Site.attemptDir (site : Site) (spec : Submission) : PurePath :=
  match spec.userBinding with
  | some binding => .parse binding.projectPath
  | none => (((site.workspaceRoot.join (.parse "attempts")).join
      (.parse (site.uuidText spec.workspaceRef))).join (.parse (site.uuidText spec.attemptId)))

/-- The directory of the logs of an operation.  A session always has an id. -/
def Site.opDir (site : Site) (spec : Submission) : PurePath :=
  match spec.userBinding with
  | some binding =>
      ((((PurePath.parse binding.userPath).join (.parse "tool-output")).join
        (.parse (site.uuidText spec.sessionId))).join (.parse (site.uuidText spec.runId))).join
          (.parse (site.uuidText spec.operationId))
  | none => site.root.join (.parse (site.uuidText spec.operationId))

/-- `_validate_working_directory` -/
def validateWorkingDirectory (spec : Submission) (cwd : PurePath) : Except Failure Unit :=
  match spec.userBinding with
  | none =>
      if spec.mountSpec.isSome then
        .error (.domain .invalidRequest "MountSpec requires a UserBinding")
      else .ok ()
  | some binding =>
      if (cwd.relativeTo (.parse binding.projectPath)).isNone then
        .error (.domain .invalidRequest "working_directory must be below project_path")
      else
        match spec.mountSpec with
        | none => .ok ()
        | some mount =>
            let expected :=
              if mount.granularity = .project then binding.projectRef else mount.sourceRef
            if mount.sourceRef ≠ expected ∧ mount.granularity ≠ .revision then
              .error (.domain .invalidRequest "MountSpec source does not match the execution scope")
            else .ok ()

/-- The directory the process of a submission is started in. -/
def Site.cwd (site : Site) (spec : Submission) : Except Failure PurePath :=
  match spec.workingDirectory with
  | none => .ok (site.attemptDir spec)
  | some dir => (validateWorkingDirectory spec (site.resolve dir)).map fun _ => site.resolve dir

/-! ## Operations -/

/-- Where `_run_operation` stands. -/
inductive Stage where
  /-- In `asyncio.wait`. -/
  | waiting
  /-- In `_wait_after_termination`. -/
  | terminating
  /-- In `asyncio.gather`. -/
  | gathering
  | returned
  /-- It raised, or was cancelled. -/
  | died
deriving DecidableEq, Repr

/-- The task has ended. -/
def Stage.ended : Stage → Bool
  | .returned | .died => true
  | .waiting | .terminating | .gathering => false

/-- How a task that reads a stream ended: `result()` of it, or what it raises. -/
inductive ReadEnd where
  | returned (truncated : Bool)
  | cancelled
  | raised

/-- `task.result() if not task.cancelled() else True`, unless it raises. -/
def ReadEnd.truncated : ReadEnd → Option Bool
  | .returned truncated => some truncated
  | .cancelled => some true
  | .raised => none

/-- What `commit_attempt` returns. -/
structure Commit extends WorkspaceCommit where
  changedPaths : List String

/-- `_RunningOperation` -/
structure RunningOperation where
  spec : Submission
  /-- The directory the process was started in. -/
  cwd : PurePath
  stdoutRef : String
  stderrRef : String
  status : ToolStatus := .running
  exitCode : Option Int := none
  workspaceRevision : Option String := none
  workspaceCommit : Option Commit := none
  errorCode : Option ErrorCode := none
  errorMessage : Option String := none
  stdoutTruncated : Bool := false
  stderrTruncated : Bool := false
  cancelled : Bool := false
  task : Stage := .waiting

namespace RunningOperation

/-- `_result` -/
def result (o : RunningOperation) : Report where
  operationId := o.spec.operationId
  status := o.status
  exitCode := o.exitCode
  stdoutRef := some o.stdoutRef
  stderrRef := some o.stderrRef
  workspaceRevision := o.workspaceRevision
  errorCode := o.errorCode
  manifestDigest := o.workspaceCommit.map (·.manifestDigest)
  manifestRef := o.workspaceCommit.map (·.manifestRef)
  storageRef := o.workspaceCommit.map (·.storageRef)
  changedPaths := (o.workspaceCommit.map (·.changedPaths)).getD []

/-- A status of its own choice. -/
def failed (o : RunningOperation) (message : String) : RunningOperation :=
  { o with status := .failed, errorCode := some .executionFailed, errorMessage := some message }

/-- The process and the readers ended before the timeout.  `exit` is what `await wait_task` gives
or raises. -/
def finished (o : RunningOperation) (exit : Except String Int) : RunningOperation :=
  let o := { o with task := .gathering }
  if o.cancelled then { o with status := .cancelled }
  else
    match exit with
    | .error message => o.failed message
    | .ok code =>
        if code = 0 then { o with exitCode := some code, status := .succeeded }
        else { o with exitCode := some code }.failed s!"Process exited with {code}"

/-- Something was still going on at the timeout, and the process was waited for. -/
def timedOut (o : RunningOperation) : RunningOperation :=
  let o := { o with task := .gathering }
  if o.cancelled then { o with status := .cancelled }
  else o.failed s!"Operation timed out after {o.spec.timeoutSeconds} seconds"

/-- What `commit_attempt` came to. -/
def committed (o : RunningOperation) : Except String Commit → RunningOperation
  | .ok commit =>
      { o with workspaceCommit := some commit, workspaceRevision := some commit.revisionId }
  | .error message => o.failed s!"Workspace commit failed: {message}"

/-- From `asyncio.gather` to the end. -/
def gathered (o : RunningOperation) (stdout stderr : ReadEnd) (commit : Except String Commit) :
    RunningOperation :=
  match stdout.truncated with
  | none => { o with task := .died }
  | some stdoutTruncated =>
      match stderr.truncated with
      | none => { o with stdoutTruncated, task := .died }
      | some stderrTruncated =>
          let o := { o with stdoutTruncated, stderrTruncated, task := .returned }
          if o.status = .succeeded then o.committed commit else o

end RunningOperation

/-! ## The backend -/

/-- What is seen of a step. -/
inductive Event where
  /-- `submit` raises. -/
  | refused (operationId : Uuid) (failure : Failure)
  /-- `submit` returns the id of the operation that is registered. -/
  | found (operationId : Uuid)
  /-- The process of operation number `k` runs, and `submit` returns its id. -/
  | started (k : Nat) (operationId : Uuid)
  | released (operationId : Uuid)
  | cancelRequested (k : Nat)
  /-- The status of the operation is no longer `RUNNING`. -/
  | settled (k : Nat) (status : ToolStatus)
  | committed (k : Nat) (commit : Commit)
  /-- `commit_attempt` raised. -/
  | uncommitted (k : Nat)
  /-- The task was cancelled, or raised. -/
  | died (k : Nat)
  /-- `get_status` or `cancel` returns. -/
  | told (k : Nat) (report : Report)
  /-- `get_status` or `cancel` finds nothing. -/
  | unknown (operationId : Uuid)

/-- `LocalProcessBackend` -/
structure LocalProcessBackend where
  /-- Every operation that was started, registered or not. -/
  objects : List RunningOperation := []
  /-- `_operations` -/
  operations : Uuid → Option Nat := fun _ => none
  /-- The operation whose process is being spawned, by the call of `submit` that holds the lock. -/
  spawning : Option RunningOperation := none
  /-- The operations whose tasks calls of `cancel` wait for. -/
  waited : List Nat := []

/-- What may happen next. -/
inductive Act where
  /-- `submit`, as far as the spawning of the process.  `prepared` and `laidOut` are what the file
  system says before and after the working directory is validated. -/
  | submit (spec : Submission) (prepared laidOut : Except Failure Unit)
  | spawned
  | spawnFailed (failure : Failure)
  | getStatus (operationId : Uuid)
  | cancel (operationId : Uuid)
  /-- A call of `cancel` is done with waiting. -/
  | cancelReturns (k : Nat)
  /-- It is told what the task raised, or is cancelled itself. -/
  | cancelRaises (k : Nat)
  | release (operationId : Uuid)
  /-- `asyncio.wait` returns, and nothing is pending. -/
  | finish (k : Nat) (exit : Except String Int)
  /-- `asyncio.wait` returns, and something is. -/
  | timeout (k : Nat)
  /-- `_wait_after_termination` returns. -/
  | terminated (k : Nat)
  /-- Something in the `try` block raises. -/
  | raise (k : Nat) (message : String)
  /-- `asyncio.gather` returns. -/
  | gather (k : Nat) (stdout stderr : ReadEnd) (commit : Except String Commit)
  /-- The task is cancelled, by a call of `cancel` that has waited for 10 seconds or is itself
  cancelled. -/
  | abandon (k : Nat)

namespace LocalProcessBackend

/-- The operation that is registered for an id, with its number. -/
def registered (b : LocalProcessBackend) (id : Uuid) : Option (Nat × RunningOperation) :=
  (b.operations id).bind fun k => b.objects[k]?.map fun o => (k, o)

/-- `submit` up to `create_subprocess_exec`, for an id that is not registered. -/
def place (site : Site) (spec : Submission) (prepared laidOut : Except Failure Unit) :
    Except Failure RunningOperation := do
  prepared
  let cwd ← site.cwd spec
  laidOut
  let opDir := site.opDir spec
  return {
    spec, cwd
    stdoutRef := (opDir.join (.parse "stdout.log")).render
    stderrRef := (opDir.join (.parse "stderr.log")).render }

/-- An operation goes on. -/
def put (b : LocalProcessBackend) (k : Nat) (o : RunningOperation) : LocalProcessBackend :=
  { b with objects := b.objects.set k o }

/-- The task of an operation takes a step from a stage. -/
def advance (b : LocalProcessBackend) (k : Nat) (stages : List Stage)
    (next : RunningOperation → RunningOperation × Option Event) :
    Option (LocalProcessBackend × Option Event) :=
  match b.objects[k]? with
  | none => none
  | some o => if o.task ∈ stages then some (b.put k (next o).1, (next o).2) else none

/-- The task settles the status. -/
def settles (k : Nat) (o : RunningOperation) : RunningOperation × Option Event :=
  (o, some (.settled k o.status))

/-- The task is past `asyncio.gather`. -/
def ends (k : Nat) (o : RunningOperation) (stdout stderr : ReadEnd)
    (commit : Except String Commit) : RunningOperation × Option Event :=
  let o' := o.gathered stdout stderr commit
  (o', if o'.task = .died then some (.died k)
    else if o.status = .succeeded then
      match commit with
      | .ok commit => some (.committed k commit)
      | .error _ => some (.uncommitted k)
    else none)

/-- The table of steps. -/
def next (site : Site) (b : LocalProcessBackend) :
    Act → Option (LocalProcessBackend × Option Event)
  | .submit spec prepared laidOut =>
      if b.spawning.isSome then none
      else
        match b.registered spec.operationId with
        | some (_, o) =>
            if o.spec.argv ≠ spec.argv ∨ o.spec.stdinText ≠ spec.stdinText then
              some (b, some (.refused spec.operationId (.domain .idempotencyConflict
                "Operation id is already bound to different input")))
            else some (b, some (.found spec.operationId))
        | none =>
            match place site spec prepared laidOut with
            | .error failure => some (b, some (.refused spec.operationId failure))
            | .ok o => some ({ b with spawning := some o }, none)
  | .spawned =>
      match b.spawning with
      | none => none
      | some o =>
          let k := b.objects.length
          some ({ b with
            objects := b.objects ++ [o]
            operations := Function.update b.operations o.spec.operationId (some k)
            spawning := none }, some (.started k o.spec.operationId))
  | .spawnFailed failure =>
      match b.spawning with
      | none => none
      | some o => some ({ b with spawning := none }, some (.refused o.spec.operationId failure))
  | .getStatus id =>
      if b.spawning.isSome then none
      else
        match b.registered id with
        | none => some (b, some (.unknown id))
        | some (k, o) => some (b, some (.told k o.result))
  | .cancel id =>
      if b.spawning.isSome then none
      else
        match b.registered id with
        | none => some (b, some (.unknown id))
        | some (k, o) =>
            let b := b.put k { o with cancelled := true }
            some ({ b with waited := k :: b.waited }, some (.cancelRequested k))
  | .cancelReturns k =>
      match b.objects[k]? with
      | none => none
      | some o =>
          if k ∈ b.waited ∧ o.task.ended then
            some ({ b with waited := b.waited.erase k }, some (.told k o.result))
          else none
  | .cancelRaises k =>
      if k ∈ b.waited then some ({ b with waited := b.waited.erase k }, none) else none
  | .release id =>
      if b.spawning.isSome then none
      else some ({ b with operations := Function.update b.operations id none },
        some (.released id))
  | .finish k exit => b.advance k [.waiting] fun o => settles k (o.finished exit)
  | .timeout k => b.advance k [.waiting] fun o => ({ o with task := .terminating }, none)
  | .terminated k => b.advance k [.terminating] fun o => settles k o.timedOut
  | .raise k message =>
      b.advance k [.waiting, .terminating] fun o =>
        settles k ({ o with task := .gathering }.failed message)
  | .gather k stdout stderr commit =>
      b.advance k [.gathering] fun o => ends k o stdout stderr commit
  | .abandon k =>
      if k ∈ b.waited then
        b.advance k [.waiting, .terminating, .gathering] fun o =>
          -- `_wait_after_termination` swallows the cancellation
          if o.task = .terminating then settles k o.timedOut
          else ({ o with task := .died }, some (.died k))
      else none

end LocalProcessBackend

/-- The backend, with what is seen of it. -/
def localProcesses (site : Site) : Machine LocalProcessBackend Act Event where
  step := LocalProcessBackend.next site

end CodeForge.Execution
