import CodeForge.Lib.Json
import CodeForge.Lib.PurePath

/-!
# The domain vocabulary

The enumerations of the Runtime with the texts they are stored and sent as, its
errors, and the records that cross its boundaries: the user binding, the
execution context, the run request and the frozen snapshot of a run.

A `UserBinding` comes out of `UserBinding.new`, the checks and the normalization
of its constructor.  Its paths are resolved on a `FileSystem`, so everything that
builds a binding takes one.
-/

namespace CodeForge

open Lib

/-! ## Enumerations -/

/-- The status of a run. -/
inductive RunStatus where
  | queued
  | running
  | waitingUser
  | waitingExternal
  | recovering
  | cancelling
  | succeeded
  | failed
  | cancelled
  | timedOut
deriving DecidableEq, Repr

namespace RunStatus

/-- The stored text. -/
def value : RunStatus → String
  | .queued => "QUEUED"
  | .running => "RUNNING"
  | .waitingUser => "WAITING_USER"
  | .waitingExternal => "WAITING_EXTERNAL"
  | .recovering => "RECOVERING"
  | .cancelling => "CANCELLING"
  | .succeeded => "SUCCEEDED"
  | .failed => "FAILED"
  | .cancelled => "CANCELLED"
  | .timedOut => "TIMED_OUT"

/-- Every status. -/
def all : List RunStatus :=
  [.queued, .running, .waitingUser, .waitingExternal, .recovering, .cancelling, .succeeded,
    .failed, .cancelled, .timedOut]

/-- The status of a stored text. -/
def ofValue? (s : String) : Option RunStatus := all.find? fun status => status.value = s

@[simp] theorem ofValue?_value (status : RunStatus) : ofValue? status.value = some status := by
  cases status <;> decide

/-- `TERMINAL_STATUSES`. -/
def terminal : RunStatus → Bool
  | .succeeded | .failed | .cancelled | .timedOut => true
  | _ => false

/-- The two waiting statuses. -/
def waiting : RunStatus → Bool
  | .waitingUser | .waitingExternal => true
  | _ => false

/-- A run in this status was taken by a worker and not given back. -/
def inFlight : RunStatus → Bool
  | .running | .waitingUser | .waitingExternal | .recovering => true
  | _ => false

end RunStatus

/-- What a successful run achieved. -/
inductive TaskOutcome where
  | completed
  | partially
  | blocked
deriving DecidableEq, Repr

/-- The stored text. -/
def TaskOutcome.value : TaskOutcome → String
  | .completed => "completed"
  | .partially => "partial"
  | .blocked => "blocked"

/-- The status of a tool execution. -/
inductive ToolStatus where
  | prepared
  | running
  | succeeded
  | failed
  | cancelled
  | unknown
deriving DecidableEq, Repr

/-- The stored text. -/
def ToolStatus.value : ToolStatus → String
  | .prepared => "PREPARED"
  | .running => "RUNNING"
  | .succeeded => "SUCCEEDED"
  | .failed => "FAILED"
  | .cancelled => "CANCELLED"
  | .unknown => "UNKNOWN"

/-- The type of a run event. -/
inductive EventType where
  | runAccepted
  | runStarted
  | runWaiting
  | runResumed
  | runRecovering
  | runCancelRequested
  | runFinished
  | messageDelta
  | messageCompleted
  | toolPrepared
  | toolStarted
  | toolOutput
  | toolFinished
  | toolUnknown
  | skillActivated
  | skillStarted
  | skillFinished
  | workspaceCommitted
deriving DecidableEq, Repr

namespace EventType

/-- The stored text. -/
def value : EventType → String
  | .runAccepted => "run.accepted"
  | .runStarted => "run.started"
  | .runWaiting => "run.waiting"
  | .runResumed => "run.resumed"
  | .runRecovering => "run.recovering"
  | .runCancelRequested => "run.cancel_requested"
  | .runFinished => "run.finished"
  | .messageDelta => "message.delta"
  | .messageCompleted => "message.completed"
  | .toolPrepared => "tool.prepared"
  | .toolStarted => "tool.started"
  | .toolOutput => "tool.output"
  | .toolFinished => "tool.finished"
  | .toolUnknown => "tool.unknown"
  | .skillActivated => "skill.activated"
  | .skillStarted => "skill.started"
  | .skillFinished => "skill.finished"
  | .workspaceCommitted => "workspace.committed"

/-- The `run.*` types, the lifecycle of a run. -/
def lifecycle : EventType → Bool
  | .runAccepted | .runStarted | .runWaiting | .runResumed | .runRecovering
  | .runCancelRequested | .runFinished => true
  | _ => false

end EventType

/-! ## Errors -/

/-- The code of a domain error. -/
inductive ErrorCode where
  | invalidRequest
  | sessionNotFound
  | runNotFound
  | idempotencyConflict
  | stateConflict
  | invalidTransition
  | invalidEventCursor
  | skillNotFound
  | skillIncompatible
  | modelNotConfigured
  | executionFailed
  | executionUnknown
  | capabilityDenied
  | resourceLimit
  | dependencyUnavailable
  | messageBusy
deriving DecidableEq, Repr

/-- The text an error code is sent as. -/
def ErrorCode.value : ErrorCode → String
  | .invalidRequest => "INVALID_REQUEST"
  | .sessionNotFound => "SESSION_NOT_FOUND"
  | .runNotFound => "RUN_NOT_FOUND"
  | .idempotencyConflict => "IDEMPOTENCY_CONFLICT"
  | .stateConflict => "STATE_CONFLICT"
  | .invalidTransition => "INVALID_TRANSITION"
  | .invalidEventCursor => "INVALID_EVENT_CURSOR"
  | .skillNotFound => "SKILL_NOT_FOUND"
  | .skillIncompatible => "SKILL_INCOMPATIBLE"
  | .modelNotConfigured => "MODEL_NOT_CONFIGURED"
  | .executionFailed => "EXECUTION_FAILED"
  | .executionUnknown => "EXECUTION_UNKNOWN"
  | .capabilityDenied => "CAPABILITY_DENIED"
  | .resourceLimit => "RESOURCE_LIMIT"
  | .dependencyUnavailable => "DEPENDENCY_UNAVAILABLE"
  | .messageBusy => "MESSAGE_BUSY"

/-- What a store operation raises. -/
inductive StoreError where
  /-- `DomainError(code, message)`. -/
  | domain (code : ErrorCode) (message : String)
  /-- The database refuses an insert or an update of a table. -/
  | integrity (table : String)
  /-- A path the file system cannot resolve. -/
  | unresolvable (field : String)
  /-- A failed `assert`. -/
  | assertion
deriving DecidableEq, Repr

/-! ## References and paths -/

/-- The characters `str.strip` removes. -/
def isSpace (c : Char) : Bool :=
  let n := c.toNat
  (9 ≤ n && n ≤ 13) || (28 ≤ n && n ≤ 32) || n = 0x85 || n = 0xa0 || n = 0x1680 ||
    (0x2000 ≤ n && n ≤ 0x200a) || n = 0x2028 || n = 0x2029 || n = 0x202f || n = 0x205f ||
    n = 0x3000

/-- `value.strip()` is empty. -/
def isBlank (s : String) : Bool := s.toList.all isSpace

/-- A character of `[A-Za-z0-9._-]`. -/
def isReferenceChar (c : Char) : Bool :=
  ('A' ≤ c && c ≤ 'Z') || ('a' ≤ c && c ≤ 'z') || ('0' ≤ c && c ≤ '9') ||
    c = '.' || c = '_' || c = '-'

/-- The shape of a stable reference of 1 to 200 characters. -/
def isReference (s : String) : Bool :=
  !isBlank s && s.toList.length ≤ 200 && s.toList ≠ [] && s.toList.all isReferenceChar

/-- Where a run environment finds files, and the home directories of its users. -/
structure Host extends FileSystem where
  /-- The directory a leading `~` or `~user` stands for. -/
  home : String → Option PurePath

/-- A host without symbolic links. -/
def Host.withoutLinks (home : String → Option PurePath) : Host :=
  { FileSystem.withoutLinks with home }

/-- `Path.expanduser`. -/
def Host.expandUser (host : Host) (p : PurePath) : Option PurePath :=
  match p with
  | ⟨false, c :: cs, valid⟩ =>
      if c.toList.head? = some '~' then
        (host.home c).map fun dir => dir.join ⟨false, cs, fun d hd => valid d (by simp [hd])⟩
      else some p
  | _ => some p

/-- `_canonical_path`. -/
def canonicalPath (host : Host) (value field : String) : Except StoreError String :=
  if isBlank value then .error (.domain .invalidRequest s!"{field} must not be empty")
  else if value.toList.contains '\x00' then
    .error (.domain .invalidRequest s!"{field} contains an invalid character")
  else match host.expandUser (.parse value) with
    | none => .error (.unresolvable field)
    | some path =>
        if path.absolute = false then
          .error (.domain .invalidRequest s!"{field} must be an absolute path")
        else match host.resolve path with
          | none => .error (.domain .invalidRequest s!"{field} cannot be resolved")
          | some path => .ok path.render

/-- `_canonical_relative_path`. -/
def canonicalRelativePath (value field : String) : Except StoreError String :=
  if isBlank value then .error (.domain .invalidRequest s!"{field} must not be empty")
  else if value.toList.contains '\x00' then
    .error (.domain .invalidRequest s!"{field} contains an invalid character")
  else
    let path := PurePath.parse value
    if path.absolute then .error (.domain .invalidRequest s!"{field} must be a relative path")
    else if path.parts = [] ∨ ".." ∈ path.parts then
      .error (.domain .invalidRequest s!"{field} escapes its logical root")
    else .ok path.render

/-! ## The user binding -/

/-- The user storage and the project directory a platform user is bound to. -/
@[ext] structure UserBinding where
  scopeId : String
  tenantRef : String
  userRef : String
  userPath : String
  projectRef : String
  projectPath : String
  storageRoot : String
  userRelPath : String
  projectRelPath : String
deriving DecidableEq, Repr

namespace UserBinding

/-- The reference fields of a binding are well formed. -/
def checkReferences : List (String × String) → Except StoreError Unit
  | [] => .ok ()
  | (field, value) :: rest =>
      if isReference value then checkReferences rest
      else .error (.domain .invalidRequest s!"{field} must be a stable 1-200 character reference")

/-- The storage root and the path below it, normalized and checked against the
user path. -/
def storagePaths (host : Host) (userPath storageRoot userRelPath : String) :
    Except StoreError (String × String) :=
  if storageRoot ≠ "" then do
    let storageRoot ← canonicalPath host storageRoot "storage_root"
    let userRelPath ← canonicalRelativePath userRelPath "user_rel_path"
    match host.resolve ((PurePath.parse storageRoot).join (.parse userRelPath)) with
    | none => .error (.unresolvable "user_path")
    | some expected =>
        if userPath ≠ expected.render then
          .error (.domain .invalidRequest "user_path must equal storage_root/user_rel_path")
        else .ok (storageRoot, userRelPath)
  else if userRelPath ≠ "" then
    .error (.domain .invalidRequest "storage_root is required when user_rel_path is provided")
  else .ok ("", "")

/-- The project path, given or below the user path. -/
def projectPathOf (host : Host) (userPath projectRef : String) :
    Option String → Except StoreError String
  | none => .ok ((PurePath.parse userPath).join
      (.parse ("workspace/projects/" ++ projectRef))).render
  | some path => canonicalPath host path "project_path"

/-- The project path relative to the user path, given and checked or derived. -/
def projectRelPathOf (host : Host) (userPath projectPath projectRelPath : String)
    (derived : PurePath) : Except StoreError String :=
  if projectRelPath ≠ "" then do
    let projectRelPath ← canonicalRelativePath projectRelPath "project_rel_path"
    match host.resolve ((PurePath.parse userPath).join (.parse projectRelPath)) with
    | none => .error (.unresolvable "project_path")
    | some expected =>
        if projectPath ≠ expected.render then
          .error (.domain .invalidRequest "project_path must equal user_path/project_rel_path")
        else .ok projectRelPath
  else .ok derived.render

/-- `UserBinding(...)` with its `__post_init__`. -/
def new (host : Host) (scopeId tenantRef userRef userPath projectRef : String)
    (projectPath : Option String) (storageRoot userRelPath projectRelPath : String) :
    Except StoreError UserBinding := do
  checkReferences [("scope_id", scopeId), ("tenant_ref", tenantRef), ("user_ref", userRef),
    ("project_ref", projectRef)]
  if scopeId ≠ userRef then
    throw (.domain .invalidRequest "scope_id must equal user_ref for a user execution scope")
  let userPath ← canonicalPath host userPath "user_path"
  let (storageRoot, userRelPath) ← storagePaths host userPath storageRoot userRelPath
  let projectPath ← projectPathOf host userPath projectRef projectPath
  match (PurePath.parse projectPath).relativeTo (.parse userPath) with
  | none => throw (.domain .invalidRequest "project_path must be located below user_path")
  | some derived =>
      if projectPath = userPath then
        throw (.domain .invalidRequest "project_path must not equal user_path")
      let projectRelPath ← projectRelPathOf host userPath projectPath projectRelPath derived
      return { scopeId, tenantRef, userRef, userPath, projectRef, projectPath, storageRoot,
               userRelPath, projectRelPath }

/-- `asdict`. -/
def asDict (b : UserBinding) : Json :=
  .obj [("scope_id", .str b.scopeId), ("tenant_ref", .str b.tenantRef),
    ("user_ref", .str b.userRef), ("user_path", .str b.userPath),
    ("project_ref", .str b.projectRef), ("project_path", .str b.projectPath),
    ("storage_root", .str b.storageRoot), ("user_rel_path", .str b.userRelPath),
    ("project_rel_path", .str b.projectRelPath)]

end UserBinding

/-- The binding of a context, or `null`. -/
def optBinding : Option UserBinding → Json
  | none => .null
  | some b => b.asDict

/-! ## Requests and snapshots -/

/-- An identifier drawn from the operating system, told apart by when it was
drawn. -/
structure Uuid where
  draw : Nat
deriving DecidableEq, Repr

/-- On whose behalf an operation runs. -/
structure ExecutionContext where
  scopeId : String := "default"
  actorRef : Option String := none
  externalRef : Option String := none
  userBinding : Option UserBinding := none
deriving DecidableEq, Repr

/-- `asdict`. -/
def ExecutionContext.asDict (c : ExecutionContext) : Json :=
  .obj [("scope_id", .str c.scopeId), ("actor_ref", .optStr c.actorRef),
    ("external_ref", .optStr c.externalRef), ("user_binding", optBinding c.userBinding)]

/-- `text or default` -/
def textOr (text : Option String) (default : String) : String :=
  match text with
  | some t => if t = "" then default else t
  | none => default

/-- `_actor`: the caller, or the API itself. -/
def ExecutionContext.actor (c : ExecutionContext) : String :=
  textOr c.actorRef "system:runtime/api"

/-- A Skill asked for by name. -/
structure SkillBinding where
  name : String
  version : Option String := none
deriving DecidableEq, Repr

/-- A request for a run. -/
structure RunRequest where
  sessionId : Uuid
  input : String
  agentRef : String := "general@1"
  skills : List SkillBinding := []
  context : ExecutionContext := {}
  skillPaths : Option (List String) := none
deriving DecidableEq, Repr

/-- A Skill frozen into a snapshot. -/
structure SkillRef where
  name : String
  version : String
  digest : String
  bundleRef : String
  sourceKind : String := "LEGACY"
  sourcePath : String := ""
  userRef : String := ""
  projectRef : String := ""
deriving DecidableEq, Repr

/-- The configuration of a run, frozen when it is accepted. -/
structure RunSnapshot where
  agentDigest : String
  runtimeRef : String
  modelProfileRef : String
  executionProfileRef : String
  skills : List SkillRef
  toolRefs : List String
  userBinding : Option UserBinding := none
  effectiveSkillPaths : List String := []
  skillPathSource : String := "LEGACY"
  pathDigest : String := ""
deriving DecidableEq, Repr

/-- `asdict`. -/
def SkillBinding.asDict (s : SkillBinding) : Json :=
  .obj [("name", .str s.name), ("version", .optStr s.version)]

/-- `asdict`. -/
def RunRequest.asDict (uuidText : Uuid → String) (r : RunRequest) : Json :=
  .obj [("session_id", .str (uuidText r.sessionId)), ("input", .str r.input),
    ("agent_ref", .str r.agentRef), ("skills", .arr (r.skills.map SkillBinding.asDict)),
    ("context", r.context.asDict),
    ("skill_paths", match r.skillPaths with
      | none => .null
      | some paths => .arr (paths.map .str))]

/-- `asdict`. -/
def SkillRef.asDict (s : SkillRef) : Json :=
  .obj [("name", .str s.name), ("version", .str s.version), ("digest", .str s.digest),
    ("bundle_ref", .str s.bundleRef), ("source_kind", .str s.sourceKind),
    ("source_path", .str s.sourcePath), ("user_ref", .str s.userRef),
    ("project_ref", .str s.projectRef)]

/-- `asdict`. -/
def RunSnapshot.asDict (s : RunSnapshot) : Json :=
  .obj [("agent_digest", .str s.agentDigest), ("runtime_ref", .str s.runtimeRef),
    ("model_profile_ref", .str s.modelProfileRef),
    ("execution_profile_ref", .str s.executionProfileRef),
    ("skills", .arr (s.skills.map SkillRef.asDict)),
    ("tool_refs", .arr (s.toolRefs.map .str)), ("user_binding", optBinding s.userBinding),
    ("effective_skill_paths", .arr (s.effectiveSkillPaths.map .str)),
    ("skill_path_source", .str s.skillPathSource), ("path_digest", .str s.pathDigest)]

/-- A run as the caller of an acceptance sees it. -/
structure AcceptedRun where
  id : Uuid
  sessionId : Uuid
  status : RunStatus
  stateVersion : Nat
  reused : Bool
deriving DecidableEq, Repr

/-- A request accepted before. -/
structure ExistingRequest where
  fingerprint : String
  run : AcceptedRun
deriving DecidableEq, Repr

/-- A workspace revision that was written to disk. -/
structure WorkspaceCommit where
  revisionId : String
  manifestDigest : String
  manifestRef : String
  storageRef : String
deriving DecidableEq, Repr

end CodeForge
