import CodeForge.Impala.Gates
import CodeForge.Lib.Interleaving
import CodeForge.Lib.JsonText
import CodeForge.Persistence.Ledger

/-!
# The Impala dispatcher

`ImpalaToolDispatcher.execute` takes a call of a tool through the ledger: the
call is prepared and started there, handed to `ImpalaTools.call`, and its result
is written to a file before the ledger says how it ended.  Calls that share one
of 64 locks do this one after the other, all others at the same time, and the
process may be killed and started again in between.

Every call is a client of what the calls share (`Dispatching`), and each of its
moves is one that no other call can come between: a transaction, a file that is
put in its place, a step of the event loop.  What comes from elsewhere is
arbitrary: the decision of the authorization, the result of `call`, and
exceptions at any point.
-/

namespace CodeForge.Impala

open Lib

/-! ## The call -/

/-- `SNAPSHOT_PREFIX` -/
def snapshotPrefix : String := "impala-binding@"

/-- The tools, with the names of their parameters. -/
def toolParameters : List (String × List String) :=
  [("impala_search_tables", ["database", "pattern"]),
    ("impala_describe_table", ["database", "table"]),
    ("impala_explain", ["sql"]),
    ("impala_query", ["sql", "max_rows"]),
    ("impala_query_status", ["query_ref"]),
    ("impala_cancel_query", ["query_ref"])]

/-- `specs`: all tools, if Impala was enabled at acceptance. -/
def specs (toolRefs : List String) : List (String × List String) :=
  if toolRefs.any fun ref => snapshotPrefix.toList.isPrefixOf ref.toList then toolParameters
  else []

/-- The arguments of `execute`, with what it reads of the run. -/
structure DispatchCall where
  scopeId : String
  runId : Uuid
  sessionId : Uuid
  workspaceId : Uuid
  /-- `run["config_snapshot"]["tool_refs"]` -/
  toolRefs : List String
  attemptId : Uuid
  /-- `call.get("id")` -/
  id : Json
  name : String
  /-- `function.get("arguments")` -/
  arguments : Json
  actor : String
  userBinding : Option UserBinding

/-- How a call ends. -/
inductive DispatchOutcome where
  | returned (result : Json)
  | raised (error : StoreError)
  /-- Any other exception. -/
  | stopped

/-- `_error` -/
def errorResult (code message : String) (status : String := "FAILED") : Json :=
  .obj [("status", .str status), ("error", .obj [("code", .str code), ("message", .str message)])]

mutual

/-- There is no `NaN` or infinity in a value, so that `encoded` goes through. -/
def finite : Json → Bool
  | .num literal => literal ∉ ["NaN", "Infinity", "-Infinity"]
  | .arr items => finiteItems items
  | .obj members => finiteMembers members
  | _ => true

def finiteItems : List Json → Bool
  | [] => true
  | j :: js => finite j && finiteItems js

def finiteMembers : List (String × Json) → Bool
  | [] => true
  | (_, j) :: ms => finite j && finiteMembers ms

end

namespace DispatchCall

/-- `json.loads(function.get("arguments") or "{}")` -/
def parsed (numerals : Json.Numerals) (c : DispatchCall) : Option Json :=
  if c.arguments.truthy then
    match c.arguments with
    | .str text =>
        match Json.loads numerals text with
        | .value j => some j
        | _ => none
    | _ => none
  else some (.obj [])

/-- `isinstance(call.get("id"), str) and 1 <= len(call["id"]) <= 200` -/
def stableId (c : DispatchCall) : Bool :=
  match c.id with
  | .str s => 1 ≤ s.length && s.length ≤ 200
  | _ => false

/-- The checks before the lock: the arguments, or how the call ends. -/
def check (numerals : Json.Numerals) (c : DispatchCall) :
    Except DispatchOutcome (List (String × Json)) :=
  match c.parsed numerals with
  | none => .error (.returned (errorResult "INVALID_REQUEST" "Invalid tool JSON"))
  | some arguments =>
      match (specs c.toolRefs).lookup c.name with
      | none =>
          .error (.returned
            (errorResult "CAPABILITY_DENIED" "Impala was not enabled at acceptance"))
      | some properties =>
          match arguments with
          | .obj members =>
              if members.any fun m => m.1 ∉ properties then
                .error (.returned (errorResult "INVALID_REQUEST" "Invalid Impala arguments"))
              else if finite arguments then
                if 40000 < (encoded arguments).length || !c.stableId then
                  .error (.returned
                    (errorResult "INVALID_REQUEST" "Input exceeds limit or lacks stable call ID"))
                else .ok members
              else .error .stopped
          | _ => .error (.returned (errorResult "INVALID_REQUEST" "Invalid Impala arguments"))

/-- The identifier of a call that passed the checks. -/
def callId (c : DispatchCall) : String :=
  match c.id with
  | .str s => s
  | _ => ""

/-- The slot of a call: it is dispatched once at most. -/
def slot (c : DispatchCall) : String × Uuid × Uuid × String :=
  (c.scopeId, c.runId, c.attemptId, c.callId)

/-- `cancelled()` is false. -/
def executing (c : DispatchCall) (db : Db) : Bool :=
  match db.run c.scopeId c.runId with
  | some run =>
      run.activeAttemptId = some c.attemptId &&
        (run.status = .running || run.status = .waitingExternal)
  | none => false

end DispatchCall

/-! ## What the dispatcher makes of it -/

/-- A dispatcher. -/
structure Dispatcher where
  deployment : Deployment
  numerals : Json.Numerals
  /-- The directory of operations without a binding. -/
  root : String
  /-- There is an authorization. -/
  authorization : Bool

/-- The value of the first byte, `digest()[0]`, of a hexadecimal digest. -/
def firstByte (digest : String) : Nat :=
  match digest.toList with
  | high :: low :: _ => 16 * (Json.hexValue high).getD 0 + (Json.hexValue low).getD 0
  | _ => 0

namespace Dispatcher

variable (D : Dispatcher) (c : DispatchCall)

/-- The lock of a call. -/
def lock : Fin 64 :=
  .ofNat 64 (firstByte (D.deployment.sha256 (encoded (.arr [.str c.scopeId,
    .str (D.deployment.uuidText c.runId), .str (D.deployment.uuidText c.attemptId),
    .str c.callId]))))

/-- The arguments of a call, none if it is refused. -/
def members : List (String × Json) :=
  match c.check D.numerals with
  | .ok members => members
  | .error _ => []

/-- `encoded([name, arguments])` -/
def request : List UInt8 := encoded (.arr [.str c.name, .obj (D.members c)])

/-- `logical_key` -/
def logicalKey : String :=
  "impala:" ++ D.deployment.sha256
    (encoded (.arr [.str (D.deployment.uuidText c.attemptId), .str c.callId]))

/-- The arguments of `prepare_tool`. -/
def toolCall : ToolCall where
  scopeId := c.scopeId
  runId := c.runId
  logicalCallKey := D.logicalKey c
  toolRef := c.name
  paramsDigest := D.deployment.sha256 (D.request c)
  inputRef := "impala-input:" ++ D.logicalKey c
  executionProfileRef := "impala@1"
  inputSummary := c.name
  workspaceId := some c.workspaceId
  inputText := Json.compact (.obj (D.members c))

/-- `directory / "result.json"` -/
def resultPath (operation : Uuid) : String :=
  match c.userBinding with
  | some b =>
      b.userPath ++ "/tool-output/" ++ D.deployment.uuidText c.sessionId ++ "/" ++
        D.deployment.uuidText c.runId ++ "/" ++ D.deployment.uuidText operation ++ "/result.json"
  | none => D.root ++ "/" ++ D.deployment.uuidText operation ++ "/result.json"

/-- What a repeated call ends with, by the status in the ledger and the result file. -/
def replay (status : ToolStatus) (file : Option (List UInt8)) : DispatchOutcome :=
  match file with
  | some bytes =>
      if status ∈ [.succeeded, .failed, .cancelled] then
        match loadBytes D.numerals bytes with
        | .value result => .returned result
        | _ => .stopped
      else
        .returned (errorResult "STATE_CONFLICT" "Operation requires remote verification" "UNKNOWN")
  | none =>
      .returned (errorResult "STATE_CONFLICT" "Operation requires remote verification" "UNKNOWN")

end Dispatcher

/-- The status that the ledger gets with a result, none if the result has none that can be looked
up. -/
def ledgerStatus (name : String) (result : List (String × Json)) : Option ToolStatus :=
  let told : Option ToolStatus :=
    match result.lookup "status" with
    | some (.str "SUCCEEDED") => some .succeeded
    | some (.str "FAILED") => some .failed
    | some (.str "CANCELLED") => some .cancelled
    | some (.str "UNKNOWN") => some .unknown
    | some (.arr _) | some (.obj _) | none => none
    | some _ => some .succeeded
  told.map fun status =>
    if name ∈ ["impala_query_status", "impala_cancel_query"] &&
        ((result.lookup "query_ref").getD .null).truthy then .succeeded
    else status

/-- `result.get("error")` -/
def errorOf (result : List (String × Json)) : Option (List (String × Json)) :=
  match result.lookup "error" with
  | some (.obj members) => some members
  | _ => none

/-- `result.get("truncated", False)` -/
def truncatedOf (result : List (String × Json)) : Bool :=
  match result.lookup "truncated" with
  | some (.bool b) => b
  | _ => false

/-! ## What calls share -/

/-- The store, the result files, the locks and the process, with the calls that entered
`ImpalaTools.call` and what they send to the server. -/
structure Dispatching (ι : Type) where
  store : Store
  results : String → Option (List UInt8)
  locks : Fin 64 → Option ι
  process : Nat
  entered : List (ι × List DriverCall)

/-- What one call of `ImpalaTools.call` sends to the server until it ends, or until the process is
killed. -/
inductive Sends : List DriverCall → Prop
  | nothing : Sends []
  | query {V : Type} {W : World V} {job : Job} {settle : Query V → Option Raised} {fuel : Nat}
      {sent : List DriverCall}
      (part : sent <+: (finalState (execute W job settle fuel) (Query.start job)).trace.map
        Reply.call) : Sends sent

/-- The point a call has come to. -/
inductive DispatchPhase where
  /-- It waits for its lock. -/
  | waiting
  | authorizing
  /-- `cancelled()` is next, -/
  | looking
  /-- then `prepare_tool`, -/
  | preparing
  /-- then the directory. -/
  | prepared (operation : Uuid) (status : ToolStatus)
  | opened (operation : Uuid) (status : ToolStatus)
  /-- `tools.call` is next. -/
  | started (operation : Uuid)
  | calling (operation : Uuid)
  /-- The result file is next, -/
  | answered (operation : Uuid) (status : ToolStatus) (result : List (String × Json))
  /-- then `append_tool_output`, -/
  | saved (operation : Uuid) (status : ToolStatus) (result : List (String × Json))
  /-- then `finish_tool`. -/
  | reported (operation : Uuid) (status : ToolStatus) (result : List (String × Json))
  /-- The result could not be kept. -/
  | failing (operation : Uuid)
  | finished (status : ToolStatus) (result : List (String × Json))
  /-- `transition_run` is next. -/
  | settling (version : Nat) (result : List (String × Json))

/-- A call. -/
inductive DispatchTask where
  | idle
  /-- The call runs in a process, and ends with it. -/
  | live (process : Nat) (phase : DispatchPhase)
  | ended (outcome : DispatchOutcome)

variable {ι : Type}

/-- The lock of a call is released, if it has it. -/
def Dispatching.release [DecidableEq ι] (s : Dispatching ι) (i : ι) : Dispatching ι :=
  { s with locks := fun k => if s.locks k = some i then none else s.locks k }

/-- What happens beside the calls. -/
inductive Around (D : Dispatcher) : Dispatching ι → Dispatching ι → Prop
  /-- Another call of the store. -/
  | call {s : Dispatching ι} (op : Op) (forward : op.Forward) :
      Around D s { s with store := op.exec D.deployment s.store }
  /-- A call of the store that is rolled back. -/
  | fault {s : Dispatching ι} {t : Store} (grown : s.store.Extends t)
      (rollback : t.db = s.store.db) : Around D s { s with store := t }
  /-- The process is killed, and another one starts. -/
  | crash {s : Dispatching ι} :
      Around D s { s with locks := fun _ => none, process := s.process + 1 }

/-- A move of a call. -/
inductive Moves [DecidableEq ι] (D : Dispatcher) (calls : ι → DispatchCall) (i : ι) :
    Dispatching ι → DispatchTask → Dispatching ι → DispatchTask → Prop
  | refuse {s : Dispatching ι} {outcome : DispatchOutcome}
      (refused : (calls i).check D.numerals = .error outcome) :
      Moves D calls i s .idle s (.ended outcome)
  | begin {s : Dispatching ι} {members : List (String × Json)}
      (checked : (calls i).check D.numerals = .ok members) :
      Moves D calls i s .idle s (.live s.process .waiting)
  | acquire {s : Dispatching ι} (free : s.locks (D.lock (calls i)) = none) :
      Moves D calls i s (.live s.process .waiting)
        { s with locks := Function.update s.locks (D.lock (calls i)) (some i) }
        (.live s.process .authorizing)
  | permit {s : Dispatching ι} :
      Moves D calls i s (.live s.process .authorizing) s (.live s.process .looking)
  | deny {s : Dispatching ι} {code message : String} (asked : D.authorization = true) :
      Moves D calls i s (.live s.process .authorizing) (s.release i)
        (.ended (.returned (errorResult code message)))
  | proceed {s : Dispatching ι} (executing : (calls i).executing s.store.db = true) :
      Moves D calls i s (.live s.process .looking) s (.live s.process .preparing)
  | leave {s : Dispatching ι} (gone : (calls i).executing s.store.db = false) :
      Moves D calls i s (.live s.process .looking) (s.release i) (.ended (.returned
        (.obj [("status", .str "CANCELLED"), ("reason", .str "Message is no longer executing")])))
  | prepare {s : Dispatching ι} {operation : Uuid} {status : ToolStatus} {t : Store}
      (done : prepareTool D.deployment (D.toolCall (calls i)) (calls i).actor s.store =
        .ok (operation, status) t) :
      Moves D calls i s (.live s.process .preparing) { s with store := t }
        (.live s.process (.prepared operation status))
  | reject {s : Dispatching ι} {error : StoreError} {t : Store}
      (failed : prepareTool D.deployment (D.toolCall (calls i)) (calls i).actor s.store =
        .error error t) :
      Moves D calls i s (.live s.process .preparing) ({ s with store := t }.release i)
        (.ended (.raised error))
  /-- The directory is made. -/
  | enterDirectory {s : Dispatching ι} {operation : Uuid} {status : ToolStatus} :
      Moves D calls i s (.live s.process (.prepared operation status)) s
        (.live s.process (.opened operation status))
  | replay {s : Dispatching ι} {operation : Uuid} {status : ToolStatus}
      (again : status ≠ .prepared) :
      Moves D calls i s (.live s.process (.opened operation status)) (s.release i)
        (.ended (D.replay status (s.results (D.resultPath (calls i) operation))))
  | start {s : Dispatching ι} {operation : Uuid} {t : Store}
      (done : startTool D.deployment (calls i).scopeId operation (calls i).actor s.store =
        .ok () t) :
      Moves D calls i s (.live s.process (.opened operation .prepared)) { s with store := t }
        (.live s.process (.started operation))
  | startRaised {s : Dispatching ι} {operation : Uuid} {error : StoreError} {t : Store}
      (failed : startTool D.deployment (calls i).scopeId operation (calls i).actor s.store =
        .error error t) :
      Moves D calls i s (.live s.process (.opened operation .prepared))
        ({ s with store := t }.release i) (.ended (.raised error))
  /-- `tools.call` is entered. -/
  | enter {s : Dispatching ι} {operation : Uuid} {sent : List DriverCall} (sends : Sends sent) :
      Moves D calls i s (.live s.process (.started operation))
        { s with entered := s.entered ++ [(i, sent)] } (.live s.process (.calling operation))
  | progress {s : Dispatching ι} {operation : Uuid} {text : String} :
      Moves D calls i s (.live s.process (.calling operation))
        { s with
          store := finalState (appendToolOutput D.deployment (calls i).scopeId operation "stdout"
            text false (calls i).actor) s.store }
        (.live s.process (.calling operation))
  /-- It returns a result, or raises an exception that a result is made of. -/
  | answer {s : Dispatching ι} {operation : Uuid} {status : ToolStatus}
      {result : List (String × Json)} (told : ledgerStatus (calls i).name result = some status) :
      Moves D calls i s (.live s.process (.calling operation)) s
        (.live s.process (.answered operation status result))
  | save {s : Dispatching ι} {operation : Uuid} {status : ToolStatus}
      {result : List (String × Json)} (encodes : finite (.obj result) = true) :
      Moves D calls i s (.live s.process (.answered operation status result))
        { s with
          results := Function.update s.results (D.resultPath (calls i) operation)
            (some (encoded (.obj result))) }
        (.live s.process (.saved operation status result))
  /-- The file cannot be written, or nobody can tell that it was. -/
  | saveRaised {s : Dispatching ι} {operation : Uuid} {status : ToolStatus}
      {result : List (String × Json)} {results : String → Option (List UInt8)}
      (wrote : results = s.results ∨ results = Function.update s.results
        (D.resultPath (calls i) operation) (some (encoded (.obj result)))) :
      Moves D calls i s (.live s.process (.answered operation status result)) { s with results }
        (.live s.process (.failing operation))
  | report {s : Dispatching ι} {operation : Uuid} {status : ToolStatus}
      {result : List (String × Json)} {t : Store}
      (done : appendToolOutput D.deployment (calls i).scopeId operation "stdout"
        (Json.compact (.obj result)) (truncatedOf result) (calls i).actor s.store = .ok () t) :
      Moves D calls i s (.live s.process (.saved operation status result)) { s with store := t }
        (.live s.process (.reported operation status result))
  /-- An exception of the log file, or of the store. -/
  | reportRaised {s : Dispatching ι} {operation : Uuid} {status : ToolStatus}
      {result : List (String × Json)} {t : Store}
      (failed : t = s.store ∨ ∃ error, appendToolOutput D.deployment (calls i).scopeId operation
        "stdout" (Json.compact (.obj result)) (truncatedOf result) (calls i).actor s.store =
          .error error t) :
      Moves D calls i s (.live s.process (.saved operation status result)) { s with store := t }
        (.live s.process (.failing operation))
  | finish {s : Dispatching ι} {operation : Uuid} {status : ToolStatus}
      {result : List (String × Json)} {t : Store}
      (done : finishTool D.deployment (calls i).scopeId operation status
        (some (D.resultPath (calls i) operation)) (errorOf result) (calls i).actor none s.store =
          .ok () t) :
      Moves D calls i s (.live s.process (.reported operation status result)) { s with store := t }
        (.live s.process (.finished status result))
  | finishRaised {s : Dispatching ι} {operation : Uuid} {status : ToolStatus}
      {result : List (String × Json)} {error : StoreError} {t : Store}
      (failed : finishTool D.deployment (calls i).scopeId operation status
        (some (D.resultPath (calls i) operation)) (errorOf result) (calls i).actor none s.store =
          .error error t) :
      Moves D calls i s (.live s.process (.reported operation status result)) { s with store := t }
        (.live s.process (.failing operation))
  | fail {s : Dispatching ι} {operation : Uuid} {t : Store}
      (done : finishTool D.deployment (calls i).scopeId operation .unknown none
        (some [("code", .str "EXECUTION_FAILED"),
          ("message", .str "Impala result persistence failed")]) (calls i).actor none s.store =
          .ok () t) :
      Moves D calls i s (.live s.process (.failing operation)) ({ s with store := t }.release i)
        (.ended (.raised (.domain .executionFailed "Impala result persistence failed")))
  | failRaised {s : Dispatching ι} {operation : Uuid} {error : StoreError} {t : Store}
      (failed : finishTool D.deployment (calls i).scopeId operation .unknown none
        (some [("code", .str "EXECUTION_FAILED"),
          ("message", .str "Impala result persistence failed")]) (calls i).actor none s.store =
          .error error t) :
      Moves D calls i s (.live s.process (.failing operation)) ({ s with store := t }.release i)
        (.ended (.raised error))
  | conclude {s : Dispatching ι} {status : ToolStatus} {result : List (String × Json)}
      (stays : status = .cancelled → ∀ run,
        s.store.db.run (calls i).scopeId (calls i).runId = some run → run.status ≠ .cancelling) :
      Moves D calls i s (.live s.process (.finished status result)) (s.release i)
        (.ended (.returned (.obj result)))
  | settle {s : Dispatching ι} {result : List (String × Json)} {run : RunRow}
      (known : s.store.db.run (calls i).scopeId (calls i).runId = some run)
      (cancelling : run.status = .cancelling) :
      Moves D calls i s (.live s.process (.finished .cancelled result)) s
        (.live s.process (.settling run.stateVersion result))
  | settled {s : Dispatching ι} {version : Nat} {result : List (String × Json)}
      {row : Option RunRow} {t : Store}
      (done : transitionRun D.deployment (calls i).scopeId (calls i).runId version .cancelled {}
        (some (calls i).actor) s.store = .ok row t) :
      Moves D calls i s (.live s.process (.settling version result))
        ({ s with store := t }.release i) (.ended (.returned (.obj result)))
  | settleRaised {s : Dispatching ι} {version : Nat} {result : List (String × Json)}
      {error : StoreError} {t : Store}
      (failed : transitionRun D.deployment (calls i).scopeId (calls i).runId version .cancelled {}
        (some (calls i).actor) s.store = .error error t) :
      Moves D calls i s (.live s.process (.settling version result))
        ({ s with store := t }.release i) (.ended (.raised error))
  /-- An exception that nothing handles ends the call. -/
  | stop {s : Dispatching ι} {phase : DispatchPhase} :
      Moves D calls i s (.live s.process phase) (s.release i) (.ended .stopped)

/-- Any number of calls of one dispatcher, and whatever else happens. -/
def dispatching [DecidableEq ι] (D : Dispatcher) (calls : ι → DispatchCall) :
    Lib.System (Dispatching ι) DispatchTask ι where
  env := Around D
  client := Moves D calls

end CodeForge.Impala
