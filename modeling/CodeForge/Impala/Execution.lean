import CodeForge.Lib.Fallible
import CodeForge.Impala.Results

/-!
# Executing a query

`_execute` runs one query on one connection.  Everything it does not decide
itself is a `World`: what every call of the driver returns or raises, what the
values the driver returns are, when a cancellation is requested, what the clock
says and what the configuration is when it is read again.  The answers are
given by the number of things asked before, so a world may change its mind at
any time.

The local variables of `_execute` are the state (`Query`).  It also keeps the
calls of the driver with their answers.

The two loops wait for the server and fetch rows.  They take an amount of fuel,
and a query that uses it up has no outcome.
-/

namespace CodeForge.Impala

open Lib

/-! ## The world -/

/-- A call of the driver. -/
inductive DriverCall where
  | connect
  | cursor
  | setArraysize
  | executeAsync (sql : String) (configuration : List (String × String))
  | status
  | fetchmany
  | description
  | cancelOperation
  | closeCursor
  | closeConnection
deriving DecidableEq

/-- What a query meets.  The driver returns values of type `V`. -/
structure World (V : Type) where
  call : Nat → DriverCall → Except Raised V
  /-- The identifier of the last operation, where it is there and made of bytes. -/
  guid : Nat → Except Raised (Option (List UInt8))
  /-- The query was asked to stop. -/
  flag : Nat → Bool
  /-- The adapter was. -/
  stopping : Nat → Bool
  /-- The message is no longer executing. -/
  cancelled : Nat → Bool
  /-- `time.monotonic()`, in nanoseconds. -/
  monotonic : Nat → Fin (2 ^ 63)
  resolve : Nat → Resolution
  /-- What the record of the query raises when it is saved. -/
  save : Nat → Option Raised
  isNone : V → Bool
  truthy : V → Except Raised Bool
  /-- `v == s` -/
  equals : V → String → Except Raised Bool
  hash : V → Except Raised Unit
  /-- `len(v)` -/
  length : V → Except Raised Nat
  /-- `v[0]` -/
  first : V → Except Raised V
  /-- What `for` goes through. -/
  items : V → Except Raised (List V)
  /-- `str(v)` -/
  text : V → Except Raised String
  cell : V → Cell

/-- A call of the driver, with what it returned or raised. -/
structure Reply (V : Type) where
  call : DriverCall
  answer : Except Raised V

/-- What a query is to do. -/
structure Job where
  ref : String
  profile : DepartmentProfile
  sql : String
  rows : Nat

/-- The local variables of a query, with what it did so far. -/
structure Query (V : Type) where
  asks : Nat := 0
  trace : List (Reply V) := []
  connection : Option V := none
  cursor : Option V := none
  dispatched : Bool := false
  result : QueryResult

/-- Why a program stops. -/
inductive Stop where
  | raised (e : Raised)
  | outOfFuel

/-- Programs of a query. -/
abbrev QueryM (V : Type) := EStateM Stop (Query V)

namespace QueryM

variable {V α : Type}

def raise (e : Raised) : QueryM V α := throw (.raised e)

/-- Raise an exception under a condition. -/
def raiseIf (b : Bool) (e : Raised) : QueryM V Unit := if b then raise e else pure ()

/-- The value of a pure computation, or its exception. -/
def ofExcept : Except Raised α → QueryM V α
  | .ok a => pure a
  | .error e => raise e

/-- `try`, with the exception as a value. -/
def attempt (body : QueryM V α) : QueryM V (Except Raised α) := fun s =>
  match body s with
  | .ok a t => .ok (.ok a) t
  | .error (.raised e) t => .ok (.error e) t
  | .error .outOfFuel t => .error .outOfFuel t

/-- Ask the world. -/
def ask (question : Nat → α) : QueryM V α := fun s =>
  .ok (question s.asks) { s with asks := s.asks + 1 }

/-- Change the result. -/
def setResult (f : QueryResult → QueryResult) : QueryM V Unit :=
  modify fun s => { s with result := f s.result }

end QueryM

section Program

variable {V : Type} (W : World V)

open QueryM

/-- Call the driver. -/
def callDriver (c : DriverCall) : QueryM V V := fun s =>
  let answer := W.call s.asks c
  let t := { s with asks := s.asks + 1, trace := s.trace ++ [⟨c, answer⟩] }
  match answer with
  | .ok v => .ok v t
  | .error e => .error (.raised e) t

/-- A call of the connection, which may be `None`. -/
def onConnection (c : DriverCall) : QueryM V V := do
  match (← get).connection with
  | some _ => callDriver W c
  | none => raise .error

/-- A call of the cursor, which may be `None`. -/
def onCursor (c : DriverCall) : QueryM V V := do
  match (← get).cursor with
  | some _ => callDriver W c
  | none => raise .error

/-- `flag.is_set() or self._stopping.is_set() or cancelled()` -/
def requested : QueryM V Bool := ask fun n => W.flag n || W.stopping n || W.cancelled n

variable (job : Job) (deadline : Nat)

/-! ## The loops -/

/-- The first of some strings the value is. -/
def World.find (v : V) : List String → Except Raised (Option String)
  | [] => .ok none
  | name :: names => do
      if ← W.equals v name then return some name
      else World.find v names

/-- The member of a set of strings the value is, `v in {...}`. -/
def World.oneOf (v : V) (names : List String) : Except Raised (Option String) := do
  W.hash v
  W.find v names

/-- `checkpoint` -/
def checkpoint : QueryM V Unit := do
  raiseIf (← requested W) (.domain .executionFailed "Query cancellation requested")
  let now ← ask W.monotonic
  raiseIf (deadline ≤ now.val) (.domain .executionFailed "Impala query deadline exceeded")
  let resolution ← ask W.resolve
  ofExcept (require job.profile.digest resolution)

/-- `wait_finished` -/
def waitFinished : Nat → QueryM V Unit
  | 0 => throw .outOfFuel
  | fuel + 1 => do
      checkpoint W job deadline
      let state ← onCursor W .status
      if ← ofExcept (W.equals state "FINISHED_STATE") then return ()
      else
        match ← ofExcept (W.oneOf state ["ERROR_STATE", "CANCELED_STATE", "CLOSED_STATE"]) with
        | some name => raise (.domain .executionFailed s!"Impala returned {name}")
        | none => waitFinished fuel

/-- Note why the result is not all of it. -/
def QueryResult.truncate (r : QueryResult) (reason : Truncation) : QueryResult :=
  { r with truncationReasons := r.truncationReasons ++ [reason] }

/-- The result with one more row. -/
def QueryResult.addRow (r : QueryResult) (cells : List Json) : QueryResult :=
  { r with rows := r.rows ++ [cells] }

/-- The result leaves no space for the final status, the counts and the diagnostics. -/
def Job.overflows (job : Job) (r : QueryResult) : Bool :=
  job.profile.policy.maxBytes - 1024 < r.size

/-- The loop over the rows. -/
def fetchRows : Nat → QueryM V Unit
  | 0 => throw .outOfFuel
  | fuel + 1 => do
      checkpoint W job deadline
      let batch ← onCursor W .fetchmany
      if ← ofExcept (W.truthy batch) then
        let result := (← get).result
        if job.rows ≤ result.rows.length then
          setResult (QueryResult.truncate · .rowLimit)
        else
          let values ← ofExcept (W.first batch >>= W.items)
          let (cells, cut) ← ofExcept (row job.profile.policy.cellBytes (values.map W.cell))
          if job.overflows (result.addRow cells) then
            setResult (QueryResult.truncate · .byteLimit)
          else
            setResult fun r =>
              let r := r.addRow cells
              if cut && !r.truncationReasons.contains .cellLimit then r.truncate .cellLimit else r
            fetchRows fuel
      else return ()

/-! ## The query -/

/-- The options a statement is executed with. -/
def Job.options (job : Job) : List (String × String) :=
  let policy := job.profile.policy
  [("EXEC_TIME_LIMIT_S", toString policy.timeoutSeconds),
    ("MEM_LIMIT", s!"{policy.memLimitMb}m"),
    ("SCAN_BYTES_LIMIT", s!"{policy.scanBytesLimitMb}m"),
    ("NUM_ROWS_PRODUCED_LIMIT", toString (max (job.rows + 1) (policy.maxRows + 1))),
    ("MAX_ROW_SIZE", "64k"), ("FETCH_ROWS_TIMEOUT_MS", "1000")] ++
    if job.profile.requestPool ≠ "" then [("REQUEST_POOL", job.profile.requestPool)] else []

/-- Keep what the driver returned, unless it is `None`. -/
def World.handle (v : V) : Option V := if W.isNone v then none else some v

/-- Open the connection and the cursor. -/
def openCursor : QueryM V Unit := do
  let connection ← callDriver W .connect
  modify fun s => { s with connection := W.handle connection }
  let cursor ← onConnection W .cursor
  modify fun s => { s with cursor := W.handle cursor }
  let _ ← onCursor W .setArraysize

/-- The first cell of the first row is the account, `identity and identity[0][0] == user`. -/
def World.isAccount (identity : V) (user : String) : Except Raised Bool := do
  if ← W.truthy identity then
    let row ← W.first identity
    let cell ← W.first row
    W.equals cell user
  else return false

/-- Verify the account before it is used. -/
def verifyAccount (fuel : Nat) : QueryM V Unit := do
  modify fun s => { s with dispatched := true }
  let _ ← onCursor W (.executeAsync "SELECT effective_user()" job.options)
  waitFinished W job deadline fuel
  let identity ← onCursor W .fetchmany
  let same ← ofExcept (W.isAccount identity job.profile.user)
  raiseIf (!same) (.domain .capabilityDenied "Impala effective account mismatch")

/-- Submit the statement and wait for it. -/
def submit (fuel : Nat) : QueryM V Unit := do
  let _ ← onCursor W (.executeAsync job.sql job.options)
  let guid ← ask W.guid
  let queryId ← ofExcept (guid.map queryIdOf)
  setResult fun r => { r with queryId }
  let saved ← ask W.save
  ofExcept (saved.elim (.ok ()) .error)
  waitFinished W job deadline fuel

/-- The names of the columns. -/
def World.columnNames : List V → Except Raised (List String)
  | [] => .ok []
  | v :: vs => do
      let name ← W.first v >>= W.text
      let names ← columnNames vs
      return String.ofList (name.toList.take 128) :: names

/-- The number of columns of a description, and their names. -/
def World.columns (description : V) : Except Raised (Nat × Except Raised (List String)) := do
  if ← W.truthy description then
    return (← W.length description, W.items description >>= W.columnNames)
  else return (0, .ok [])

/-- Read the description of the columns. -/
def describe : QueryM V Unit := do
  let description ← onCursor W .description
  let (count, names) ← ofExcept (W.columns description)
  raiseIf (job.profile.policy.maxColumns < count)
    (.domain .invalidRequest "Result has too many columns")
  let columns ← ofExcept names
  setResult fun r => { r with columns }
  let result := (← get).result
  raiseIf (job.overflows result)
    (.domain .invalidRequest "Result column metadata exceeds byte limit")

/-- The `try` block. -/
def runQuery (fuel : Nat) : QueryM V Unit := do
  checkpoint W job deadline
  openCursor W
  verifyAccount W job deadline fuel
  checkpoint W job deadline
  submit W job deadline fuel
  describe W job
  fetchRows W job deadline fuel
  checkpoint W job deadline
  setResult fun r => { r with status := .succeeded }

/-! ## The end of a query -/

/-- The `except` clauses.  An exception they do not catch is returned. -/
def handleFailure (outcome : Except Raised Unit) : QueryM V (Option Raised) := do
  match outcome with
  | .ok _ => return none
  | .error (.domain code message) =>
      setResult fun r => { r with status := .failed, error := some ⟨code, message⟩ }
      let cancelled ← requested W
      setResult fun r => if cancelled then { r with status := .cancelled } else r
      return none
  | .error .error =>
      let dispatched := (← get).dispatched
      setResult fun r =>
        { r with
          status := if dispatched then .unknown else .failed
          error := some
            ⟨.executionFailed, "Impala connection/query failed; remote status may be unknown"⟩ }
      return none
  | .error .exit => return some .exit

/-- The states an operation ends in. -/
def terminalStates : List String :=
  ["CANCELED_STATE", "CLOSED_STATE", "FINISHED_STATE", "ERROR_STATE"]

/-- Cancel the operation, unless the query succeeded. -/
def cancelOperation : QueryM V Unit := do
  let result := (← get).result
  if result.status = .succeeded then return ()
  else
    let _ ← onCursor W .cancelOperation
    let state ← onCursor W .status
    let terminal ← ofExcept (W.oneOf state terminalStates)
    setResult fun r => if terminal.isSome then r else { r with status := .unknown }

/-- `except Exception` of the clean-up. -/
def orUnknown (body : QueryM V Unit) (f : QueryResult → QueryResult) : QueryM V Unit := do
  match ← attempt body with
  | .ok _ => return ()
  | .error .exit => raise .exit
  | .error _ => setResult fun r => f { r with status := .unknown }

/-- Close the cursor. -/
def closeCursor : QueryM V Unit := do
  if (← get).cursor.isSome then
    orUnknown
      (do
        cancelOperation W
        let _ ← onCursor W .closeCursor)
      fun r =>
        { r with error := some ⟨.executionFailed, "Remote cleanup could not be confirmed"⟩ }
  else return ()

/-- Close the connection. -/
def closeConnection : QueryM V Unit := do
  if (← get).connection.isSome then
    orUnknown
      (do
        let _ ← onConnection W .closeConnection)
      id
  else return ()

/-- Nanoseconds in milliseconds, rounded to the nearest even number. -/
def roundMs (ns : Int) : Int :=
  let q := ns / 1000000
  let r := ns % 1000000
  if 500000 < r ∨ r = 500000 ∧ q % 2 = 1 then q + 1 else q

/-- The result as it is saved. -/
def QueryResult.finish (r : QueryResult) (elapsedMs : Int) : QueryResult :=
  let rows := if r.status = .succeeded then r.rows else []
  { r with
    rows
    columns := if r.status = .succeeded then r.columns else []
    rowCount := rows.length
    truncated := !r.truncationReasons.isEmpty
    elapsedMs := some elapsedMs }

/-- `_execute` up to where the result is saved, with an exception that is still to be raised. -/
def conclude (fuel : Nat) : QueryM V (Option Raised) := do
  let start ← ask W.monotonic
  let deadline := start.val + job.profile.policy.timeoutSeconds * 1000000000
  let outcome ← attempt (runQuery W job deadline fuel)
  let pending ← handleFailure W outcome
  closeCursor W
  closeConnection W
  let stop ← ask W.monotonic
  setResult (QueryResult.finish · (roundMs (stop.val - start.val)))
  return pending

/-- `ImpalaTools._execute`, where saving the result and settling the budgets may fail. -/
def execute (settle : Query V → Option Raised) (fuel : Nat) : QueryM V QueryResult := do
  let pending ← conclude W job fuel
  match settle (← get), pending with
  | some e, _ => raise e
  | none, some e => raise e
  | none, none => return (← get).result

end Program

/-- The variables a query starts with. -/
def Query.start {V : Type} (job : Job) : Query V where
  result :=
    { queryRef := job.ref, department := job.profile.department, account := job.profile.user }

end CodeForge.Impala
