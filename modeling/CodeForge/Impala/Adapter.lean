import CodeForge.Impala.Sizes

/-!
# The adapter

An `Adapter` is what `ImpalaTools` keeps: a file for each budget and each query,
which survive the process, and in memory the queries that are active.  A file is
given by the value it holds.

A query reserves what it may use in three budgets, one of its message and one
for the hour of its user and of its department.  When it ends, its result is
saved and what it did not use is given back.  Between any two writes of files
the process may crash, and any of them may raise an exception, before or after
the file is replaced.

`_reserve`, `_save` and the end of `_execute` hold a lock, so a `Step` is one of
them, done as a whole or up to some write.  A crash in the middle of one is such
a step, and then the step `crash`.  The list of reservations is for proofs only
(`System`).
-/

namespace CodeForge.Impala

open Lib

/-! ## Budgets -/

/-- What a budget counts. -/
inductive Resource where
  | queries
  | rows
  | bytes
deriving DecidableEq, Repr

/-- The numbers in a budget. -/
abbrev Budget := Resource → Int

/-- What has a budget. -/
inductive Bucket where
  | message (scopeId runId : String)
  | userHour (scopeId : String) (hour : Nat)
  | departmentHour (department : String) (hour : Nat)
deriving DecidableEq

/-- What the name of the file is the digest of. -/
def Bucket.key : Bucket → Json
  | .message scopeId runId => .arr [.str scopeId, .str runId]
  | .userHour scopeId hour => .arr [.str "user", .str scopeId, .nat hour]
  | .departmentHour department hour => .arr [.str "department", .str department, .nat hour]

/-- The limits of a policy. -/
def Bucket.limit (policy : QueryPolicy) : Bucket → Resource → Nat
  | .message _ _, .queries => policy.maxQueriesPerMessage
  | .message _ _, .rows => policy.maxRowsPerMessage
  | .message _ _, .bytes => policy.maxBytesPerMessage
  | .userHour _ _, .queries => policy.maxQueriesPerUserHour
  | .userHour _ _, .rows => policy.maxRowsPerUserHour
  | .userHour _ _, .bytes => policy.maxBytesPerUserHour
  | .departmentHour _ _, .queries => policy.maxQueriesPerDepartmentHour
  | .departmentHour _ _, .rows => policy.maxRowsPerDepartmentHour
  | .departmentHour _ _, .bytes => policy.maxBytesPerDepartmentHour

/-! ## The state -/

/-- The fields of a run the adapter reads. -/
structure Caller where
  scopeId : String
  sessionId : String
  id : String
deriving DecidableEq

/-- The file of a query. -/
structure QueryRecord where
  scopeId : String
  sessionId : String
  messageExecutionRef : String
  department : String
  account : String
  bindingDigest : String
  result : List (String × Json)

/-- An active query, with its flag. -/
structure Active where
  ref : String
  scopeId : String
  department : String
  flag : Bool := false
deriving DecidableEq

/-- `ImpalaTools` -/
structure Adapter where
  /-- The budgets, by the names of their files. -/
  budgets : String → Option Budget := fun _ => none
  /-- The queries, by reference. -/
  records : String → Option QueryRecord := fun _ => none
  active : List Active := []
  stopping : Bool := false

/-- `str(UUID(query_ref)) == query_ref` -/
def isQueryRef (ref : String) : Bool :=
  ref.toList.length = 36 && ref.toList.zipIdx.all fun (c, i) =>
    if i ∈ [8, 13, 18, 23] then c = '-' else c.isDigit || 'a' ≤ c && c ≤ 'f'

/-! ## Calls -/

/-- The tools that run a statement. -/
inductive StatementTool where
  | searchTables
  | describeTable
  | explain
  | query
deriving DecidableEq

/-- The number of rows a call asks for, as `call` and `bounded_select` have it. -/
def requestedRows (policy : QueryPolicy) (tool : StatementTool) (maxRows : Option Int) :
    Except Raised Nat :=
  match tool with
  | .query =>
      let rows := maxRows.getD policy.defaultRows
      if 1 ≤ rows ∧ rows ≤ policy.maxRows then .ok rows.toNat
      else .error (.domain .invalidRequest "Query row limit exceeds policy")
  | _ => .ok policy.maxRows

section Budgets

variable (sha256 : List UInt8 → String)

/-- The name of the file of a budget. -/
def Bucket.path (bucket : Bucket) : String := sha256 (encoded bucket.key)

/-- The budget as it is stored, or a new one. -/
def Adapter.budget (a : Adapter) (bucket : Bucket) : Budget :=
  (a.budgets (bucket.path sha256)).getD fun _ => 0

/-- Write the file of a budget. -/
def Adapter.write (a : Adapter) (bucket : Bucket) (budget : Budget) : Adapter :=
  { a with budgets := Function.update a.budgets (bucket.path sha256) (some budget) }

/-- The three budgets of a query. -/
def budgetsOf (caller : Caller) (department : String) (hour : Nat) : List Bucket :=
  [.message caller.scopeId caller.id, .userHour caller.scopeId hour,
    .departmentHour department hour]

/-- One more query with its rows and bytes, where the limits allow it. -/
def Adapter.charge (a : Adapter) (policy : QueryPolicy) (rows : Nat) (bucket : Bucket) :
    Except Raised (Bucket × Budget) :=
  let budget := a.budget sha256 bucket
  let limit := bucket.limit policy
  if limit .queries ≤ budget .queries ∨ limit .rows < budget .rows + rows ∨
      limit .bytes < budget .bytes + policy.maxBytes then
    .error (.domain .capabilityDenied "Impala message/user/department budget exceeded")
  else
    .ok (bucket, fun
      | .queries => budget .queries + 1
      | .rows => budget .rows + rows
      | .bytes => budget .bytes + policy.maxBytes)

/-- The checks of `_reserve`, and the budgets it is going to write. -/
def Adapter.plan (a : Adapter) (caller : Caller) (job : Job) (hour : Nat) :
    Except Raised (List (Bucket × Budget)) := do
  let policy := job.profile.policy
  if a.stopping then throw (.domain .capabilityDenied "Impala adapter is stopping")
  if !isQueryRef job.ref then throw (.domain .invalidRequest "Invalid query_ref")
  if (a.records job.ref).isSome then
    throw (.domain .stateConflict "Query already exists; do not resubmit")
  let users := a.active.countP (·.scopeId = caller.scopeId)
  let departments := a.active.countP (·.department = job.profile.department)
  if policy.maxUserConcurrency ≤ users ∨ policy.maxDepartmentConcurrency ≤ departments then
    throw (.domain .capabilityDenied "Impala concurrency budget exceeded")
  (budgetsOf caller job.profile.department hour).mapM (a.charge sha256 policy job.rows)

/-- Write some budgets. -/
def Adapter.writeAll (a : Adapter) (plan : List (Bucket × Budget)) : Adapter :=
  plan.foldl (fun a p => a.write sha256 p.1 p.2) a

/-- The record a query starts with. -/
def Adapter.record (a : Adapter) (caller : Caller) (job : Job) : Adapter :=
  { a with
    records := Function.update a.records job.ref (some
      { scopeId := caller.scopeId
        sessionId := caller.sessionId
        messageExecutionRef := caller.id
        department := job.profile.department
        account := job.profile.user
        bindingDigest := job.profile.digest
        result := [("query_ref", .str job.ref), ("query_id", .null), ("status", .str "RUNNING")] }) }

/-- `_active[ref] = …` -/
def Adapter.register (a : Adapter) (caller : Caller) (job : Job) : Adapter :=
  { a with
    active := a.active.filter (·.ref ≠ job.ref) ++
      [{ ref := job.ref, scopeId := caller.scopeId, department := job.profile.department }] }

/-- `_active.pop(ref, None)` -/
def Adapter.unregister (a : Adapter) (ref : String) : Adapter :=
  { a with active := a.active.filter (·.ref ≠ ref) }

/-- `_save` -/
def Adapter.save (a : Adapter) (ref : String) (result : QueryResult) : Option Adapter :=
  (a.records ref).map fun record =>
    { a with
      records := Function.update a.records ref
        (some { record with result := result.fixed ++ result.late }) }

/-- Give back the rows and bytes a query did not use. -/
def Adapter.refund (job : Job) (result : QueryResult) (a : Adapter) (bucket : Bucket) :
    Option Adapter :=
  (a.budgets (bucket.path sha256)).map fun budget =>
    a.write sha256 bucket fun
      | .queries => budget .queries
      | .rows => budget .rows - (job.rows - result.rowCount)
      | .bytes => budget .bytes - (job.profile.policy.maxBytes - result.size)

end Budgets

/-! ## Control -/

/-- `result[key] = value` -/
def setMember (ms : List (String × Json)) (key : String) (value : Json) : List (String × Json) :=
  if ms.any (·.1 = key) then ms.map fun m => if m.1 = key then (key, value) else m
  else ms ++ [(key, value)]

/-- The status in a result. -/
def statusOf (ms : List (String × Json)) : Option String :=
  match ms.lookup "status" with
  | some (.str status) => some status
  | _ => none

/-- Set the flag of an active query. -/
def Adapter.setFlag (a : Adapter) (ref : String) : Adapter :=
  { a with active := a.active.map fun e => if e.ref = ref then { e with flag := true } else e }

/-- `_control` -/
def Adapter.control (a : Adapter) (caller : Caller) (ref : String) (cancel : Bool) :
    Except Raised (List (String × Json)) × Adapter :=
  if !isQueryRef ref then (.error (.domain .invalidRequest "Invalid query_ref"), a)
  else
    match a.records ref with
    | none => (.error (.domain .capabilityDenied "Query is unavailable"), a)
    | some record =>
        if record.scopeId ≠ caller.scopeId ∨ record.sessionId ≠ caller.sessionId then
          (.error (.domain .capabilityDenied "Query is unavailable"), a)
        else
          let result := record.result.filter fun m => m.1 ∉ ["rows", "columns"]
          let active := a.active.any (·.ref = ref)
          if active ∧ cancel then
            (.ok (setMember result "status" (.str "CANCELLING")), a.setFlag ref)
          else if !active ∧ statusOf result = some "RUNNING" then
            let reason :=
              if cancel then "Remote handle lost; operator cancellation is required"
              else "Adapter restarted; remote state is unverified"
            (.ok (setMember (setMember result "status" (.str "UNKNOWN")) "reason" (.str reason)), a)
          else (.ok result, a)

/-! ## Runs -/

/-- A reservation: the budgets it was written to, whether `_reserve` returned, the result that was
saved at the end, and the budgets that were given back to. -/
structure Reservation where
  caller : Caller
  job : Job
  charged : List Bucket
  complete : Bool
  result : Option QueryResult := none
  refunded : List Bucket := []

/-- The adapter, with the reservations of the queries that run in this process and of others. -/
structure System where
  adapter : Adapter := {}
  running : List Reservation := []
  past : List Reservation := []

/-- A result `_execute` ends with, where the driver knows nothing of the errors of the adapter. -/
def Concluded (job : Job) (result : QueryResult) : Prop :=
  ∃ (V : Type) (W : World V) (fuel : Nat) (pending : Option Raised) (t : Query V),
    W.Foreign ∧ conclude W job fuel (Query.start job) = .ok pending t ∧ t.result = result

variable (sha256 : List UInt8 → String) (policy : QueryPolicy)

/-- A step of the adapter. -/
inductive Step : System → System → Prop where
  /-- `_reserve` is done. -/
  | reserve {s : System} {caller : Caller} {job : Job} {hour : Nat} {tool : StatementTool}
      {maxRows : Option Int} {plan : List (Bucket × Budget)} (same : job.profile.policy = policy)
      (rows : requestedRows policy tool maxRows = .ok job.rows)
      (admitted : s.adapter.plan sha256 caller job hour = .ok plan) :
      Step s
        { s with
          adapter := ((s.adapter.writeAll sha256 plan).record caller job).register caller job
          running := s.running ++ [⟨caller, job, plan.map Prod.fst, true, none, []⟩] }
  /-- `_reserve` stops after some writes.  The last one is that of the record. -/
  | reserveCut {s : System} {caller : Caller} {job : Job} {hour : Nat} {tool : StatementTool}
      {maxRows : Option Int} {plan : List (Bucket × Budget)} (same : job.profile.policy = policy)
      (rows : requestedRows policy tool maxRows = .ok job.rows)
      (admitted : s.adapter.plan sha256 caller job hour = .ok plan) (writes : Nat) :
      Step s
        { s with
          adapter :=
            if plan.length < writes then (s.adapter.writeAll sha256 plan).record caller job
            else s.adapter.writeAll sha256 (plan.take writes)
          past := s.past ++ [⟨caller, job, (plan.take writes).map Prod.fst, false, none, []⟩] }
  /-- A running query saves its identifier. -/
  | note {s : System} {before after : List Reservation} {r : Reservation} {result : QueryResult}
      {a : Adapter} (running : s.running = before ++ r :: after) (is : result.status = .running)
      (saved : s.adapter.save r.job.ref result = some a) : Step s { s with adapter := a }
  /-- A query ends: its result is saved, and it gives back to some of its budgets, to all of them
  if nothing goes wrong. -/
  | settle {s : System} {before after : List Reservation} {r : Reservation} {result : QueryResult}
      {a b : Adapter} (running : s.running = before ++ r :: after)
      (concluded : Concluded r.job result) (saved : s.adapter.save r.job.ref result = some a)
      (refunds : Nat)
      (refunded : (r.charged.take refunds).foldlM (Adapter.refund sha256 r.job result) a = some b) :
      Step s
        { adapter := b.unregister r.job.ref
          running := before ++ after
          past := s.past ++
            [{ r with result := some result, refunded := r.charged.take refunds }] }
  /-- A query ends, and its result cannot be saved. -/
  | lose {s : System} {before after : List Reservation} {r : Reservation}
      (running : s.running = before ++ r :: after) :
      Step s
        { adapter := s.adapter.unregister r.job.ref
          running := before ++ after
          past := s.past ++ [r] }
  /-- An exception that is no `Exception` ends a query before anything is saved.  It stays among
  the active ones. -/
  | abandon {s : System} {before after : List Reservation} {r : Reservation}
      (running : s.running = before ++ r :: after) :
      Step s { s with running := before ++ after, past := s.past ++ [r] }
  /-- Somebody asks about a query, or to cancel one. -/
  | control {s : System} (caller : Caller) (ref : String) (cancel : Bool) :
      Step s { s with adapter := (s.adapter.control caller ref cancel).2 }
  /-- The flag of a query is set, because its call was cancelled. -/
  | flag {s : System} (ref : String) : Step s { s with adapter := s.adapter.setFlag ref }
  /-- `stop` -/
  | stop {s : System} :
      Step s
        { s with
          adapter :=
            { s.adapter with
              stopping := true
              active := s.adapter.active.map fun e => { e with flag := true } } }
  /-- The process ends, and another one starts. -/
  | crash {s : System} :
      Step s
        { adapter := { s.adapter with active := [], stopping := false }
          running := []
          past := s.past ++ s.running }

/-- A state of some run. -/
abbrev Reachable (s : System) : Prop := Relation.ReflTransGen (Step sha256 policy) {} s

end CodeForge.Impala
