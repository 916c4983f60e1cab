import CodeForge.Contracts

/-!
# Departments and query policies

A department has an account on the Impala server and a policy that bounds its
queries.  A `QueryPolicy` carries the checks of its constructor, and a
`DepartmentProfile` the checks it was read with, so bounds need not be checked
again.

The configuration is read anew at every resolution.  What reading it gives is a
`Resolution`, and `require` compares the profile with the one a message was
accepted under, by digest.
-/

namespace CodeForge.Impala

/-! ## Policies -/

/-- `QueryPolicy`, with the checks of `__post_init__`. -/
structure QueryPolicy where
  defaultRows : Nat := 100
  maxRows : Nat := 1000
  maxBytes : Nat := 32000
  cellBytes : Nat := 2048
  maxColumns : Nat := 100
  timeoutSeconds : Nat := 60
  rpcTimeoutSeconds : Nat := 5
  memLimitMb : Nat := 1024
  scanBytesLimitMb : Nat := 10240
  maxUserConcurrency : Nat := 1
  maxDepartmentConcurrency : Nat := 4
  maxQueriesPerMessage : Nat := 12
  maxRowsPerMessage : Nat := 5000
  maxBytesPerMessage : Nat := 256000
  maxQueriesPerUserHour : Nat := 120
  maxRowsPerUserHour : Nat := 20000
  maxBytesPerUserHour : Nat := 1024000
  maxQueriesPerDepartmentHour : Nat := 600
  maxRowsPerDepartmentHour : Nat := 100000
  maxBytesPerDepartmentHour : Nat := 5120000
  positive : ∀ n ∈ [defaultRows, maxRows, maxBytes, cellBytes, maxColumns, timeoutSeconds,
    rpcTimeoutSeconds, memLimitMb, scanBytesLimitMb, maxUserConcurrency,
    maxDepartmentConcurrency, maxQueriesPerMessage, maxRowsPerMessage, maxBytesPerMessage,
    maxQueriesPerUserHour, maxRowsPerUserHour, maxBytesPerUserHour,
    maxQueriesPerDepartmentHour, maxRowsPerDepartmentHour, maxBytesPerDepartmentHour], 0 < n := by
      decide
  rowBounds : defaultRows ≤ maxRows ∧ maxRows ≤ 10000 := by decide
  byteBounds : 4096 ≤ maxBytes ∧ maxBytes ≤ 256000 ∧ cellBytes ≤ maxBytes := by decide
  limits : maxColumns ≤ 100 ∧ timeoutSeconds ≤ 3600 := by decide
  rpc : rpcTimeoutSeconds ≤ timeoutSeconds := by decide

/-- `DepartmentProfile`, with the checks of `DepartmentBindings.resolve` on its names. -/
structure DepartmentProfile where
  department : String
  user : String
  requestPool : String := ""
  policy : QueryPolicy := {}
  /-- The digest of all its fields. -/
  digest : String
  /-- `[A-Za-z0-9._-]{1,100}` -/
  department_reference : 1 ≤ department.length ∧ department.length ≤ 100 ∧
    department.toList.all isReferenceChar
  user_length : 1 ≤ user.length ∧ user.length ≤ 200

/-! ## Exceptions -/

/-- An exception. -/
inductive Raised where
  /-- `DomainError(code, message)`. -/
  | domain (code : ErrorCode) (message : String)
  /-- Another `Exception`. -/
  | error
  /-- A `BaseException` that is no `Exception`. -/
  | exit
deriving DecidableEq

/-! ## Resolution -/

/-- What `DepartmentBindings.resolve` gives at some time. -/
inductive Resolution where
  /-- The configuration cannot be read or is not valid. -/
  | invalid
  /-- The scope has no department, or a disabled one. -/
  | missing
  /-- A profile, with its digest. -/
  | bound (digest : String)
  /-- An exception `resolve` does not turn into a `DomainError`. -/
  | failed (e : Raised)

/-- `DepartmentBindings.require` -/
def require (expectedDigest : String) : Resolution → Except Raised Unit
  | .invalid =>
      .error (.domain .dependencyUnavailable
        "Invalid or unavailable server Impala configuration; check operator settings")
  | .missing => .error (.domain .capabilityDenied "Impala binding is disabled or missing")
  | .bound digest =>
      if digest = expectedDigest then .ok ()
      else
        .error (.domain .capabilityDenied
          "Impala binding changed since message acceptance; submit a new message")
  | .failed e => .error e

end CodeForge.Impala
