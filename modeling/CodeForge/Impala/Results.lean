import CodeForge.Impala.Config

/-!
# The result of a query

A query builds its result field by field, and the result is sent and stored as
JSON.  Rows hold the cells the driver returns: numbers and booleans as they
are, bytes in base 64 and everything else as text.  A text is cut to the cell
limit of the policy, at the boundary of a character.
-/

namespace CodeForge.Impala

open Lib

/-- `encoded` -/
def encoded (j : Json) : List UInt8 := utf8 j.compact

/-! ## Results -/

/-- The status of a query. -/
inductive QueryStatus where
  | running
  | succeeded
  | failed
  | cancelled
  | unknown
deriving DecidableEq, Repr

/-- The text of a status. -/
def QueryStatus.value : QueryStatus → String
  | .running => "RUNNING"
  | .succeeded => "SUCCEEDED"
  | .failed => "FAILED"
  | .cancelled => "CANCELLED"
  | .unknown => "UNKNOWN"

/-- Why a result is not all of it. -/
inductive Truncation where
  | rowLimit
  | byteLimit
  | cellLimit
deriving DecidableEq, Repr

/-- The text of a reason. -/
def Truncation.value : Truncation → String
  | .rowLimit => "row_limit"
  | .byteLimit => "byte_limit"
  | .cellLimit => "cell_limit"

/-- The error a result carries. -/
structure QueryError where
  code : ErrorCode
  message : String
deriving DecidableEq

/-- The result of a query. -/
structure QueryResult where
  queryRef : String
  queryId : Option String := none
  status : QueryStatus := .running
  department : String
  account : String
  columns : List String := []
  rows : List (List Json) := []
  rowCount : Nat := 0
  truncated : Bool := false
  truncationReasons : List Truncation := []
  error : Option QueryError := none
  elapsedMs : Option Int := none

def QueryError.toJson (e : QueryError) : Json :=
  .obj [("code", .str e.code.value), ("message", .str e.message)]

/-- The members a result starts with. -/
def QueryResult.fixed (r : QueryResult) : List (String × Json) :=
  [("query_ref", .str r.queryRef), ("query_id", .optStr r.queryId),
    ("status", .str r.status.value), ("department", .str r.department),
    ("account", .str r.account), ("columns", .arr (r.columns.map .str)),
    ("rows", .arr (r.rows.map .arr)), ("row_count", .nat r.rowCount),
    ("truncated", .bool r.truncated),
    ("truncation_reasons", .arr (r.truncationReasons.map fun t => .str t.value))]

/-- The members that come later. -/
def QueryResult.late (r : QueryResult) : List (String × Json) :=
  (r.error.map fun e => ("error", e.toJson)).toList ++
    (r.elapsedMs.map fun ms => ("elapsed_ms", .num (toString ms))).toList

/-- The result as the dictionary it is. -/
def QueryResult.toJson (r : QueryResult) : Json := .obj (r.fixed ++ r.late)

/-- The number of bytes of an encoded result. -/
def QueryResult.size (r : QueryResult) : Nat := (encoded r.toJson).length

/-! ## Cells -/

/-- What the driver returns for a cell. -/
inductive Cell where
  | null
  | bool (b : Bool)
  | int (n : Int)
  /-- A finite number, by its literal. -/
  | float (literal : String)
  | bytes (b : List UInt8)
  /-- Any other value, with its text, where there is one. -/
  | other (text : Except Raised String)

/-- A digit of base 64. -/
def base64Digit (n : Nat) : Char :=
  "ABCDEFGHIJKLMNOPQRSTUVWXYZabcdefghijklmnopqrstuvwxyz0123456789+/".toList.getD n '='

/-- The characters of `base64.b64encode`. -/
def base64Chars : List UInt8 → List Char
  | [] => []
  | [a] =>
      let n := a.toNat * 16
      [base64Digit (n / 64), base64Digit (n % 64), '=', '=']
  | [a, b] =>
      let n := (a.toNat * 256 + b.toNat) * 4
      [base64Digit (n / 4096), base64Digit (n / 64 % 64), base64Digit (n % 64), '=']
  | a :: b :: c :: rest =>
      let n := (a.toNat * 256 + b.toNat) * 256 + c.toNat
      base64Digit (n / 262144) :: base64Digit (n / 4096 % 64) :: base64Digit (n / 64 % 64) ::
        base64Digit (n % 64) :: base64Chars rest

/-- The characters of a text that fit into a number of bytes,
`raw[:limit].decode("utf-8", errors="ignore")`. -/
def fitting : Nat → List Char → List Char
  | _, [] => []
  | limit, c :: cs => if c.utf8Size ≤ limit then c :: fitting (limit - c.utf8Size) cs else []

/-- A text cut to the cell limit, and whether it was cut. -/
def cutText (limit : Nat) (text : String) : String × Bool :=
  if (utf8 text).length > limit then (String.ofList (fitting limit text.toList), true)
  else (text, false)

/-- One cell of a row. -/
def Cell.toJson (limit : Nat) : Cell → Except Raised (Json × Bool)
  | .null => .ok (.null, false)
  | .bool b => .ok (.bool b, false)
  | .int n => .ok (.num (toString n), false)
  | .float literal => .ok (.num literal, false)
  | .bytes b =>
      let cut := cutText limit (String.ofList (base64Chars (b.take limit)))
      .ok (.str cut.1, b.length > limit || cut.2)
  | .other text => text.map fun s =>
      let cut := cutText limit s
      (.str cut.1, cut.2)

/-- `ImpalaTools._row` -/
def row (limit : Nat) : List Cell → Except Raised (List Json × Bool)
  | [] => .ok ([], false)
  | c :: cs => do
      let (j, cut) ← c.toJson limit
      let (js, cuts) ← row limit cs
      return (j :: js, cut || cuts)

/-! ## Identifiers -/

/-- A number in sixteen hexadecimal digits. -/
def hex16 (n : Nat) : String :=
  String.ofList ((List.range 16).map fun i => Json.hexDigit (n / 16 ^ (15 - i) % 16))

/-- `int.from_bytes(b, "little")` -/
def fromBytesLittle (b : List UInt8) : Nat := b.foldr (fun x n => x.toNat + 256 * n) 0

/-- `query_id`, of the bytes of the operation identifier, where there are some. -/
def queryIdOf (guid : Option (List UInt8)) : Option String :=
  guid.bind fun b =>
    if b.length = 16 then
      some (hex16 (fromBytesLittle (b.take 8)) ++ ":" ++ hex16 (fromBytesLittle (b.drop 8)))
    else none

end CodeForge.Impala
