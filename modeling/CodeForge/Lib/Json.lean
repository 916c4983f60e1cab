import Mathlib.Data.List.Sort
import Mathlib.Data.String.Basic

/-!
# JSON values and their canonical text

A JSON value, and the deterministic text of it: the members of every object
sorted by key, characters outside ASCII as they are.  A number is kept as its
literal, so integers of any size and decimal fractions are alike.

The text of a value is built bottom up.  The members of an object are encoded
first and sorted afterwards, so the recursion is on the value itself.
-/

namespace Lib

/-- A JSON value. -/
inductive Json where
  | null
  | bool (b : Bool)
  /-- A number, by its literal. -/
  | num (literal : String)
  | str (s : String)
  | arr (items : List Json)
  | obj (members : List (String × Json))
deriving Inhabited

namespace Json

/-- A natural number. -/
def nat (n : Nat) : Json := .num (toString n)

/-- Numbers with one text are one. -/
theorem nat_injective {m n : Nat} (h : nat m = nat n) : m = n := by
  have texts : (toString m).toList = (toString n).toList := by
    injection h with h
    rw [h]
  have digits : Nat.toDigits 10 m = Nat.toDigits 10 n := by
    have left : (toString m).toList = Nat.toDigits 10 m := Nat.toList_repr
    have right : (toString n).toList = Nat.toDigits 10 n := Nat.toList_repr
    rw [← left, ← right, texts]
  rw [← Nat.ofDigitChars_ten_toDigits (n := m), digits, Nat.ofDigitChars_ten_toDigits]

/-- A string, or `null`. -/
def optStr : Option String → Json
  | none => .null
  | some s => .str s

/-- The value of an object's member, if there is one. -/
def get? (j : Json) (k : String) : Option Json :=
  match j with
  | .obj members => (members.find? fun m => m.1 = k).map Prod.snd
  | _ => none

/-- The members of an object. -/
def members : Json → List (String × Json)
  | .obj ms => ms
  | _ => []

/-- Members with others put over them, `{**base, **extra}`. -/
def merge (base extra : List (String × Json)) : List (String × Json) :=
  base.map (fun m => (m.1, (extra.lookup m.1).getD m.2)) ++
    extra.filter fun m => !base.any fun n => n.1 = m.1

@[simp] theorem merge_nil (base : List (String × Json)) : merge base [] = base := by
  simp [merge]

/-- A lower-case hexadecimal digit. -/
def hexDigit (n : Nat) : Char := "0123456789abcdef".toList.getD n '0'

/-- A character inside a string literal. -/
def escapeChar (c : Char) : String :=
  if c = '"' then "\\\""
  else if c = '\\' then "\\\\"
  else if c = '\n' then "\\n"
  else if c = '\r' then "\\r"
  else if c = '\t' then "\\t"
  else if c.toNat = 8 then "\\b"
  else if c.toNat = 12 then "\\f"
  else if c.toNat < 32 then
    "\\u00" ++ String.ofList [hexDigit (c.toNat / 16), hexDigit (c.toNat % 16)]
  else String.ofList [c]

/-- A string literal. -/
def quote (s : String) : String :=
  "\"" ++ String.join (s.toList.map escapeChar) ++ "\""

/-- The members of an object, encoded, in the order of their keys. -/
def sortMembers (ms : List (String × String)) : List (String × String) :=
  ms.insertionSort fun a b => a.1 ≤ b.1

mutual

/-- The text of a value, with the separators between items and after keys. -/
def dumps (comma colon : String) : Json → String
  | .null => "null"
  | .bool true => "true"
  | .bool false => "false"
  | .num literal => literal
  | .str s => quote s
  | .arr items => "[" ++ comma.intercalate (dumpsItems comma colon items) ++ "]"
  | .obj ms =>
      "\x7b" ++ comma.intercalate
        ((sortMembers (dumpsMembers comma colon ms)).map fun m => quote m.1 ++ colon ++ m.2)
        ++ "\x7d"

/-- The texts of the items of an array. -/
def dumpsItems (comma colon : String) : List Json → List String
  | [] => []
  | j :: js => dumps comma colon j :: dumpsItems comma colon js

/-- The members of an object with the texts of their values. -/
def dumpsMembers (comma colon : String) : List (String × Json) → List (String × String)
  | [] => []
  | (k, j) :: ms => (k, dumps comma colon j) :: dumpsMembers comma colon ms

end

/-- The text without blanks, the one digests are taken of. -/
def canonical (j : Json) : String := dumps "," ":" j

/-- The text with the default separators. -/
def spaced (j : Json) : String := dumps ", " ": " j

/-! ## Text in the order of insertion -/

mutual

/-- The text without blanks, the members of objects in their order. -/
def compact : Json → String
  | .null => "null"
  | .bool true => "true"
  | .bool false => "false"
  | .num literal => literal
  | .str s => quote s
  | .arr items => "[" ++ ",".intercalate (compactItems items) ++ "]"
  | .obj ms => "\x7b" ++ ",".intercalate (compactMembers ms) ++ "\x7d"

/-- The texts of the items of an array. -/
def compactItems : List Json → List String
  | [] => []
  | j :: js => compact j :: compactItems js

/-- The texts of the members of an object. -/
def compactMembers : List (String × Json) → List String
  | [] => []
  | (k, j) :: ms => (quote k ++ ":" ++ compact j) :: compactMembers ms

end

end Json

/-- The UTF-8 encoding of a text. -/
def utf8 (s : String) : List UInt8 := s.toUTF8.data.toList

/-- Bytes tell texts apart. -/
theorem utf8_injective : Function.Injective utf8 := by
  intro s s' h
  have data : s.toUTF8.data = s'.toUTF8.data := Array.toList_inj.1 h
  exact String.toByteArray_inj.1 (ByteArray.ext data)

end Lib
