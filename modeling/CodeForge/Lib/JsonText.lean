import Mathlib.Data.List.TakeWhile
import CodeForge.Lib.Json

/-!
# Reading JSON texts

`loads` reads the text of a JSON value.  It is a machine that takes one
character at a time: a mode says what may come next, and a stack of frames says
which arrays and objects are open around it.  So reading is a fold over the text,
and reading one text after another is the composition of the two
(`run_append`).

A text that is not JSON is `malformed`, and bytes that are not UTF-8 are
`undecodable`.  A string may hold half of a surrogate pair, written as an escape.
That is no text, so such a value is not a `Json`; the outcome is `surrogate`.

Numbers are read by their literals.  What the interpreter prints for the number
a literal stands for is the parameter `Numerals`: integers print as they are,
and printing is stable.
-/

namespace Lib.Json

/-! ## Literals -/

/-- One or more digits. -/
def isDigits (cs : List Char) : Bool := !cs.isEmpty && cs.all Char.isDigit

/-- The exponent of a number, or nothing. -/
def isExponent : List Char → Bool
  | [] => true
  | e :: '+' :: ds => (e = 'e' || e = 'E') && isDigits ds
  | e :: '-' :: ds => (e = 'e' || e = 'E') && isDigits ds
  | e :: ds => (e = 'e' || e = 'E') && isDigits ds

/-- The fraction and the exponent of a number, where they are. -/
def isFraction : List Char → Bool
  | '.' :: cs => !(cs.takeWhile Char.isDigit).isEmpty && isExponent (cs.dropWhile Char.isDigit)
  | cs => isExponent cs

/-- A number without its sign. -/
def isUnsigned : List Char → Bool
  | [] => false
  | '0' :: cs => isFraction cs
  | c :: cs => c.isDigit && isFraction (cs.dropWhile Char.isDigit)

/-- `-?(0|[1-9][0-9]*)(\.[0-9]+)?([eE][-+]?[0-9]+)?` -/
def isNumber : List Char → Bool
  | '-' :: cs => isUnsigned cs
  | cs => isUnsigned cs

/-- A literal that is read as a number. -/
def isNumeral (s : String) : Bool :=
  s = "NaN" || s = "Infinity" || s = "-Infinity" || isNumber s.toList

/-- What is printed for the number a literal is read as. -/
structure Numerals where
  print : String → String
  print_nat : ∀ n : Nat, print (toString n) = toString n
  print_numeral : ∀ s, isNumeral s = true → isNumeral (print s) = true
  print_print : ∀ s, isNumeral s = true → print (print s) = print s

/-- Every literal prints as it is. -/
def Numerals.plain : Numerals where
  print := id
  print_nat _ := rfl
  print_numeral _ h := h
  print_print _ _ := rfl

/-- The value of a literal that is no string. -/
def readAtom (numerals : Numerals) (cs : List Char) : Option Json :=
  let s := String.ofList cs
  if s = "null" then some .null
  else if s = "true" then some (.bool true)
  else if s = "false" then some (.bool false)
  else if isNumeral s then some (.num (numerals.print s))
  else none

/-! ## Characters -/

/-- White space between tokens. -/
def isBlank (c : Char) : Bool := c = ' ' || c = '\t' || c = '\n' || c = '\r'

/-- A character that ends a literal. -/
def isDelimiter (c : Char) : Bool :=
  isBlank c || c = ',' || c = ':' || c = '"' || c = '[' || c = ']' || c = '\x7b' || c = '\x7d'

/-- The value of a hexadecimal digit. -/
def hexValue (c : Char) : Option Nat :=
  if '0' ≤ c ∧ c ≤ '9' then some (c.toNat - 48)
  else if 'a' ≤ c ∧ c ≤ 'f' then some (c.toNat - 87)
  else if 'A' ≤ c ∧ c ≤ 'F' then some (c.toNat - 55)
  else none

/-- The code of the character an escape of one letter stands for. -/
def unescape (c : Char) : Option Nat :=
  if c = '"' then some 34
  else if c = '\\' then some 92
  else if c = '/' then some 47
  else if c = 'b' then some 8
  else if c = 'f' then some 12
  else if c = 'n' then some 10
  else if c = 'r' then some 13
  else if c = 't' then some 9
  else none

/-- The first half of a surrogate pair. -/
def isHigh (n : Nat) : Bool := 0xd800 ≤ n && n < 0xdc00

/-- The second half of a surrogate pair. -/
def isLow (n : Nat) : Bool := 0xdc00 ≤ n && n < 0xe000

/-- The character of a surrogate pair. -/
def joinPair (high low : Nat) : Char :=
  Char.ofNat (0x10000 + (high - 0xd800) * 0x400 + (low - 0xdc00))

/-- The character with a code, if there is one. -/
def charOf (n : Nat) : Option Char := if n.isValidChar then some (Char.ofNat n) else none

/-- The characters of a string literal.  The codes of a pair are one character. -/
def decodeCodes : List Nat → List (Option Char)
  | [] => []
  | [n] => [charOf n]
  | high :: low :: rest =>
      if isHigh high && isLow low then some (joinPair high low) :: decodeCodes rest
      else charOf high :: decodeCodes (low :: rest)

/-! ## The machine -/

/-- An array or object that is open. -/
inductive Frame where
  /-- An array, its items so far in reverse. -/
  | arr (items : List Json)
  /-- An object, its members so far. -/
  | obj (members : List (String × Json))
  /-- An object, with the key of the member being read. -/
  | member (members : List (String × Json)) (key : String)

/-- Where in an escape a string literal is. -/
inductive Escape where
  | no
  | slash
  /-- This many more hexadecimal digits after the next one. -/
  | hex (more code : Nat)

/-- What may come next. -/
inductive Mode where
  /-- A value. -/
  | value
  /-- A value, or the end of an array. -/
  | first
  /-- A key, or the end of an object. -/
  | firstKey
  /-- A key. -/
  | key
  /-- The colon after a key. -/
  | colon
  /-- What may follow a value. -/
  | after (j : Json)
  /-- More of a literal, in reverse so far. -/
  | atom (chars : List Char)
  /-- More of a string or key, the codes of its characters in reverse so far. -/
  | string (isKey : Bool) (codes : List Nat) (escape : Escape)

/-- The state of the machine. -/
structure State where
  mode : Mode := .value
  frames : List Frame := []
  /-- Half of a surrogate pair was read. -/
  lone : Bool := false

/-- Members with one more.  The last of two with one key counts. -/
def put (members : List (String × Json)) (key : String) (j : Json) : List (String × Json) :=
  if members.any fun m => m.1 = key then
    members.map fun m => if m.1 = key then (key, j) else m
  else members ++ [(key, j)]

namespace State

/-- The first character of a value. -/
def beginValue (s : State) (c : Char) : Option State :=
  if c = '"' then some { s with mode := .string false [] .no }
  else if c = '[' then some { s with mode := .first, frames := .arr [] :: s.frames }
  else if c = '\x7b' then some { s with mode := .firstKey, frames := .obj [] :: s.frames }
  else if isDelimiter c then none
  else some { s with mode := .atom [c] }

/-- A character after a value. -/
def endValue (s : State) (j : Json) (c : Char) : Option State :=
  if isBlank c then some { s with mode := .after j }
  else
    match s.frames with
    | .arr items :: frames =>
        if c = ',' then some { s with mode := .value, frames := .arr (j :: items) :: frames }
        else if c = ']' then
          some { s with mode := .after (.arr (j :: items).reverse), frames := frames }
        else none
    | .member members key :: frames =>
        if c = ',' then
          some { s with mode := .key, frames := .obj (put members key j) :: frames }
        else if c = '\x7d' then
          some { s with mode := .after (.obj (put members key j)), frames := frames }
        else none
    | _ => none

/-- An array or object without entries ends. -/
def endEmpty (s : State) : Option State :=
  match s.frames with
  | .arr items :: frames => some { s with mode := .after (.arr items), frames := frames }
  | .obj members :: frames => some { s with mode := .after (.obj members), frames := frames }
  | _ => none

/-- A string or key ends. -/
def endString (s : State) (isKey : Bool) (codes : List Nat) : Option State :=
  let chars := decodeCodes codes
  let text := String.ofList (chars.map fun c => c.getD '\ufffd')
  let lone := s.lone || chars.any Option.isNone
  if isKey then
    match s.frames with
    | .obj members :: frames =>
        some { mode := .colon, frames := .member members text :: frames, lone }
    | _ => none
  else some { s with mode := .after (.str text), lone }

/-- A character of a string or key. -/
def readString (s : State) (isKey : Bool) (codes : List Nat) (escape : Escape) (c : Char) :
    Option State :=
  match escape with
  | .no =>
      if c = '"' then s.endString isKey codes.reverse
      else if c = '\\' then some { s with mode := .string isKey codes .slash }
      else if c.toNat < 32 then none
      else some { s with mode := .string isKey (c.toNat :: codes) .no }
  | .slash =>
      if c = 'u' then some { s with mode := .string isKey codes (.hex 3 0) }
      else (unescape c).map fun code => { s with mode := .string isKey (code :: codes) .no }
  | .hex more code =>
      (hexValue c).map fun digit =>
        match more with
        | 0 => { s with mode := .string isKey ((16 * code + digit) :: codes) .no }
        | more + 1 => { s with mode := .string isKey codes (.hex more (16 * code + digit)) }

end State

/-- One character. -/
def step (numerals : Numerals) (s : State) (c : Char) : Option State :=
  match s.mode with
  | .value => if isBlank c then some s else s.beginValue c
  | .first => if isBlank c then some s else if c = ']' then s.endEmpty else s.beginValue c
  | .firstKey =>
      if isBlank c then some s
      else if c = '\x7d' then s.endEmpty
      else if c = '"' then some { s with mode := .string true [] .no }
      else none
  | .key =>
      if isBlank c then some s
      else if c = '"' then some { s with mode := .string true [] .no }
      else none
  | .colon =>
      if isBlank c then some s else if c = ':' then some { s with mode := .value } else none
  | .after j => s.endValue j c
  | .atom chars =>
      if isDelimiter c then (readAtom numerals chars.reverse).bind fun j => s.endValue j c
      else some { s with mode := .atom (c :: chars) }
  | .string isKey codes escape => s.readString isKey codes escape c

/-- Several characters. -/
def run (numerals : Numerals) (cs : List Char) (s : State) : Option State :=
  cs.foldlM (step numerals) s

/-- What became of reading a text. -/
inductive Loaded where
  | value (j : Json)
  /-- A value with half of a surrogate pair in it. -/
  | surrogate
  /-- `JSONDecodeError` -/
  | malformed
  /-- `UnicodeDecodeError` -/
  | undecodable

/-- `json.loads`.  The blank after the text ends a literal. -/
def loads (numerals : Numerals) (text : String) : Loaded :=
  match run numerals (text.toList ++ [' ']) {} with
  | some { mode := .after j, frames := [], lone := false } => .value j
  | some { mode := .after _, frames := [], lone := true } => .surrogate
  | _ => .malformed

/-! ## Truth -/

/-- `bool(value)` -/
def truthy : Json → Bool
  | .null => false
  | .bool b => b
  | .num literal =>
      !((literal.toList.takeWhile fun c => c ≠ 'e' && c ≠ 'E').all fun c =>
        c = '0' || c = '.' || c = '-')
  | .str s => s ≠ ""
  | .arr items => !items.isEmpty
  | .obj members => !members.isEmpty

end Lib.Json

namespace Lib

/-- `bytes.decode("utf-8")` -/
def decodeUtf8 (b : List UInt8) : Option String := String.fromUTF8? ⟨b.toArray⟩

/-- `json.loads(bytes.decode("utf-8"))` -/
def loadBytes (numerals : Json.Numerals) (b : List UInt8) : Json.Loaded :=
  match decodeUtf8 b with
  | some text => Json.loads numerals text
  | none => .undecodable

end Lib
