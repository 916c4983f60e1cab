import Mathlib.Algebra.BigOperators.Group.List.Basic
import Mathlib.Algebra.Order.BigOperators.Group.List
import Mathlib.Algebra.Ring.Nat
import CodeForge.Lib.Json

/-!
# How long texts are

The number of bytes of a JSON text, from the numbers of bytes of its parts.  A
character takes four bytes at most, and six inside a string literal, where it
may be an escape.
-/

namespace Lib

/-- The number of bytes of a text. -/
def bytes (s : String) : Nat := (utf8 s).length

theorem bytes_eq (s : String) : bytes s = s.utf8ByteSize := by
  simp [bytes, utf8]

@[simp] theorem bytes_append (s t : String) : bytes (s ++ t) = bytes s + bytes t := by
  simp [bytes_eq]

@[simp] theorem bytes_empty : bytes "" = 0 := rfl

theorem bytes_ofList_cons (c : Char) (cs : List Char) :
    bytes (String.ofList (c :: cs)) = c.utf8Size + bytes (String.ofList cs) := by
  have split : String.ofList (c :: cs) = String.ofList [c] ++ String.ofList cs := by
    rw [← String.ofList_append]
    rfl
  rw [split, bytes_append, bytes_eq (String.ofList [c])]
  simp

theorem bytes_le (s : String) : bytes s ≤ 4 * s.length := by
  have all : ∀ cs : List Char, bytes (String.ofList cs) ≤ 4 * cs.length := by
    intro cs
    induction cs with
    | nil => exact Nat.zero_le _
    | cons c cs ih =>
        have := c.utf8Size_le_four
        rw [bytes_ofList_cons, List.length_cons]
        omega
  have := all s.toList
  rwa [String.ofList_toList, String.length_toList] at this

/-! ## Texts put together -/

theorem bytes_join (l : List String) : bytes (String.join l) = (l.map bytes).sum := by
  induction l with
  | nil => rfl
  | cons s l ih => rw [String.join_cons, bytes_append, ih, List.map_cons, List.sum_cons]

/-- Between texts there is one comma less than there are texts. -/
theorem bytes_commas {l : List String} (ne : l ≠ []) :
    bytes (",".intercalate l) + 1 = (l.map fun s => bytes s + 1).sum := by
  induction l with
  | nil => exact absurd rfl ne
  | cons s l ih =>
      cases l with
      | nil => simp
      | cons t l =>
          have := ih (List.cons_ne_nil t l)
          rw [String.intercalate_cons_cons, bytes_append, bytes_append]
          simp only [List.map_cons, List.sum_cons] at this ⊢
          have comma : bytes "," = 1 := rfl
          omega

/-! ## String literals -/

theorem utf8Size_hexDigit (n : Nat) : (Json.hexDigit n).utf8Size = 1 := by
  by_cases h : n < 16
  · have small : ∀ n < 16, (Json.hexDigit n).utf8Size = 1 := by decide
    exact small n h
  · have none_ : "0123456789abcdef".toList[n]? = none := List.getElem?_eq_none (Nat.le_of_not_lt h)
    rw [Json.hexDigit, List.getD_eq_getElem?_getD, none_]
    rfl

theorem bytes_escapeChar (c : Char) : bytes (Json.escapeChar c) ≤ 6 := by
  unfold Json.escapeChar
  split
  · decide
  split
  · decide
  split
  · decide
  split
  · decide
  split
  · decide
  split
  · decide
  split
  · decide
  split
  · have digits : bytes (String.ofList [Json.hexDigit (c.toNat / 16), Json.hexDigit (c.toNat % 16)]) =
        2 := by
      rw [bytes_ofList_cons, bytes_ofList_cons, utf8Size_hexDigit, utf8Size_hexDigit]
      rfl
    have start : bytes "\\u00" = 4 := by decide
    rw [bytes_append, digits, start]
  · rw [bytes_ofList_cons]
    have := c.utf8Size_le_four
    have none_ : bytes (String.ofList []) = 0 := rfl
    omega

theorem bytes_quote (s : String) :
    bytes (Json.quote s) = 2 + (s.toList.map fun c => bytes (Json.escapeChar c)).sum := by
  rw [Json.quote, bytes_append, bytes_append, bytes_join, List.map_map]
  have quotation : bytes "\"" = 1 := rfl
  simp only [Function.comp_def]
  omega

theorem bytes_quote_le (s : String) : bytes (Json.quote s) ≤ 2 + 6 * s.length := by
  rw [bytes_quote, ← String.length_toList]
  have := List.sum_le_card_nsmul (s.toList.map fun c => bytes (Json.escapeChar c)) 6 (by
    intro n hn
    obtain ⟨c, -, rfl⟩ := List.mem_map.1 hn
    exact bytes_escapeChar c)
  rw [List.length_map, Nat.nsmul_eq_mul] at this
  omega

/-! ## Values -/

/-- The number of bytes of the text of a value. -/
def Json.size (j : Json) : Nat := bytes j.compact

theorem Json.compactItems_eq (js : List Json) : compactItems js = js.map compact := by
  induction js with
  | nil => rfl
  | cons j js ih => rw [compactItems, ih, List.map_cons]

/-- The number of bytes of a member of an object. -/
def Json.memberSize (m : String × Json) : Nat := bytes (quote m.1) + 1 + m.2.size

theorem Json.compactMembers_eq (ms : List (String × Json)) :
    compactMembers ms = ms.map fun m => quote m.1 ++ ":" ++ m.2.compact := by
  induction ms with
  | nil => rfl
  | cons m ms ih =>
      obtain ⟨k, j⟩ := m
      rw [compactMembers, ih, List.map_cons]

theorem Json.size_obj {ms : List (String × Json)} (ne : ms ≠ []) :
    (Json.obj ms).size = 1 + (ms.map fun m => memberSize m + 1).sum := by
  have commas := bytes_commas (l := compactMembers ms) (by
    rw [compactMembers_eq]
    simpa using ne)
  rw [compactMembers_eq, List.map_map] at commas
  rw [size, compact, bytes_append, bytes_append, compactMembers_eq]
  have opening : bytes "\x7b" = 1 := rfl
  have closing : bytes "\x7d" = 1 := rfl
  have same : ((fun s => bytes s + 1) ∘ fun m : String × Json => quote m.1 ++ ":" ++ m.2.compact) =
      fun m => memberSize m + 1 := by
    funext m
    have colon : bytes ":" = 1 := rfl
    simp only [Function.comp_apply, bytes_append, memberSize, size, colon]
  rw [same] at commas
  omega

theorem Json.size_arr {js : List Json} (ne : js ≠ []) :
    (Json.arr js).size = 1 + (js.map fun j => j.size + 1).sum := by
  have commas := bytes_commas (l := compactItems js) (by
    rw [compactItems_eq]
    simpa using ne)
  rw [compactItems_eq, List.map_map] at commas
  rw [size, compact, bytes_append, bytes_append, compactItems_eq]
  have opening : bytes "[" = 1 := rfl
  have closing : bytes "]" = 1 := rfl
  have same : ((fun s => bytes s + 1) ∘ compact) = fun j => j.size + 1 := rfl
  rw [same] at commas
  omega

@[simp] theorem Json.size_arr_nil : (Json.arr []).size = 2 := rfl

/-- An array with one more item. -/
theorem Json.size_arr_append (js : List Json) (j : Json) :
    (Json.arr (js ++ [j])).size ≤ (Json.arr js).size + j.size + 1 := by
  rw [size_arr (by simp)]
  cases js with
  | nil => simp; omega
  | cons i js =>
      rw [size_arr (by simp)]
      simp only [List.map_append, List.sum_append, List.map_cons, List.map_nil, List.sum_cons,
        List.sum_nil]
      omega

theorem Json.size_str_le (s : String) : (Json.str s).size ≤ 2 + 6 * s.length := bytes_quote_le s

/-- A number below a power of ten. -/
theorem Json.size_nat_le {n k : Nat} (pos : 0 < k) (h : n < 10 ^ k) : (Json.nat n).size ≤ 4 * k := by
  have digits : (toString n).length ≤ k := (Nat.length_repr_le_iff pos).2 h
  have := bytes_le (toString n)
  rw [size, nat, compact]
  omega

/-- So for an integer, with its sign. -/
theorem Json.size_int_le {i : Int} {k : Nat} (pos : 0 < k) (h : i.natAbs < 10 ^ k) :
    (Json.num (toString i)).size ≤ 4 * k + 4 := by
  have digits : ∀ n : Nat, n < 10 ^ k → bytes n.repr ≤ 4 * k := by
    intro n hn
    have := bytes_le n.repr
    have := (Nat.length_repr_le_iff pos).2 hn
    omega
  cases i with
  | ofNat n =>
      have := digits n h
      change bytes n.repr ≤ _
      omega
  | negSucc n =>
      have := digits (n + 1) h
      have sign : bytes "-" = 1 := rfl
      change bytes ("-" ++ (n + 1).repr) ≤ _
      rw [bytes_append]
      omega

end Lib
