import CodeForge.Lib.Fallible
import CodeForge.Lib.TextSize
import CodeForge.Impala.Results

/-!
# What is shown of a cell

Cells are shown whole, or cut.  A whole cell is the number or the boolean, the
bytes in base 64 or the text.  A cut one is a text that its text begins with,
and a shorter one (`Shortened`).

Texts are cut at a number of bytes, where a character may end later: that
character is left out.  Bytes are cut before they are put into base 64 and
their text is cut again.  The first cut leaves enough bytes that the second one
meets only characters which do not depend on what was cut off
(`base64Chars_take`).
-/

namespace CodeForge.Impala

open Lib

/-! ## Texts that are cut -/

/-- A text that the text of the value begins with, instead of the value. -/
def Shortened (whole shown : Json) : Prop :=
  ∃ s s' : String, whole = .str s ∧ shown = .str s' ∧ s'.toList <+: s.toList ∧ s' ≠ s

theorem fitting_prefix (limit : Nat) (cs : List Char) : fitting limit cs <+: cs := by
  induction cs generalizing limit with
  | nil => exact List.nil_prefix
  | cons c cs ih =>
      rw [fitting]
      split
      · exact List.cons_prefix_cons.2 ⟨rfl, ih _⟩
      · exact List.nil_prefix

theorem bytes_fitting (limit : Nat) (cs : List Char) :
    bytes (String.ofList (fitting limit cs)) ≤ limit := by
  induction cs generalizing limit with
  | nil => exact Nat.zero_le _
  | cons c cs ih =>
      rw [fitting]
      split
      · have := ih (limit - c.utf8Size)
        rw [bytes_ofList_cons]
        omega
      · exact Nat.zero_le _

theorem bytes_cutText (limit : Nat) (text : String) : bytes (cutText limit text).1 ≤ limit := by
  unfold cutText
  split
  · exact bytes_fitting limit text.toList
  next small => exact Nat.le_of_not_lt small

/-- A text that is cut is shorter. -/
theorem cutText_cut {limit : Nat} {text : String} (h : (cutText limit text).2 = true) :
    (cutText limit text).1.toList <+: text.toList ∧ (cutText limit text).1 ≠ text := by
  have small := bytes_cutText limit text
  unfold cutText at h ⊢ small
  split
  next large =>
    rw [if_pos large] at small
    refine ⟨by rw [String.toList_ofList]; exact fitting_prefix _ _, fun same => ?_⟩
    rw [same] at small
    exact absurd small (Nat.not_le_of_gt large)
  next small' =>
    rw [if_neg small'] at h
    cases h

theorem cutText_whole {limit : Nat} {text : String} (h : (cutText limit text).2 = false) :
    (cutText limit text).1 = text := by
  unfold cutText at h ⊢
  split
  next large =>
    rw [if_pos large] at h
    cases h
  · rfl

/-! ## Base 64 -/

theorem utf8Size_base64Digit (n : Nat) : (base64Digit n).utf8Size = 1 := by
  have letters : "ABCDEFGHIJKLMNOPQRSTUVWXYZabcdefghijklmnopqrstuvwxyz0123456789+/".toList =
      ['A', 'B', 'C', 'D', 'E', 'F', 'G', 'H', 'I', 'J', 'K', 'L', 'M', 'N', 'O', 'P', 'Q', 'R',
        'S', 'T', 'U', 'V', 'W', 'X', 'Y', 'Z', 'a', 'b', 'c', 'd', 'e', 'f', 'g', 'h', 'i', 'j',
        'k', 'l', 'm', 'n', 'o', 'p', 'q', 'r', 's', 't', 'u', 'v', 'w', 'x', 'y', 'z', '0', '1',
        '2', '3', '4', '5', '6', '7', '8', '9', '+', '/'] :=
    String.toList_ofList
  have all : ∀ c ∈ "ABCDEFGHIJKLMNOPQRSTUVWXYZabcdefghijklmnopqrstuvwxyz0123456789+/".toList,
      c.utf8Size = 1 := by
    rw [letters]
    simp
    decide
  unfold base64Digit
  rw [List.getD_eq_getElem?_getD]
  cases found : "ABCDEFGHIJKLMNOPQRSTUVWXYZabcdefghijklmnopqrstuvwxyz0123456789+/".toList[n]? with
  | none => rfl
  | some c => exact all c (List.mem_of_getElem? found)

theorem base64Chars_size (b : List UInt8) : ∀ c ∈ base64Chars b, c.utf8Size = 1 := by
  induction b using base64Chars.induct with
  | case1 => exact fun c hc => absurd hc List.not_mem_nil
  | case2 a => simp [base64Chars, utf8Size_base64Digit]; decide
  | case3 a b => simp [base64Chars, utf8Size_base64Digit]; decide
  | case4 a b c rest ih => simpa [base64Chars, utf8Size_base64Digit] using ih

theorem base64Chars_length (b : List UInt8) :
    (base64Chars b).length = 4 * ((b.length + 2) / 3) := by
  induction b using base64Chars.induct with
  | case1 => rfl
  | case2 a => simp [base64Chars]
  | case3 a b => simp [base64Chars]
  | case4 a b c rest ih =>
      simp only [base64Chars, List.length_cons, ih]
      omega

/-- Of characters of one byte, as many fit as there are bytes. -/
theorem fitting_eq_take {cs : List Char} (h : ∀ c ∈ cs, c.utf8Size = 1) (limit : Nat) :
    fitting limit cs = cs.take limit := by
  induction cs generalizing limit with
  | nil => simp [fitting]
  | cons c cs ih =>
      rw [fitting, h c List.mem_cons_self]
      cases limit with
      | zero => rfl
      | succ limit =>
          have rest := ih (fun c hc => h c (List.mem_cons_of_mem _ hc)) limit
          simpa using rest

theorem bytes_base64 (b : List UInt8) :
    bytes (String.ofList (base64Chars b)) = (base64Chars b).length := by
  have all : ∀ cs : List Char, (∀ c ∈ cs, c.utf8Size = 1) →
      bytes (String.ofList cs) = cs.length := by
    intro cs h
    induction cs with
    | nil => rfl
    | cons c cs ih =>
        rw [bytes_ofList_cons, h c List.mem_cons_self,
          ih fun c hc => h c (List.mem_cons_of_mem _ hc), List.length_cons, Nat.add_comm]
  exact all _ (base64Chars_size b)

/-- The first character depends on the first byte only. -/
theorem base64_one (a : UInt8) (b c : Nat) (hb : b < 256) (hc : c < 256) :
    a.toNat * 16 / 64 = (a.toNat * 256 + b) * 4 / 4096 ∧
      a.toNat * 16 / 64 = ((a.toNat * 256 + b) * 256 + c) / 262144 := by
  omega

/-- The first two characters depend on the first two bytes only. -/
theorem base64_two (a b : UInt8) (c : Nat) (hc : c < 256) :
    (a.toNat * 256 + b.toNat) * 4 / 4096 = ((a.toNat * 256 + b.toNat) * 256 + c) / 262144 ∧
      (a.toNat * 256 + b.toNat) * 4 / 64 % 64 =
        ((a.toNat * 256 + b.toNat) * 256 + c) / 4096 % 64 := by
  omega

/-- Of the first `k` bytes, the first `k` characters and fewer are those of all bytes. -/
theorem base64Chars_take (b : List UInt8) {k j : Nat} (h : j ≤ k) :
    (base64Chars (b.take k)).take j <+: base64Chars b := by
  induction b using base64Chars.induct generalizing k j with
  | case1 => simp [base64Chars]
  | case2 a =>
      match k with
      | 0 => simp [base64Chars]
      | k + 1 => simpa using List.take_prefix j (base64Chars [a])
  | case3 a b =>
      match k with
      | 0 => simp [base64Chars]
      | 1 =>
          match j, h with
          | 0, _ => exact List.nil_prefix
          | 1, _ =>
              have first := (base64_one a b.toNat 0 b.toNat_lt (by decide)).1
              simp [base64Chars, List.cons_prefix_cons, first]
      | k + 2 => simpa using List.take_prefix j (base64Chars [a, b])
  | case4 a b c rest ih =>
      match k with
      | 0 =>
          obtain rfl : j = 0 := Nat.le_zero.1 h
          exact List.nil_prefix
      | 1 =>
          match j, h with
          | 0, _ => exact List.nil_prefix
          | 1, _ =>
              have first := (base64_one a b.toNat c.toNat b.toNat_lt c.toNat_lt).2
              simp [base64Chars, List.cons_prefix_cons, first]
      | 2 =>
          obtain ⟨first, second⟩ := base64_two a b c.toNat c.toNat_lt
          match j, h with
          | 0, _ => exact List.nil_prefix
          | 1, _ => simp [base64Chars, List.cons_prefix_cons, first]
          | 2, _ => simp [base64Chars, List.cons_prefix_cons, first, second]
      | k + 3 =>
          simp only [List.take_succ_cons, base64Chars]
          match j, h with
          | 0, _ => exact List.nil_prefix
          | 1, _ | 2, _ | 3, _ => simp [List.cons_prefix_cons]
          | j + 4, h =>
              have rest := ih (k := k) (j := j) (by omega)
              simpa [List.cons_prefix_cons] using rest

/-! ## Cells -/

/-- A cell without any limit. -/
def Cell.whole : Cell → Except Raised Json
  | .null => .ok .null
  | .bool b => .ok (.bool b)
  | .int n => .ok (.num (toString n))
  | .float literal => .ok (.num literal)
  | .bytes b => .ok (.str (String.ofList (base64Chars b)))
  | .other text => text.map .str

/-- What is shown of a cell, and whether it was cut. -/
inductive CellShown (c : Cell) : Json → Bool → Prop where
  | whole {j : Json} (h : c.whole = .ok j) : CellShown c j false
  | cut {w j : Json} (h : c.whole = .ok w) (short : Shortened w j) : CellShown c j true

theorem cutText_shown {c : Cell} {limit : Nat} {text : String} (h : c.whole = .ok (.str text)) :
    CellShown c (.str (cutText limit text).1) (cutText limit text).2 := by
  cases cut : (cutText limit text).2 with
  | false =>
      rw [cutText_whole cut]
      exact .whole h
  | true =>
      obtain ⟨start, shorter⟩ := cutText_cut cut
      exact .cut h ⟨text, _, rfl, rfl, start, shorter⟩

/-- Bytes that are cut give a shorter text. -/
theorem cutBytes_shown {limit : Nat} {b : List UInt8} (pos : 0 < limit) (long : limit < b.length) :
    CellShown (.bytes b) (.str (cutText limit (String.ofList (base64Chars (b.take limit)))).1)
      true := by
  have length : (base64Chars (b.take limit)).length = 4 * ((limit + 2) / 3) := by
    rw [base64Chars_length, List.length_take, Nat.min_eq_left (Nat.le_of_lt long)]
  have large : (utf8 (String.ofList (base64Chars (b.take limit)))).length > limit := by
    change bytes _ > limit
    rw [bytes_base64, length]
    omega
  refine .cut rfl ⟨_, _, rfl, rfl, ?_, fun same => ?_⟩
  · rw [cutText, if_pos large, String.toList_ofList, String.toList_ofList, String.toList_ofList,
      fitting_eq_take (base64Chars_size _)]
    exact base64Chars_take b (Nat.le_refl limit)
  · have small := bytes_cutText limit (String.ofList (base64Chars (b.take limit)))
    rw [same, bytes_base64, base64Chars_length] at small
    omega

/-- A cell is shown whole, or cut to a text of the limit. -/
theorem Cell.toJson_eq_ok {c : Cell} {limit : Nat} {j : Json} {cut : Bool} (pos : 0 < limit)
    (h : c.toJson limit = .ok (j, cut)) :
    CellShown c j cut ∧ ∀ s, j = .str s → Lib.bytes s ≤ limit := by
  cases c with
  | null | bool | int | float =>
      cases h
      exact ⟨.whole rfl, nofun⟩
  | bytes b =>
      cases h
      refine ⟨?_, fun s same => by cases same; exact bytes_cutText _ _⟩
      by_cases long : limit < b.length
      · have shown := cutBytes_shown pos long
        simpa [long] using shown
      · have all : b.take limit = b := List.take_of_length_le (Nat.le_of_not_lt long)
        have shown : CellShown (.bytes b)
            (.str (cutText limit (String.ofList (base64Chars b))).1)
            (cutText limit (String.ofList (base64Chars b))).2 := cutText_shown rfl
        simpa [all, long] using shown
  | other text =>
      obtain ⟨s, rfl, same⟩ := except_map_eq_ok.1 h
      cases same
      exact ⟨cutText_shown rfl, fun s' same => by cases same; exact bytes_cutText _ _⟩

/-! ## Rows -/

/-- What is shown of a row, and whether a cell of it was cut. -/
inductive RowShown : List Cell → List Json → Bool → Prop where
  | nil : RowShown [] [] false
  | cons {c : Cell} {cs : List Cell} {j : Json} {js : List Json} {one rest : Bool}
      (first : CellShown c j one) (others : RowShown cs js rest) :
      RowShown (c :: cs) (j :: js) (one || rest)

theorem row_eq_ok {limit : Nat} {cells : List Cell} {js : List Json} {cut : Bool} (pos : 0 < limit)
    (h : row limit cells = .ok (js, cut)) :
    RowShown cells js cut ∧ ∀ s, .str s ∈ js → bytes s ≤ limit := by
  induction cells generalizing js cut with
  | nil =>
      cases h
      exact ⟨.nil, fun s hs => absurd hs List.not_mem_nil⟩
  | cons c cells ih =>
      obtain ⟨⟨j, one⟩, cell, h⟩ := except_bind_eq_ok.1 h
      obtain ⟨⟨js', rest⟩, others, h⟩ := except_bind_eq_ok.1 h
      cases h
      obtain ⟨shown, small⟩ := Cell.toJson_eq_ok pos cell
      obtain ⟨all, texts⟩ := ih others
      refine ⟨.cons shown all, fun s hs => ?_⟩
      rcases List.mem_cons.1 hs with first | later
      · exact small s first.symm
      · exact texts s later

/-- In a row that is not cut, all cells are whole. -/
theorem RowShown.whole {cells : List Cell} {js : List Json} {cut : Bool}
    (h : RowShown cells js cut) (uncut : cut = false) :
    List.Forall₂ (fun c j => Cell.whole c = .ok j) cells js := by
  induction h with
  | nil => exact .nil
  | cons first others ih =>
      obtain ⟨one, rest⟩ := Bool.or_eq_false_iff.1 uncut
      refine .cons ?_ (ih rest)
      cases first with
      | whole h => exact h
      | cut => cases one

/-- In a row that is cut, some cell is. -/
theorem RowShown.exists_cut {cells : List Cell} {js : List Json} {cut : Bool}
    (h : RowShown cells js cut) (is_cut : cut = true) :
    ∃ (k : Nat) (c : Cell) (w j : Json), cells[k]? = some c ∧ js[k]? = some j ∧
      c.whole = .ok w ∧ Shortened w j := by
  induction h with
  | nil => cases is_cut
  | cons first others ih =>
      cases first with
      | cut h short => exact ⟨0, _, _, _, rfl, rfl, h, short⟩
      | whole h =>
          obtain ⟨k, c, w, j, here, there, whole, short⟩ := ih is_cut
          exact ⟨k + 1, c, w, j, here, there, whole, short⟩

end CodeForge.Impala
