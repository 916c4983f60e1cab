import Mathlib.Data.List.Basic

/-!
# Decoding UTF-8 with replacements

The decoder that puts a replacement character for what is no UTF-8: for every
longest part of a character that does not go on as one, or for a byte that starts
none.  Told that more is to follow, it keeps an unfinished character at the end
for later; without more it replaces it.

What is kept goes in front of what follows, so the texts of the pieces of a
stream are together the text of the stream (`decode_append`), wherever the stream
is cut.
-/

namespace Lib.Utf8

/-- What stands at the start of some bytes. -/
inductive Start where
  | char (c : Char) (size : Nat)
  | bad (size : Nat)
  /-- The bytes end before the character does. -/
  | short
deriving DecidableEq, Repr

/-- How a character with this first byte goes on: by so many bytes, the first of them within
these bounds, and with these bits. -/
def lead (b : Nat) : Option (Nat × Nat × Nat × Nat) :=
  if b < 0x80 then some (0, 0x80, 0xBF, b)
  else if b < 0xC2 then none
  else if b < 0xE0 then some (1, 0x80, 0xBF, b - 0xC0)
  else if b = 0xE0 then some (2, 0xA0, 0xBF, 0)
  else if b = 0xED then some (2, 0x80, 0x9F, 0xD)
  else if b < 0xF0 then some (2, 0x80, 0xBF, b - 0xE0)
  else if b = 0xF0 then some (3, 0x90, 0xBF, 0)
  else if b < 0xF4 then some (3, 0x80, 0xBF, b - 0xF0)
  else if b = 0xF4 then some (3, 0x80, 0x8F, 4)
  else none

/-- Go on with a character of which so many bytes are taken. -/
def goOn : (owed low high bits taken : Nat) → List UInt8 → Start
  | 0, _, _, bits, taken, _ => .char (Char.ofNat bits) taken
  | _ + 1, _, _, _, _, [] => .short
  | owed + 1, low, high, bits, taken, b :: bs =>
      if low ≤ b.toNat ∧ b.toNat ≤ high then
        goOn owed 0x80 0xBF (bits * 64 + (b.toNat - 0x80)) (taken + 1) bs
      else .bad taken

/-- The first two of the bytes of a surrogate, and nothing behind them. -/
def halfSurrogate : List UInt8 → Bool
  | [a, b] => a = 0xED && 0xA0 ≤ b && b ≤ 0xBF
  | _ => false

/-- What the decoder finds at the start of some bytes.  A surrogate is no character, but while
more is to follow its third byte is waited for. -/
def look (more : Bool) : List UInt8 → Start
  | [] => .short
  | b :: bs =>
      if more && halfSurrogate (b :: bs) then .short
      else
        match lead b.toNat with
        | none => .bad 1
        | some (owed, low, high, bits) => goOn owed low high bits 1 bs

def replacement : Char := Char.ofNat 0xFFFD

/-- The text of some bytes and the bytes that are kept, when so many are skipped first. -/
def decodeFrom (more : Bool) : Nat → List UInt8 → List Char × List UInt8
  | _, [] => ([], [])
  | skip + 1, _ :: bs => decodeFrom more skip bs
  | 0, b :: bs =>
      match look more (b :: bs) with
      | .char c n => let r := decodeFrom more (n - 1) bs; (c :: r.1, r.2)
      | .bad n => let r := decodeFrom more (n - 1) bs; (replacement :: r.1, r.2)
      | .short => if more then ([], b :: bs) else ([replacement], [])

/-- The text of some bytes and the bytes that are kept. -/
def decode (more : Bool) (bytes : List UInt8) : List Char × List UInt8 := decodeFrom more 0 bytes

/-! ## More bytes -/

/-- What the start of some bytes is. -/
def Start.size : Start → Nat
  | .char _ n => n
  | .bad n => n
  | .short => 0

theorem goOn_append (more : List UInt8) (owed : Nat) :
    ∀ {low high bits taken : Nat} {bs : List UInt8},
      goOn owed low high bits taken bs ≠ .short →
        goOn owed low high bits taken (bs ++ more) = goOn owed low high bits taken bs ∧
          taken ≤ (goOn owed low high bits taken bs).size ∧
          (goOn owed low high bits taken bs).size ≤ taken + bs.length := by
  induction owed with
  | zero => intro low high bits taken bs _; exact ⟨rfl, Nat.le_refl _, Nat.le_add_right _ _⟩
  | succ owed ih =>
    intro low high bits taken bs known
    cases bs with
    | nil => exact absurd rfl known
    | cons b bs =>
      rw [goOn] at known
      by_cases fits : low ≤ b.toNat ∧ b.toNat ≤ high
      · rw [if_pos fits] at known
        obtain ⟨same, least, most⟩ := ih known
        rw [List.cons_append, goOn, goOn, if_pos fits, if_pos fits]
        exact ⟨same, by omega, by rw [List.length_cons]; omega⟩
      · rw [List.cons_append, goOn, goOn, if_neg fits, if_neg fits]
        exact ⟨rfl, Nat.le_refl _, Nat.le_add_right _ _⟩

/-- The start of half a surrogate is waited for. -/
theorem look_of_half {b : UInt8} {bs more : List UInt8}
    (half : halfSurrogate (b :: (bs ++ more)) = true) : look true (b :: bs) = .short := by
  cases bs with
  | nil =>
    cases more with
    | nil => cases half
    | cons c more =>
      cases more with
      | cons d more => cases half
      | nil =>
        simp only [List.nil_append, halfSurrogate, Bool.and_eq_true, decide_eq_true_eq] at half
        rw [half.1.1]
        rfl
  | cons c bs =>
    cases bs with
    | cons d bs => cases half
    | nil =>
      cases more with
      | cons d more => cases half
      | nil => simp only [List.cons_append, List.nil_append] at half; simp [look, half]

/-- What is there is there whatever follows. -/
theorem look_append {bs : List UInt8} (more : List UInt8) (known : look true bs ≠ .short) :
    look true (bs ++ more) = look true bs ∧ 1 ≤ (look true bs).size ∧
      (look true bs).size ≤ bs.length := by
  cases bs with
  | nil => exact absurd rfl known
  | cons b bs =>
    have whole : ∀ more, halfSurrogate (b :: (bs ++ more)) = false := by
      intro more
      cases half : halfSurrogate (b :: (bs ++ more)) with
      | false => rfl
      | true => exact absurd (look_of_half half) known
    have alone : halfSurrogate (b :: bs) = false := by simpa using whole []
    simp only [List.cons_append, look, whole more, alone, Bool.and_false] at known ⊢
    cases led : lead b.toNat with
    | none => exact ⟨rfl, Nat.le_refl _, Nat.le_add_left _ _⟩
    | some kind =>
      obtain ⟨owed, low, high, bits⟩ := kind
      rw [led] at known
      obtain ⟨same, least, most⟩ := goOn_append more owed known
      exact ⟨same, least, Nat.le_trans most (Nat.le_of_eq (Nat.add_comm 1 _))⟩

theorem decodeFrom_append (more : List UInt8) (bytes : List UInt8) :
    ∀ skip, skip ≤ bytes.length →
      decodeFrom true skip (bytes ++ more) =
        ((decodeFrom true skip bytes).1 ++
            (decodeFrom true 0 ((decodeFrom true skip bytes).2 ++ more)).1,
          (decodeFrom true 0 ((decodeFrom true skip bytes).2 ++ more)).2) := by
  induction bytes with
  | nil =>
    intro skip le
    cases Nat.le_zero.1 le
    rfl
  | cons b bs ih =>
    intro skip le
    cases skip with
    | succ skip => exact ih skip (Nat.le_of_succ_le_succ le)
    | zero =>
      cases found : look true (b :: bs) with
      | short => simp [decodeFrom, found]
      | char c n =>
        have known : look true (b :: bs) ≠ .short := by rw [found]; exact nofun
        obtain ⟨same, least, most⟩ := look_append more known
        rw [found] at same most
        have rest := ih (n - 1) (Nat.sub_le_of_le_add most)
        rw [List.cons_append] at same
        simp only [List.cons_append, decodeFrom, same, found, rest]
      | bad n =>
        have known : look true (b :: bs) ≠ .short := by rw [found]; exact nofun
        obtain ⟨same, least, most⟩ := look_append more known
        rw [found] at same most
        have rest := ih (n - 1) (Nat.sub_le_of_le_add most)
        rw [List.cons_append] at same
        simp only [List.cons_append, decodeFrom, same, found, rest]

/-- The pieces of a stream are decoded as the stream is. -/
theorem decode_append (bytes more : List UInt8) :
    decode true (bytes ++ more) =
      ((decode true bytes).1 ++ (decode true ((decode true bytes).2 ++ more)).1,
        (decode true ((decode true bytes).2 ++ more)).2) :=
  decodeFrom_append more bytes 0 (Nat.zero_le _)

example : decode true [0x61, 0xC3, 0xA9, 0xE0, 0x9F, 0xF0, 0x9F, 0x98, 0x80, 0xE2, 0x82] =
    (['a', 'é', replacement, replacement, '😀'], [0xE2, 0x82]) := by decide +kernel

end Lib.Utf8
