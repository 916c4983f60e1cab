import Mathlib.Data.List.Basic
import CodeForge.Persistence.Schema

/-!
# Timestamps

The store keeps an instant as a text and compares texts.  `_iso` renders the
fields of a `datetime` in UTC with fixed widths, from the year to the second,
so texts compare like instants as far as the second.

Microseconds are rendered only where there are some.  A text then goes on with
`.`, and otherwise it ends with `Z`, which is the greater character.  Within
one second the instant without microseconds is the least, and its text is the
greatest (`iso_le_iff`).
-/

namespace CodeForge

/-! ## Instants -/

/-- The number of days in a month. -/
def daysInMonth (year month : Nat) : Nat :=
  if month = 2 then
    if year % 4 = 0 ∧ (year % 100 ≠ 0 ∨ year % 400 = 0) then 29 else 28
  else if month ∈ [4, 6, 9, 11] then 30
  else 31

/-- A `datetime` in UTC. -/
structure DateTime where
  year : Nat
  month : Nat
  day : Nat
  hour : Nat := 0
  minute : Nat := 0
  second : Nat := 0
  microsecond : Nat := 0
  date_valid : 1 ≤ year ∧ year ≤ 9999 ∧ 1 ≤ month ∧ month ≤ 12 ∧ 1 ≤ day ∧
    day ≤ daysInMonth year month := by decide
  time_valid : hour < 24 ∧ minute < 60 ∧ second < 60 ∧ microsecond < 1000000 := by decide

namespace DateTime

/-- The fields up to the second. -/
def seconds (t : DateTime) : List Nat := [t.year, t.month, t.day, t.hour, t.minute, t.second]

/-- All fields.  Instants compare like them. -/
def fields (t : DateTime) : List Nat := t.seconds ++ [t.microsecond]

instance : LE DateTime := ⟨fun a b => ¬ b.fields < a.fields⟩

instance (a b : DateTime) : Decidable (a ≤ b) :=
  inferInstanceAs (Decidable (¬ b.fields < a.fields))

/-! ## Texts -/

/-- A number in a field of some width. -/
def padded : Nat → Nat → List Char
  | 0, _ => []
  | width + 1, n => padded width (n / 10) ++ [Nat.digitChar (n % 10)]

/-- The text of the fields up to the second. -/
def secondsText (t : DateTime) : List Char :=
  padded 4 t.year ++ '-' :: (padded 2 t.month ++ '-' :: (padded 2 t.day ++ 'T' ::
    (padded 2 t.hour ++ ':' :: (padded 2 t.minute ++ ':' :: padded 2 t.second))))

/-- The text of the microseconds. -/
def fraction (t : DateTime) : List Char :=
  if t.microsecond = 0 then [] else '.' :: padded 6 t.microsecond

/-- `isoformat` -/
def isoformat (t : DateTime) : List Char := t.secondsText ++ t.fraction ++ "+00:00".toList

end DateTime

/-- `replace("+00:00", "Z")` -/
def replaceOffset : List Char → List Char
  | '+' :: '0' :: '0' :: ':' :: '0' :: '0' :: rest => 'Z' :: replaceOffset rest
  | c :: rest => c :: replaceOffset rest
  | [] => []

/-- `_iso` -/
def iso (t : DateTime) : Timestamp := String.ofList (replaceOffset t.isoformat)

/-! ## Fixed widths -/

/-- Texts of one length before others decide the order. -/
theorem append_lt_append {α : Type} [LT α] [Std.Irrefl (fun a b : α => a < b)] {a b c d : List α}
    (same : a.length = b.length) : a ++ c < b ++ d ↔ a < b ∨ a = b ∧ c < d := by
  induction a generalizing b with
  | nil =>
      obtain rfl : b = [] := List.length_eq_zero_iff.1 same.symm
      simp
  | cons x a ih =>
      cases b with
      | nil => cases same
      | cons y b =>
          have := ih (Nat.succ.inj same)
          simp only [List.cons_append, List.cons_lt_cons_iff, this, List.cons.injEq]
          constructor
          · rintro (less | ⟨rfl, less | ⟨rfl, less⟩⟩)
            · exact .inl (.inl less)
            · exact .inl (.inr ⟨rfl, less⟩)
            · exact .inr ⟨⟨rfl, rfl⟩, less⟩
          · rintro ((less | ⟨rfl, less⟩) | ⟨⟨rfl, rfl⟩, less⟩)
            · exact .inl less
            · exact .inr ⟨rfl, .inl less⟩
            · exact .inr ⟨rfl, .inr ⟨rfl, less⟩⟩

namespace DateTime

@[simp] theorem padded_length (width n : Nat) : (padded width n).length = width := by
  induction width generalizing n with
  | zero => rfl
  | succ width ih => rw [padded, List.length_append, ih]; rfl

theorem digitChar_lt {m n : Nat} (hm : m < 10) (hn : n < 10) :
    Nat.digitChar m < Nat.digitChar n ↔ m < n := by
  have all : ∀ m < 10, ∀ n < 10, Nat.digitChar m < Nat.digitChar n ↔ m < n := by decide
  exact all m hm n hn

theorem padded_inj {width m n : Nat} (hm : m < 10 ^ width) (hn : n < 10 ^ width) :
    padded width m = padded width n ↔ m = n := by
  refine ⟨fun same => ?_, fun same => by rw [same]⟩
  induction width generalizing m n with
  | zero =>
      rw [Nat.pow_zero] at hm hn
      omega
  | succ width ih =>
      rw [Nat.pow_succ] at hm hn
      obtain ⟨high, low⟩ := List.append_inj' same rfl
      have low' : ¬ m % 10 < n % 10 ∧ ¬ n % 10 < m % 10 := by
        have digit := List.cons.inj low
        constructor
        · intro less
          rw [← digitChar_lt (by omega) (by omega), digit.1] at less
          exact absurd less (Nat.lt_irrefl _)
        · intro less
          rw [← digitChar_lt (by omega) (by omega), digit.1] at less
          exact absurd less (Nat.lt_irrefl _)
      have := ih (by omega) (by omega) high
      omega

/-- Numbers of one width compare like their texts. -/
theorem padded_lt {width m n : Nat} (hm : m < 10 ^ width) (hn : n < 10 ^ width) :
    padded width m < padded width n ↔ m < n := by
  induction width generalizing m n with
  | zero =>
      rw [Nat.pow_zero] at hm hn
      simp [padded]
      omega
  | succ width ih =>
      rw [Nat.pow_succ] at hm hn
      rw [padded, padded, append_lt_append (by simp), ih (by omega) (by omega),
        padded_inj (by omega) (by omega), List.cons_lt_cons_iff, digitChar_lt (by omega) (by omega)]
      simp
      omega

/-- A number of some width, before the same character. -/
theorem padded_append_lt {width m n : Nat} {c : Char} {l l' : List Char} (hm : m < 10 ^ width)
    (hn : n < 10 ^ width) :
    padded width m ++ c :: l < padded width n ++ c :: l' ↔ m < n ∨ m = n ∧ l < l' := by
  rw [append_lt_append (by simp), padded_lt hm hn, padded_inj hm hn, List.cons_lt_cons_iff]
  simp

/-- A number has digits only. -/
theorem not_mem_padded {c : Char} (other : ∀ n < 10, Nat.digitChar n ≠ c) (width n : Nat) :
    c ∉ padded width n := by
  induction width generalizing n with
  | zero => exact List.not_mem_nil
  | succ width ih =>
      rw [padded, List.mem_append, List.mem_singleton]
      rintro (high | low)
      · exact ih _ high
      · exact other _ (Nat.mod_lt n (by decide)) low.symm

/-! ## Seconds -/

variable (a b t : DateTime)

theorem day_lt : t.day < 100 := by
  have := t.date_valid.2.2.2.2.2
  unfold daysInMonth at this
  split at this
  · split at this <;> omega
  · split at this <;> omega

/-- As far as the second, texts compare like instants. -/
theorem secondsText_lt : a.secondsText < b.secondsText ↔ a.seconds < b.seconds := by
  obtain ⟨-, year, -, month, -, -⟩ := a.date_valid
  obtain ⟨-, year', -, month', -, -⟩ := b.date_valid
  obtain ⟨hour, minute, second, -⟩ := a.time_valid
  obtain ⟨hour', minute', second', -⟩ := b.time_valid
  rw [secondsText, secondsText, padded_append_lt (by omega) (by omega),
    padded_append_lt (by omega) (by omega),
    padded_append_lt (by have := a.day_lt; omega) (by have := b.day_lt; omega),
    padded_append_lt (by omega) (by omega), padded_append_lt (by omega) (by omega),
    padded_lt (by omega) (by omega)]
  simp [seconds, List.cons_lt_cons_iff]

theorem secondsText_length : t.secondsText.length = 19 := by
  simp [secondsText]

theorem secondsText_inj : a.secondsText = b.secondsText ↔ a.seconds = b.seconds := by
  constructor
  · intro same
    refine List.le_antisymm (fun less => ?_) fun less => ?_
    · rw [← secondsText_lt, same] at less
      exact List.lt_irrefl _ less
    · rw [← secondsText_lt, same] at less
      exact List.lt_irrefl _ less
  · intro same
    simp only [seconds, List.cons.injEq] at same
    obtain ⟨year, month, day, hour, minute, second, -⟩ := same
    rw [secondsText, secondsText, year, month, day, hour, minute, second]

/-! ## Fractions -/

/-- The offset is replaced where it stands. -/
theorem replaceOffset_append {l : List Char} (h : '+' ∉ l) :
    replaceOffset (l ++ "+00:00".toList) = l ++ ['Z'] := by
  induction l with
  | nil => rfl
  | cons c l ih =>
      have first : c ≠ '+' := fun same => h (same ▸ List.mem_cons_self)
      have rest : '+' ∉ l := fun there => h (List.mem_cons_of_mem c there)
      rw [List.cons_append, replaceOffset, ih rest]
      · rfl
      · intro _ is_offset
        exact absurd is_offset first

theorem toList_iso : (iso t).toList = t.secondsText ++ (t.fraction ++ ['Z']) := by
  have plain : '+' ∉ t.secondsText ++ t.fraction := by
    have numbers := not_mem_padded (c := '+') (by decide)
    simp only [secondsText, fraction, List.mem_append, List.mem_cons, numbers]
    split <;> simp [numbers]
  rw [iso, String.toList_ofList, isoformat, replaceOffset_append plain, List.append_assoc]

/-- No text of an instant has the character that ends it in a cursor. -/
theorem not_mem_iso : '|' ∉ (iso t).toList := by
  have numbers := not_mem_padded (c := '|') (by decide)
  rw [toList_iso]
  simp only [secondsText, fraction, List.mem_append, List.mem_cons, numbers]
  split <;> simp [numbers]

/-- Within a second, no microseconds come last. -/
theorem fraction_lt : a.fraction ++ ['Z'] < b.fraction ++ ['Z'] ↔
    (a.microsecond ≠ 0 ∧ b.microsecond = 0) ∨
      a.microsecond ≠ 0 ∧ b.microsecond ≠ 0 ∧ a.microsecond < b.microsecond := by
  have point : '.' < 'Z' ∧ ¬ 'Z' < '.' ∧ ¬ 'Z' = '.' := by decide
  have small := a.time_valid.2.2.2
  have small' := b.time_valid.2.2.2
  unfold fraction
  by_cases zero : a.microsecond = 0
  · by_cases zero' : b.microsecond = 0
    · simp [zero, zero']
    · simp [zero, zero', List.cons_lt_cons_iff, point]
  · by_cases zero' : b.microsecond = 0
    · simp [zero, zero', List.cons_lt_cons_iff, point]
    · simp only [zero, zero', if_false, List.cons_append, List.cons_lt_cons_iff]
      rw [append_lt_append (by simp), padded_lt (by omega) (by omega)]
      simp [zero, zero']

end DateTime

/-! ## The order of texts -/

/-- Texts compare like instants, unless just one of two instants within a second has no
microseconds. -/
theorem iso_le_iff (a b : DateTime) :
    (a ≤ b ↔ iso a ≤ iso b) ↔
      (a.seconds = b.seconds → (a.microsecond = 0 ↔ b.microsecond = 0)) := by
  have order : a ≤ b ↔ ¬ (b.seconds < a.seconds ∨
      b.seconds = a.seconds ∧ b.microsecond < a.microsecond) := by
    change ¬ b.fields < a.fields ↔ _
    have lengths : b.seconds.length = a.seconds.length := rfl
    rw [DateTime.fields, DateTime.fields, append_lt_append lengths,
      List.cons_lt_cons_iff]
    simp only [List.not_lt_nil, and_false, or_false]
  have texts : iso a ≤ iso b ↔ ¬ (b.seconds < a.seconds ∨ b.seconds = a.seconds ∧
      b.fraction ++ ['Z'] < a.fraction ++ ['Z']) := by
    change ¬ (iso b).toList < (iso a).toList ↔ _
    rw [DateTime.toList_iso, DateTime.toList_iso, append_lt_append
      (b.secondsText_length.trans a.secondsText_length.symm), DateTime.secondsText_lt,
      DateTime.secondsText_inj]
  rw [order, texts, DateTime.fraction_lt]
  by_cases same : a.seconds = b.seconds
  · have irrefl : ¬ b.seconds < b.seconds := List.lt_irrefl _
    simp only [same, irrefl, true_and, false_or, true_implies]
    omega
  · simp [same, Ne.symm same]

/-- Two instants a microsecond apart, whose texts are in the other order. -/
theorem noon_le_not_iso_le :
    ∃ noon later : DateTime, noon ≤ later ∧ ¬ iso noon ≤ iso later := by
  refine ⟨{ year := 2024, month := 1, day := 1, hour := 12 },
    { year := 2024, month := 1, day := 1, hour := 12, microsecond := 1 }, ?_, ?_⟩
  · decide
  · decide

end CodeForge
