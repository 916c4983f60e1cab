import Mathlib.Algebra.BigOperators.Group.List.Basic
import Mathlib.Algebra.Order.BigOperators.Group.List
import Mathlib.Algebra.Ring.Nat
import Mathlib.Data.List.Infix

/-!
# The newest entries within a budget

The entries of a history have weights.  Going back from its end, the entries are
taken while their weights fit a budget together.  The last entry is taken in any
case.

What is taken is the longest end of the history that fits, or the last entry
alone when that one is too heavy by itself (`newest_kept`).  Nothing else is
either (`Kept.unique`).
-/

namespace Lib.Window

variable {α : Type} (weight : α → Nat)

/-- The weight of all of them. -/
def total (xs : List α) : Nat := (xs.map weight).sum

@[simp] theorem total_nil : total weight [] = 0 := rfl

@[simp] theorem total_cons (x : α) (xs : List α) :
    total weight (x :: xs) = weight x + total weight xs := by
  simp [total]

@[simp] theorem total_append (xs ys : List α) :
    total weight (xs ++ ys) = total weight xs + total weight ys := by
  simp [total]

@[simp] theorem total_reverse (xs : List α) : total weight xs.reverse = total weight xs := by
  simp [total]

/-! ## Going back -/

/-- Take entries in this order while they fit.  The first is taken in any case. -/
def takeWhileFits (budget : Nat) : List α → List α → Nat → List α
  | [], taken, _ => taken
  | x :: rest, taken, used =>
      if taken ≠ [] ∧ budget < used + weight x then taken
      else takeWhileFits budget rest (taken ++ [x]) (used + weight x)

/-- What is taken from the end of a history, in the order of the history. -/
def newest (budget : Nat) (history : List α) : List α :=
  (takeWhileFits weight budget history.reverse [] 0).reverse

/-- Once something is taken, the entries that follow are taken as long as they fit, and no
longer part of the rest would. -/
theorem takeWhileFits_spec (budget : Nat) (rest : List α) :
    ∀ (taken : List α) (used : Nat), taken ≠ [] →
      ∃ more, takeWhileFits weight budget rest taken used = taken ++ more ∧ more <+: rest ∧
        (more = [] ∨ used + total weight more ≤ budget) ∧
        ∀ longer, longer <+: rest → more.length < longer.length →
          budget < used + total weight longer := by
  induction rest with
  | nil =>
    intro taken used _
    refine ⟨[], by simp [takeWhileFits], List.prefix_rfl, .inl rfl, ?_⟩
    intro longer empty long
    rw [List.prefix_nil.1 empty] at long
    cases long
  | cons x rest ih =>
    intro taken used began
    by_cases full : budget < used + weight x
    · refine ⟨[], by simp [takeWhileFits, began, full], List.nil_prefix, .inl rfl, ?_⟩
      intro longer part long
      cases longer with
      | nil => cases long
      | cons y longer =>
        obtain ⟨rfl, -⟩ := List.cons_prefix_cons.1 part
        simp only [total_cons]
        omega
    · obtain ⟨more, taking, part, fits, rejects⟩ := ih (taken ++ [x]) (used + weight x) (by simp)
      refine ⟨x :: more, by simp [takeWhileFits, full, taking],
        List.cons_prefix_cons.2 ⟨rfl, part⟩, .inr ?_, ?_⟩
      · rcases fits with rfl | fits <;> simp <;> omega
      · intro longer prefixed long
        cases longer with
        | nil => cases long
        | cons y longer =>
          obtain ⟨rfl, tail⟩ := List.cons_prefix_cons.1 prefixed
          have beyond := rejects longer tail (by simpa using long)
          simp only [total_cons]
          omega

/-! ## What is kept -/

/-- The longest end of a history within a budget. -/
structure Longest (budget : Nat) (history kept : List α) : Prop where
  suffix : kept <:+ history
  fits : total weight kept ≤ budget
  longest : ∀ other, other <:+ history → total weight other ≤ budget → other.length ≤ kept.length

/-- The longest end of a history within a budget, or its last entry alone when that one is
larger. -/
inductive Kept (budget : Nat) (history : List α) : List α → Prop where
  | last {older : List α} {x : α} (ends : history = older ++ [x]) (large : budget < weight x) :
      Kept budget history [x]
  | longest {kept : List α} (small : ∀ older x, history = older ++ [x] → weight x ≤ budget)
      (h : Longest weight budget history kept) : Kept budget history kept

variable {weight} {budget : Nat} {history kept : List α}

theorem Kept.suffix (h : Kept weight budget history kept) : kept <:+ history := by
  cases h with
  | last ends large => exact ⟨_, ends.symm⟩
  | longest small h => exact h.suffix

theorem Longest.unique {kept' : List α} (h : Longest weight budget history kept)
    (h' : Longest weight budget history kept') : kept = kept' := by
  have size : kept.length = kept'.length :=
    Nat.le_antisymm (h'.longest _ h.suffix h.fits) (h.longest _ h'.suffix h'.fits)
  exact (List.suffix_of_suffix_length_le h.suffix h'.suffix size.le).eq_of_length size

theorem Kept.unique {kept' : List α} (h : Kept weight budget history kept)
    (h' : Kept weight budget history kept') : kept = kept' := by
  cases h with
  | last ends large =>
    cases h' with
    | last ends' _ =>
      rw [ends] at ends'
      exact (List.append_inj' ends' rfl).2
    | longest small _ => exact absurd (small _ _ ends) (by omega)
  | longest small h =>
    cases h' with
    | last ends large => exact absurd (small _ _ ends) (by omega)
    | longest _ h' => exact h.unique h'

/-- Going back takes the longest end that fits, or the last entry alone. -/
theorem newest_kept (weight : α → Nat) (budget : Nat) (history : List α) :
    Kept weight budget history (newest weight budget history) := by
  obtain ⟨back, rfl⟩ : ∃ back : List α, history = back.reverse := ⟨_, (List.reverse_reverse _).symm⟩
  cases back with
  | nil =>
    refine .longest (fun older x ends => by simp at ends) ⟨List.suffix_rfl, by simp [newest,
      takeWhileFits], fun other part _ => ?_⟩
    rw [List.suffix_nil.1 part]
    exact Nat.zero_le _
  | cons x rest =>
    obtain ⟨more, taking, part, fits, rejects⟩ :=
      takeWhileFits_spec weight budget rest [x] (weight x) (by simp)
    have taken : newest weight budget (x :: rest).reverse = (x :: more).reverse := by
      simp [newest, takeWhileFits, taking]
    rw [taken]
    by_cases large : budget < weight x
    · have alone : more = [] := by
        rcases fits with alone | fits
        · exact alone
        · omega
      rw [alone]
      exact .last List.reverse_cons large
    · refine .longest ?_ ⟨?_, ?_, ?_⟩
      · intro older y ends
        rw [List.reverse_cons] at ends
        cases (List.append_inj' ends rfl).2
        omega
      · exact List.reverse_suffix.2 (List.cons_prefix_cons.2 ⟨rfl, part⟩)
      · rcases fits with rfl | fits <;> simp <;> omega
      · intro other suffix light
        by_contra long
        obtain ⟨front, rfl⟩ : ∃ front : List α, other = front.reverse :=
          ⟨_, (List.reverse_reverse _).symm⟩
        have front_part := List.reverse_suffix.1 suffix
        cases front with
        | nil => simp at long
        | cons y front =>
          obtain ⟨rfl, tail⟩ := List.cons_prefix_cons.1 front_part
          have beyond := rejects front tail (by simpa using long)
          simp at light
          omega

end Lib.Window
