import Mathlib.Algebra.Ring.Nat
import Mathlib.Data.List.Induction

/-!
# Logs in segments

A log that is cut into segments.  An entry goes after the last one, or into a
segment of its own where it would make the last segment too long.  The entries
stay in their order (`flatten_push`), and a segment is within the limit, or has
one entry (`Fits.push`).
-/

namespace Lib.Segments

variable {E : Type} {size : E → Nat} {limit : Nat} {segments : List (List E)} {e : E}

/-- The size of a segment. -/
def total (size : E → Nat) (segment : List E) : Nat := (segment.map size).sum

/-- Add an entry to the last segment, or start the next with it. -/
def push (size : E → Nat) (limit : Nat) (segments : List (List E)) (e : E) : List (List E) :=
  match segments.getLast? with
  | none => [[e]]
  | some last =>
      if total size last ≠ 0 ∧ total size last + size e > limit then segments ++ [[e]]
      else segments.dropLast ++ [last ++ [e]]

@[simp] theorem push_nil : push size limit [] e = [[e]] := rfl

theorem push_snoc (last : List E) :
    push size limit (segments ++ [last]) e =
      if total size last ≠ 0 ∧ total size last + size e > limit then segments ++ [last] ++ [[e]]
      else segments ++ [last ++ [e]] := by
  simp [push]

@[simp] theorem flatten_push : (push size limit segments e).flatten = segments.flatten ++ [e] := by
  induction segments using List.reverseRecOn with
  | nil => rfl
  | append_singleton segments last =>
      rw [push_snoc]
      split
      · simp
      · simp

/-- Every segment is within the limit, or has one entry, or none. -/
def Fits (size : E → Nat) (limit : Nat) (segments : List (List E)) : Prop :=
  ∀ segment ∈ segments, total size segment ≤ limit ∨ segment.length ≤ 1

theorem Fits.nil : Fits size limit [] := fun _ h => absurd h List.not_mem_nil

/-- **Segments stay within the limit.** -/
theorem Fits.push (fits : Fits size limit segments) (positive : ∀ e, 0 < size e) :
    Fits size limit (push size limit segments e) := by
  induction segments using List.reverseRecOn with
  | nil =>
      intro segment hs
      exact .inr (by rw [List.mem_singleton.1 hs]; exact Nat.le_refl 1)
  | append_singleton segments last =>
      have front : ∀ segment ∈ segments, total size segment ≤ limit ∨ segment.length ≤ 1 :=
        fun segment hs => fits segment (List.mem_append_left _ hs)
      rw [push_snoc]
      split
      next full =>
        intro segment hs
        rcases List.mem_append.1 hs with old | new
        · exact fits segment old
        · exact .inr (by rw [List.mem_singleton.1 new]; exact Nat.le_refl 1)
      next room =>
        intro segment hs
        rcases List.mem_append.1 hs with old | new
        · exact front segment old
        · rw [List.mem_singleton.1 new]
          cases last with
          | nil => exact .inr (Nat.le_refl 1)
          | cons f last =>
              have some_ := positive f
              simp only [total, List.map_cons, List.sum_cons, List.map_append, List.map_nil,
                List.sum_append, List.sum_nil] at room ⊢
              exact .inl (by omega)

end Lib.Segments
