import Mathlib.Data.List.Basic

/-!
# Machines that tell what they do

A machine takes an action where it can, and may tell something while it does.  A run
comes with all that was told, in order.

What every step keeps, runs keep (`Run.invariant`); where a property may end only with
something that is told, a run that does not tell it keeps the property (`Run.quiet`).
A run can be cut at anything it told (`Run.cut`), so that a statement about two things
told in order comes down to what the run between them keeps.
-/

namespace Lib

variable {S A E : Type}

/-- What a machine does where it takes an action, and what it tells. -/
structure Machine (S A E : Type) where
  step : S → A → Option (S × Option E)

namespace Machine

variable {m : Machine S A E} {s t u : S} {told more : List E}

/-- Any number of steps, and what they told. -/
inductive Run (m : Machine S A E) : S → List E → S → Prop
  | refl (s : S) : Run m s [] s
  | tail {s t u : S} {told : List E} {a : A} {e : Option E} (run : Run m s told t)
      (step : m.step t a = some (u, e)) : Run m s (told ++ e.toList) u

theorem Run.trans (first : m.Run s told t) (second : m.Run t more u) :
    m.Run s (told ++ more) u := by
  induction second with
  | refl => rwa [List.append_nil]
  | tail _ step ih =>
      rw [← List.append_assoc]
      exact .tail ih step

/-- What every step keeps, runs keep. -/
theorem Run.invariant {I : S → Prop} (keeps : ∀ {s a t e}, m.step s a = some (t, e) → I s → I t)
    (run : m.Run s told t) (initial : I s) : I t := by
  induction run with
  | refl => exact initial
  | tail _ step ih => exact keeps step ih

/-- What every step keeps of what was told and the state, runs keep. -/
theorem Run.history {I : List E → S → Prop}
    (keeps : ∀ {told s a t e}, m.step s a = some (t, e) → I told s → I (told ++ e.toList) t)
    (run : m.Run s told t) (initial : I [] s) : I told t := by
  induction run with
  | refl => exact initial
  | tail _ step ih => exact keeps step ih

/-- What every step keeps that does not tell certain things, runs keep that do not tell them. -/
theorem Run.quiet {I : S → Prop} {Q : E → Prop}
    (keeps : ∀ {s a t e}, m.step s a = some (t, e) → (∀ x ∈ e, ¬ Q x) → I s → I t)
    (run : m.Run s told t) (quiet : ∀ x ∈ told, ¬ Q x) (initial : I s) : I t := by
  induction run with
  | refl => exact initial
  | @tail _ _ _ _ e _ step ih =>
      refine keeps step (fun x hx => quiet x ?_)
        (ih fun x hx => quiet x (List.mem_append_left _ hx))
      exact List.mem_append_right _ (Option.mem_toList.2 hx)

/-- A run is cut at something it told. -/
theorem Run.cut {e : E} (run : m.Run s (told ++ e :: more) u) :
    ∃ t t' a, m.Run s told t ∧ m.step t a = some (t', some e) ∧ m.Run t' more u := by
  generalize all : told ++ e :: more = l at run
  induction run generalizing more with
  | refl => simp at all
  | @tail t u before a o run step ih =>
      cases o with
      | none =>
          rw [Option.toList_none, List.append_nil] at all
          obtain ⟨t₁, t₂, b, first, middle, last⟩ := ih all
          have later := last.tail step
          rw [Option.toList_none, List.append_nil] at later
          exact ⟨t₁, t₂, b, first, middle, later⟩
      | some e' =>
          rcases List.eq_nil_or_concat more with rfl | ⟨front, e₂, rfl⟩
          · obtain ⟨rfl, rest⟩ := List.append_inj' all rfl
            cases rest
            exact ⟨t, u, a, run, step, .refl u⟩
          · rw [List.concat_eq_append] at all ⊢
            have shorter : (told ++ e :: front) ++ [e₂] = before ++ [e'] := by
              rw [Option.toList_some] at all
              rw [← all]
              simp
            obtain ⟨same, last⟩ := List.append_inj' shorter rfl
            cases last
            obtain ⟨t₁, t₂, b, first, middle, last⟩ := ih same
            exact ⟨t₁, t₂, b, first, middle, last.tail step⟩

/-- What was told was told by some step. -/
theorem Run.told_by {e : E} (run : m.Run s told u) (he : e ∈ told) :
    ∃ before t t' a after, told = before ++ e :: after ∧ m.Run s before t ∧
      m.step t a = some (t', some e) ∧ m.Run t' after u := by
  obtain ⟨before, after, rfl⟩ := List.append_of_mem he
  obtain ⟨t, t', a, first, middle, last⟩ := run.cut
  exact ⟨before, t, t', a, after, rfl, first, middle, last⟩

/-- A property that begins in a run begins with something that is told, if every step that tells
nothing of the kind leaves it as it was. -/
theorem Run.told_of {I : S → Prop} {Q : E → Prop}
    (keeps : ∀ {s a t e}, m.step s a = some (t, e) → (∀ x ∈ e, ¬ Q x) → ¬ I s → ¬ I t)
    (run : m.Run s told t) (before : ¬ I s) (after : I t) : ∃ x ∈ told, Q x := by
  by_contra none
  push Not at none
  exact run.quiet (I := fun s => ¬ I s) keeps none before after

/-- Take actions in a given order. -/
def play (m : Machine S A E) : S → List A → Option (List E × S)
  | s, [] => some ([], s)
  | s, a :: actions => do
      let (t, e) ← m.step s a
      let (told, u) ← m.play t actions
      return (e.toList ++ told, u)

theorem Run.head {a : A} {e : Option E} (step : m.step s a = some (t, e)) (run : m.Run t more u) :
    m.Run s (e.toList ++ more) u := by
  have first : m.Run s ([] ++ e.toList) t := .tail (.refl s) step
  exact first.trans run

theorem Run.play (actions : List A) (h : m.play s actions = some (told, u)) : m.Run s told u := by
  induction actions generalizing s told with
  | nil =>
      cases h
      exact .refl _
  | cons a actions ih =>
      obtain ⟨⟨t, e⟩, step, h⟩ := Option.bind_eq_some_iff.1 h
      obtain ⟨⟨rest, v⟩, played, h⟩ := Option.bind_eq_some_iff.1 h
      cases h
      exact .head step (ih played)

end Machine

end Lib
