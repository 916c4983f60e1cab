import Mathlib.Logic.Function.Basic
import Mathlib.Logic.Relation

/-!
# Clients of a shared state

Any number of clients take steps on a state they share, each with a state of its own,
while an environment changes the shared state as well.  A run interleaves all of these
steps in any order.

Two rules prove properties of runs.  `System.Run.invariant` is for properties of all
clients together.  `System.Run.rely` is for a property of each client alone: its own
steps establish it, and whatever the others do to the shared state keeps it.
-/

namespace Lib

variable {S C ι : Type}

/-- What the environment and the clients may do. -/
structure System (S C ι : Type) where
  env : S → S → Prop
  client : ι → S → C → S → C → Prop

namespace System

variable [DecidableEq ι] {sys : System S C ι}

/-- One step of the environment or of a client. -/
inductive Step (sys : System S C ι) : S × (ι → C) → S × (ι → C) → Prop
  | env {s t : S} {c : ι → C} (h : sys.env s t) : Step sys (s, c) (t, c)
  | client {s t : S} {c : ι → C} {x : C} (i : ι) (h : sys.client i s (c i) t x) :
      Step sys (s, c) (t, Function.update c i x)

/-- Any number of steps. -/
abbrev Run (sys : System S C ι) : S × (ι → C) → S × (ι → C) → Prop :=
  Relation.ReflTransGen sys.Step

/-- What all steps keep, runs keep. -/
theorem Run.invariant {I : S → (ι → C) → Prop}
    (env : ∀ {s t c}, sys.env s t → I s c → I t c)
    (client : ∀ {s t c x} (i : ι), sys.client i s (c i) t x → I s c → I t (Function.update c i x))
    {a b : S × (ι → C)} (run : sys.Run a b) (initial : I a.1 a.2) : I b.1 b.2 := by
  induction run with
  | refl => exact initial
  | tail _ step ih =>
      cases step with
      | env h => exact env h ih
      | client i h => exact client i h ih

/-- A run is a series of the moves its steps are made of. -/
theorem Run.shared {R : S → S → Prop} (env : ∀ {s t}, sys.env s t → Relation.ReflTransGen R s t)
    (client : ∀ {i s x t y}, sys.client i s x t y → Relation.ReflTransGen R s t)
    {a b : S × (ι → C)} (run : sys.Run a b) : Relation.ReflTransGen R a.1 b.1 := by
  induction run with
  | refl => exact .refl
  | tail _ step ih =>
      cases step with
      | env h => exact ih.trans (env h)
      | client i h => exact ih.trans (client h)

/-- What a client establishes, and nobody's moves of the shared state disturb, holds of
every client. -/
theorem Run.rely {R : S → S → Prop} {I : ι → S → C → Prop}
    (env : ∀ {s t}, sys.env s t → Relation.ReflTransGen R s t)
    (client : ∀ {i s x t y}, sys.client i s x t y → Relation.ReflTransGen R s t)
    (stable : ∀ {i s t x}, Relation.ReflTransGen R s t → I i s x → I i t x)
    (own : ∀ {i s x t y}, sys.client i s x t y → I i s x → I i t y)
    {a b : S × (ι → C)} (run : sys.Run a b) (initial : ∀ i, I i a.1 (a.2 i)) :
    ∀ i, I i b.1 (b.2 i) := by
  refine run.invariant (I := fun s c => ∀ i, I i s (c i)) ?_ ?_ initial
  · intro s t c h inv i
    exact stable (env h) (inv i)
  · intro s t c x i h inv j
    by_cases same : j = i
    · subst same
      rw [Function.update_self]
      exact own h (inv j)
    · rw [Function.update_of_ne same]
      exact stable (client h) (inv j)

/-! ## Fewer steps -/

/-- The runs in which the clients take a step only where a condition holds. -/
def guarded (sys : System S C ι) (G : S → C → Prop) : System S C ι where
  env := sys.env
  client i s x t y := G s x ∧ sys.client i s x t y

theorem Run.of_guarded {G : S → C → Prop} {a b : S × (ι → C)} (run : (sys.guarded G).Run a b) :
    sys.Run a b := by
  induction run with
  | refl => exact .refl
  | tail _ step ih =>
      cases step with
      | env h => exact ih.tail (.env h)
      | client i h => exact ih.tail (.client i h.2)

/-! ## Runs in a given order -/

/-- A client that moves alone makes a run. -/
theorem Run.alone {i : ι} {c : ι → C} {a b : S × C}
    (moves : Relation.ReflTransGen (fun p q => sys.client i p.1 p.2 q.1 q.2) a b)
    (here : c i = a.2) : sys.Run (a.1, c) (b.1, Function.update c i b.2) := by
  induction moves with
  | refl =>
      rw [← here, Function.update_eq_self]
  | @tail m b _ move ih =>
      have step : sys.Step (m.1, Function.update c i m.2)
          (b.1, Function.update (Function.update c i m.2) i b.2) := by
        refine .client i ?_
        rw [Function.update_self]
        exact move
      rw [Function.update_idem] at step
      exact ih.tail step

/-- Let a client take its step, if it has one. -/
def play (move : S → C → Option (S × C)) (a : S × (ι → C)) (i : ι) : S × (ι → C) :=
  match move a.1 (a.2 i) with
  | some (t, y) => (t, Function.update a.2 i y)
  | none => a

/-- Clients that move one after the other make a run. -/
theorem run_play {move : S → C → Option (S × C)}
    (allowed : ∀ i s x t y, move s x = some (t, y) → sys.client i s x t y) (order : List ι)
    (a : S × (ι → C)) : sys.Run a (order.foldl (play move) a) := by
  induction order generalizing a with
  | nil => exact .refl
  | cons i order ih =>
      cases moved : move a.1 (a.2 i) with
      | none =>
          have still : play move a i = a := by simp only [play, moved]
          rw [List.foldl_cons, still]
          exact ih a
      | some p =>
          have moves : play move a i = (p.1, Function.update a.2 i p.2) := by
            simp only [play, moved]
          rw [List.foldl_cons, moves]
          exact .head (.client i (allowed i _ _ _ _ moved)) (ih _)

end System

end Lib
