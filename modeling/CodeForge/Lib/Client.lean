import Mathlib.Logic.Relation
import CodeForge.Lib.Fallible

/-!
# Programs among others

A client makes calls on a state, one after the other, and goes on as their outcomes
say.  A call is atomic, but before each of them others may have moved the state, as a
relation `R` permits.

`Client.Meets` says what is true of a client from a state on, whatever the others do:
`I` holds all the time, and `Q` of what it ends with.  It is shown along the program,
part by part, and holds of all of its runs (`Client.Run.meets`).
-/

namespace Lib

variable {ε σ α β γ μ : Type}

/-- What comes of a call. -/
def outcome {ε' : Type} (x : EStateM ε' σ β) (s : σ) : Except ε' β :=
  match x s with
  | .ok b _ => .ok b
  | .error e _ => .error e

theorem outcome_of_ok {ε' : Type} {x : EStateM ε' σ β} {s t : σ} {b : β} (h : x s = .ok b t) :
    outcome x s = .ok b := by simp [outcome, h]

theorem outcome_of_error {ε' : Type} {x : EStateM ε' σ β} {s t : σ} {e : ε'}
    (h : x s = .error e t) : outcome x s = .error e := by simp [outcome, h]

/-- A program that ends, or makes a call and goes on with its outcome. -/
inductive Client (ε σ α : Type) : Type 1
  | done (r : Except ε α)
  | call {ε' β : Type} (x : EStateM ε' σ β) (next : Except ε' β → Client ε σ α)

namespace Client

/-- One program after the other, unless the first stops with an error. -/
def bind : Client ε σ α → (α → Client ε σ β) → Client ε σ β
  | done (.ok a), f => f a
  | done (.error e), _ => done (.error e)
  | call x next, f => call x fun r => (next r).bind f

instance : Monad (Client ε σ) where
  pure a := done (.ok a)
  bind := bind

/-- Stop with an error. -/
def stop (e : ε) : Client ε σ α := done (.error e)

/-- A value that is given, or an error. -/
def given (r : Except ε α) : Client ε σ α := done r

/-- One call.  Its errors are errors of the program. -/
def ask {ε' : Type} (raise : ε' → ε) (x : EStateM ε' σ α) : Client ε σ α :=
  call x fun
    | .ok a => done (.ok a)
    | .error e => done (.error (raise e))

/-- One call whose errors are caught.  It tells whether the call went through. -/
def attempt {ε' : Type} (x : EStateM ε' σ α) : Client ε σ Bool :=
  call x fun
    | .ok _ => done (.ok true)
    | .error _ => done (.ok false)

/-! ## Runs -/

/-- Others move the state, or the client makes its next call. -/
inductive Step (R : σ → σ → Prop) : Client ε σ α × σ → Client ε σ α × σ → Prop
  | others {p : Client ε σ α} {s t : σ} (h : R s t) : Step R (p, s) (p, t)
  | own {ε' β : Type} {x : EStateM ε' σ β} {next : Except ε' β → Client ε σ α} {s : σ} :
      Step R (call x next, s) (next (outcome x s), finalState x s)

/-- Any number of steps. -/
abbrev Run (R : σ → σ → Prop) : Client ε σ α × σ → Client ε σ α × σ → Prop :=
  Relation.ReflTransGen (Step R)

/-- Let the client make its next call, or others make a move. -/
def turn (act : μ → σ → σ) : Client ε σ α × σ → Option μ → Client ε σ α × σ
  | (call x next, s), none => (next (outcome x s), finalState x s)
  | (done r, s), none => (done r, s)
  | (p, s), some m => (p, act m s)

/-- Turns in a given order make a run. -/
theorem Run.play {R : σ → σ → Prop} {act : μ → σ → σ} (allowed : ∀ m s, R s (act m s))
    (order : List (Option μ)) (a : Client ε σ α × σ) : Run R a (order.foldl (turn act) a) := by
  induction order generalizing a with
  | nil => exact .refl
  | cons m order ih =>
      refine Relation.ReflTransGen.trans ?_ (ih (turn act a m))
      obtain ⟨p, s⟩ := a
      cases m with
      | some m => cases p <;> exact .single (.others (allowed m s))
      | none =>
          cases p with
          | done r => exact .refl
          | call x next => exact .single .own

/-- What a part of a client does, the client does. -/
theorem Run.bind {R : σ → σ → Prop} {p q : Client ε σ α} {s t : σ} (run : Run R (p, s) (q, t))
    (f : α → Client ε σ β) : Run R (p >>= f, s) (q >>= f, t) := by
  generalize first : (p, s) = a at run
  generalize last : (q, t) = b at run
  induction run generalizing q t with
  | refl =>
      cases first
      cases last
      exact .refl
  | tail _ step ih =>
      cases step with
      | others moved =>
          cases last
          exact (ih rfl).tail (.others moved)
      | own =>
          cases last
          exact (ih rfl).tail .own

/-- One part after the other. -/
theorem Run.seq {R : σ → σ → Prop} {p : Client ε σ α} {f : α → Client ε σ β} {a : α} {s t : σ}
    {c : Client ε σ β × σ} (first : Run R (p, s) (.done (.ok a), t)) (rest : Run R (f a, t) c) :
    Run R (p >>= f, s) c :=
  Relation.ReflTransGen.trans (first.bind f) rest

/-- A call that goes through. -/
theorem Run.ask {R : σ → σ → Prop} {ε' : Type} {raise : ε' → ε} {x : EStateM ε' σ α} {s t : σ}
    {a : α} (h : x s = .ok a t) : Run R (Client.ask raise x, s) (.done (.ok a), t) := by
  have step : Step R (Client.ask raise x, s) _ := .own
  rw [outcome_of_ok h, finalState_of_ok h] at step
  exact .single step

/-! ## What is true of a client -/

section Meets

variable {R : σ → σ → Prop} {I I' : σ → Prop} {Q Q' : Except ε α → σ → Prop} {s t : σ}
  {p : Client ε σ α}

/-- Whatever the others do, `I` holds from a state on, and `Q` at the end. -/
def Meets (R : σ → σ → Prop) (I : σ → Prop) (Q : Except ε α → σ → Prop) :
    Client ε σ α → σ → Prop
  | done r, s => ∀ t, Relation.ReflTransGen R s t → I t ∧ Q r t
  | call x next, s => ∀ t, Relation.ReflTransGen R s t →
      I t ∧ Meets R I Q (next (outcome x t)) (finalState x t)

theorem Meets.mono (h : p.Meets R I Q s) (always : ∀ t, I t → I' t)
    (ends : ∀ r t, Q r t → Q' r t) : p.Meets R I' Q' s := by
  induction p generalizing s with
  | done r => exact fun t later => ⟨always t (h t later).1, ends r t (h t later).2⟩
  | call x next ih => exact fun t later => ⟨always t (h t later).1, ih _ (h t later).2⟩

/-- What is true of a client, and what else is. -/
theorem Meets.and (h : p.Meets R I Q s) (h' : p.Meets R I' Q' s) :
    p.Meets R (fun t => I t ∧ I' t) (fun r t => Q r t ∧ Q' r t) s := by
  induction p generalizing s with
  | done r =>
      intro t later
      exact ⟨⟨(h t later).1, (h' t later).1⟩, (h t later).2, (h' t later).2⟩
  | call x next ih =>
      intro t later
      exact ⟨⟨(h t later).1, (h' t later).1⟩, ih _ (h t later).2 (h' t later).2⟩

/-- It stays true when the others move. -/
theorem Meets.later (h : p.Meets R I Q s) (moves : Relation.ReflTransGen R s t) :
    p.Meets R I Q t := by
  cases p with
  | done r => exact fun u later => h u (moves.trans later)
  | call x next => exact fun u later => h u (moves.trans later)

theorem Meets.holds (h : p.Meets R I Q s) : I s := by
  cases p with
  | done r => exact (h s .refl).1
  | call x next => exact (h s .refl).1

/-- What is true of a client is true of what a run leaves of it. -/
theorem Run.meets {q : Client ε σ α} (run : Run R (p, s) (q, t)) (h : p.Meets R I Q s) :
    q.Meets R I Q t := by
  generalize first : (p, s) = a at run
  generalize last : (q, t) = b at run
  induction run generalizing q t with
  | refl =>
      cases first
      cases last
      exact h
  | tail _ step ih =>
      cases step with
      | others moved =>
          cases last
          exact (ih rfl).later (.single moved)
      | own =>
          cases last
          exact ((ih rfl) _ .refl).2

/-- `I` holds in every state of a run. -/
theorem Run.always {q : Client ε σ α} (run : Run R (p, s) (q, t)) (h : p.Meets R I Q s) : I t :=
  (run.meets h).holds

/-- A run that ends has `Q` at its end. -/
theorem Run.ended {r : Except ε α} (run : Run R (p, s) (done r, t)) (h : p.Meets R I Q s) :
    Q r t := ((run.meets h) t .refl).2

/-! ### Rules -/

/-- Nobody but the client makes it false. -/
def Stable (R : σ → σ → Prop) (P : σ → Prop) : Prop := ∀ s t, R s t → P s → P t

theorem Stable.later {P : σ → Prop} (h : Stable R P) (moves : Relation.ReflTransGen R s t)
    (hs : P s) : P t := by
  induction moves with
  | refl => exact hs
  | tail _ last ih => exact h _ _ last ih

theorem Meets.done {r : Except ε α} (h : ∀ t, Relation.ReflTransGen R s t → I t ∧ Q r t) :
    (Client.done r).Meets R I Q s := h

theorem Meets.bind {f : α → Client ε σ β} {Q' : Except ε β → σ → Prop} (h : p.Meets R I Q s)
    (error : ∀ e t, Q (.error e) t → Q' (.error e) t)
    (ok : ∀ a t, Q (.ok a) t → (f a).Meets R I Q' t) : (p >>= f).Meets R I Q' s := by
  change (p.bind f).Meets R I Q' s
  induction p generalizing s with
  | done r =>
      cases r with
      | ok a => exact ok a s (h s .refl).2
      | error e => exact fun t later => ⟨(h t later).1, error e t (h t later).2⟩
  | call x next ih => exact fun t later => ⟨(h t later).1, ih _ (h t later).2⟩

/-- A call is made in some state that the others leave. -/
theorem Meets.ask {ε' : Type} {raise : ε' → ε} {x : EStateM ε' σ α}
    (h : ∀ t, Relation.ReflTransGen R s t → I t ∧
      (∀ a u, x t = .ok a u → (Client.done (.ok a)).Meets R I Q u) ∧
        ∀ e u, x t = .error e u → (Client.done (.error (raise e))).Meets R I Q u) :
    (Client.ask raise x).Meets R I Q s := by
  intro t later
  obtain ⟨inv, ok, error⟩ := h t later
  refine ⟨inv, ?_⟩
  cases ended : x t with
  | ok a u =>
      rw [outcome_of_ok ended, finalState_of_ok ended]
      exact ok a u ended
  | error e u =>
      rw [outcome_of_error ended, finalState_of_error ended]
      exact error e u ended

end Meets

/-! ## Calls of one kind -/

section Within

variable {R T : σ → σ → Prop} {P : σ → Prop} {p : Client ε σ α}

/-- Every call, wherever it is made, moves the state as `T` says. -/
def Within (T : σ → σ → Prop) : Client ε σ α → Prop
  | done _ => True
  | call x next => (∀ s, T s (finalState x s)) ∧ ∀ r, Within T (next r)

theorem Within.pure (a : α) : Within T (Pure.pure a : Client ε σ α) := trivial

theorem Within.stop (e : ε) : Within T (Client.stop e : Client ε σ α) := trivial

theorem Within.given (r : Except ε α) : Within T (Client.given r : Client ε σ α) := trivial

theorem Within.ask {ε' : Type} (raise : ε' → ε) {x : EStateM ε' σ α}
    (h : ∀ s, T s (finalState x s)) : Within T (Client.ask raise x) := by
  refine ⟨h, fun r => ?_⟩
  cases r <;> trivial

theorem Within.attempt {ε' : Type} {x : EStateM ε' σ α} (h : ∀ s, T s (finalState x s)) :
    Within T (Client.attempt x : Client ε σ Bool) := by
  refine ⟨h, fun r => ?_⟩
  cases r <;> trivial

theorem Within.bind {f : α → Client ε σ β} (first : Within T p) (rest : ∀ a, Within T (f a)) :
    Within T (p >>= f) := by
  change Within T (p.bind f)
  induction p with
  | done r =>
      cases r with
      | ok a => exact rest a
      | error e => trivial
  | call x next ih => exact ⟨first.1, fun r => ih r (first.2 r)⟩

theorem Within.mono {T' : σ → σ → Prop} (h : Within T p) (wider : ∀ s t, T s t → T' s t) :
    Within T' p := by
  induction p with
  | done r => trivial
  | call x next ih => exact ⟨fun s => wider _ _ (h.1 s), fun r => ih r (h.2 r)⟩

/-- A run of a client that makes such calls only is made of them and of the moves of others. -/
theorem Run.within {q : Client ε σ α} {s t : σ} (run : Run R (p, s) (q, t)) (h : Within T p) :
    Relation.ReflTransGen (fun s t => R s t ∨ T s t) s t ∧ Within T q := by
  generalize first : (p, s) = a at run
  generalize last : (q, t) = b at run
  induction run generalizing q t with
  | refl =>
      cases first
      cases last
      exact ⟨.refl, h⟩
  | tail _ step ih =>
      cases step with
      | others moved =>
          cases last
          exact ⟨(ih rfl).1.tail (.inl moved), (ih rfl).2⟩
      | own =>
          cases last
          exact ⟨(ih rfl).1.tail (.inr ((ih rfl).2.1 _)), (ih rfl).2.2 _⟩

/-- What others keep, and calls of the kind, is kept by a client that makes no other calls. -/
theorem Within.meets (h : Within T p) (stable : Stable R P) (kept : Stable T P) {s : σ}
    (hs : P s) : p.Meets R P (fun _ => P) s := by
  induction p generalizing s with
  | done r =>
      intro t later
      have ht := stable.later later hs
      exact ⟨ht, ht⟩
  | call x next ih =>
      intro t later
      have ht := stable.later later hs
      exact ⟨ht, ih _ (h.2 _) (kept _ _ (h.1 t) ht)⟩

end Within

/-! ## What is left of a client -/

section All

variable {R T : σ → σ → Prop} {H : Client ε σ α → Prop} {H' : Client ε σ β → Prop}
  {p : Client ε σ α}

/-- `H` of the client, and of all that a run can leave of it. -/
def All (H : Client ε σ α → Prop) : Client ε σ α → Prop
  | done r => H (done r)
  | call x next => H (call x next) ∧ ∀ r, All H (next r)

theorem All.here (h : p.All H) : H p := by
  cases p with
  | done r => exact h
  | call x next => exact h.1

theorem All.run {q : Client ε σ α} {s t : σ} (h : p.All H) (run : Run R (p, s) (q, t)) :
    q.All H := by
  generalize first : (p, s) = a at run
  generalize last : (q, t) = b at run
  induction run generalizing q t with
  | refl =>
      cases first
      cases last
      exact h
  | tail _ step ih =>
      cases step with
      | others moved =>
          cases last
          exact ih rfl
      | own =>
          cases last
          exact (ih rfl).2 _

theorem All.bind {f : α → Client ε σ β} (first : p.All H) (rest : ∀ a, (f a).All H')
    (join : ∀ q, H q → H' (q >>= f)) : (p >>= f).All H' := by
  induction p with
  | done r =>
      cases r with
      | ok a => exact rest a
      | error e => exact join (done (.error e)) first
  | call x next ih => exact ⟨join (call x next) first.1, fun r => ih r (first.2 r)⟩

/-- Of calls of one kind only calls of this kind are left. -/
theorem Within.all (h : Within T p) (holds : ∀ q, Within T q → H q) : p.All H := by
  induction p with
  | done r => exact holds _ h
  | call x next ih => exact ⟨holds _ h, fun r => ih r (h.2 r)⟩

end All

end Client

end Lib
