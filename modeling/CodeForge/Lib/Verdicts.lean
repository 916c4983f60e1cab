import CodeForge.Lib.Fallible

/-!
# Reading parts that may be damaged

A program reads one part after the other, each from a place of its own, and puts
them together.  A part may be as it was, or wrong, or the reader may stop at it,
with an error that says so or with another one: its *verdict*.  `Reads` says that a
program goes by the verdicts of its parts, and has a rule for every way to put
programs together.

Such a program gives what was there, or says that it cannot, for the verdicts that
are `Fair`, and for no others (`Reads.told_iff`).
-/

namespace Lib

/-! ## Verdicts -/

/-- What reading a part comes to. -/
inductive Verdict where
  /-- The part is as it was. -/
  | whole
  /-- The reader gives something else. -/
  | wrong
  /-- The reader stops, and says that the part is not available. -/
  | noticed
  /-- The reader stops with another error. -/
  | uncaught
deriving DecidableEq, Repr

/-- The reader stops. -/
def Verdict.stops : Verdict → Bool
  | .whole | .wrong => false
  | .noticed | .uncaught => true

/-- Where a part stops the reader, the first such is noticed.  Otherwise all are whole. -/
def Fair (vs : List Verdict) : Prop :=
  match vs.find? Verdict.stops with
  | some v => v = .noticed
  | none => ∀ v ∈ vs, v = .whole

instance (vs : List Verdict) : Decidable (Fair vs) := by
  unfold Fair
  split <;> infer_instance

section Reads

variable {ε α β ρ : Type} {honest : ε → Prop} {P : α → Prop} {x : Except ε α}
  {vs ws : List Verdict}

/-- What a program gives is right, or its error says that it is not available. -/
def Told (honest : ε → Prop) (P : α → Prop) : Except ε α → Prop
  | .ok a => P a
  | .error e => honest e

/-- A program goes by the verdicts of its parts. -/
def Reads (honest : ε → Prop) (P : α → Prop) (x : Except ε α) (vs : List Verdict) : Prop :=
  match vs.find? Verdict.stops with
  | some v => ∃ e, x = .error e ∧ (honest e ↔ v = .noticed)
  | none => ∃ a, x = .ok a ∧ (P a ↔ ∀ v ∈ vs, v = .whole)

/-- **What was there, or the right error**: exactly for fair verdicts. -/
theorem Reads.told_iff (h : Reads honest P x vs) : Told honest P x ↔ Fair vs := by
  rw [Reads] at h
  rw [Fair]
  cases stop : vs.find? Verdict.stops with
  | some v =>
      rw [stop] at h
      obtain ⟨e, rfl, why⟩ := h
      exact why
  | none =>
      rw [stop] at h
      obtain ⟨a, rfl, right⟩ := h
      exact right

theorem Reads.whole {a : α} (h : P a) : Reads honest P (.ok a) [.whole] :=
  ⟨a, rfl, by simp [h]⟩

theorem Reads.wrong {a : α} (h : ¬ P a) : Reads honest P (.ok a) [.wrong] :=
  ⟨a, rfl, by simp [h]⟩

theorem Reads.noticed {e : ε} (h : honest e) :
    Reads honest P (.error e : Except ε α) [.noticed] :=
  ⟨e, rfl, by simp [h]⟩

theorem Reads.uncaught {e : ε} (h : ¬ honest e) :
    Reads honest P (.error e : Except ε α) [.uncaught] :=
  ⟨e, rfl, by simp [h]⟩

/-- Nothing is read. -/
theorem Reads.nil {a : α} (h : P a) : Reads honest P (.ok a) [] :=
  ⟨a, rfl, by simp [h]⟩

/-- Parts after parts.  What is put together is right if both are. -/
theorem Reads.bind {f : α → Except ε β} {Q : α → β → Prop} {T : β → Prop}
    (hx : Reads honest P x vs) (hf : ∀ a, x = .ok a → Reads honest (Q a) (f a) ws)
    (both : ∀ a b, x = .ok a → f a = .ok b → (T b ↔ P a ∧ Q a b)) :
    Reads honest T (x >>= f) (vs ++ ws) := by
  rw [Reads] at hx ⊢
  rw [List.find?_append]
  cases stop : vs.find? Verdict.stops with
  | some v =>
      rw [stop] at hx
      obtain ⟨e, rfl, why⟩ := hx
      exact ⟨e, rfl, why⟩
  | none =>
      rw [stop] at hx
      obtain ⟨a, rfl, right⟩ := hx
      have rest := hf a rfl
      rw [Reads] at rest
      rw [Option.none_or]
      cases stop' : ws.find? Verdict.stops with
      | some v =>
          rw [stop'] at rest
          exact rest
      | none =>
          rw [stop'] at rest
          obtain ⟨b, made, right'⟩ := rest
          refine ⟨b, made, ?_⟩
          rw [both a b rfl made, right, right', List.forall_mem_append]

/-- What was read is dressed up. -/
theorem Reads.map {f : α → β} {T : β → Prop} (hx : Reads honest P x vs)
    (same : ∀ a, x = .ok a → (T (f a) ↔ P a)) :
    Reads honest T (x >>= fun a => .ok (f a)) vs := by
  have rest : ∀ a, x = .ok a → Reads honest (fun b => b = f a) (.ok (f a) : Except ε β) [] :=
    fun a _ => .nil rfl
  rw [← List.append_nil vs]
  refine hx.bind rest fun a b ha hb => ?_
  cases hb
  rw [same a ha]
  exact (and_iff_left rfl).symm

/-- One row after the other. -/
theorem Reads.mapM {f : ρ → Except ε α} {R : ρ → α → Prop} {verdicts : ρ → List Verdict}
    {l : List ρ} (h : ∀ r ∈ l, Reads honest (R r) (f r) (verdicts r)) :
    Reads honest (List.Forall₂ R l) (l.mapM f) (l.flatMap verdicts) := by
  induction l with
  | nil => exact .nil .nil
  | cons r l ih =>
      have rest := ih fun r' hr' => h r' (List.mem_cons_of_mem r hr')
      rw [List.mapM_cons, List.flatMap_cons]
      have tails : ∀ a, f r = .ok a → Reads honest (fun as => List.Forall₂ R l as.tail)
          (l.mapM f >>= fun as => .ok (a :: as)) (l.flatMap verdicts) :=
        fun a _ => rest.map fun as _ => Iff.rfl
      refine (h r List.mem_cons_self).bind tails fun a as _ made => ?_
      obtain ⟨as', -, same⟩ := except_bind_eq_ok.1 made
      cases same
      exact List.forall₂_cons

/-- A part that may not be there. -/
theorem Reads.optionMapM {f : ρ → Except ε α} {R : ρ → α → Prop} {verdicts : ρ → List Verdict}
    {o : Option ρ} (h : ∀ r, o = some r → Reads honest (R r) (f r) (verdicts r)) :
    Reads honest (Option.Rel R o) (o.mapM f) (o.toList.flatMap verdicts) := by
  cases o with
  | none => exact .nil .none
  | some r =>
      rw [Option.toList_some, List.flatMap_singleton]
      refine (h r rfl).map fun a _ => ?_
      constructor
      · intro rel
        cases rel with
        | some right => exact right
      · intro right
        exact .some right

end Reads

end Lib
