import Mathlib.Data.List.Forall2

/-!
# Fallible stateful programs

`EStateM ε σ` is the monad of programs that read and write a state and may stop
with an error, in which case the state is what it was when they stopped.  The
lemmas here turn "this program ended normally" into a conjunction, one conjunct
a statement: `bind_eq_ok` for sequencing, `orThrow_eq_ok` for a lookup that may
fail and `ensure_eq_ok` for a guard.  With them `simp only` inverts a straight
line program without unfolding the monad.

`finalState` is the state a program leaves behind, however it ends.  `Ends` says that
it ends normally, and is shown statement by statement as well.
-/

namespace Lib

variable {ε σ α β : Type}

/-- The value of a lookup, or an error. -/
def orThrow (o : Option α) (e : ε) : EStateM ε σ α :=
  match o with
  | some a => pure a
  | none => throw e

/-- Stop with an error unless the guard holds. -/
def ensure (b : Bool) (e : ε) : EStateM ε σ PUnit :=
  match b with
  | true => pure ⟨⟩
  | false => throw e

/-- The outcome of a pure fallible computation. -/
def fromExcept (x : Except ε α) : EStateM ε σ α :=
  match x with
  | .ok a => pure a
  | .error e => throw e

/-- The state a program leaves behind, whether it ends normally or not. -/
def finalState (x : EStateM ε σ α) (s : σ) : σ :=
  match x s with
  | .ok _ s' => s'
  | .error _ s' => s'

theorem finalState_of_ok {x : EStateM ε σ α} {s s' : σ} {a : α} (h : x s = .ok a s') :
    finalState x s = s' := by simp [finalState, h]

theorem finalState_of_error {x : EStateM ε σ α} {s s' : σ} {e : ε} (h : x s = .error e s') :
    finalState x s = s' := by simp [finalState, h]

/-- What is made of the outcome does not touch the state. -/
theorem finalState_discard (x : EStateM ε σ α) (f : α → β) (s : σ) :
    finalState (x >>= fun a => pure (f a)) s = finalState x s := by
  change finalState (EStateM.bind x fun a => EStateM.pure (f a)) s = _
  unfold finalState EStateM.bind
  cases x s <;> rfl

/-! ## Normal ends -/

theorem except_ok_bind (a : α) (f : α → Except ε β) : (Except.ok a >>= f) = f a := rfl

theorem except_map_eq_ok {x : Except ε α} {f : α → β} {b : β} :
    x.map f = .ok b ↔ ∃ a, x = .ok a ∧ f a = b := by
  cases x with
  | ok a => simp [Except.map]
  | error e => simp [Except.map]

theorem except_bind_eq_ok {x : Except ε α} {f : α → Except ε β} {b : β} :
    (x >>= f) = .ok b ↔ ∃ a, x = .ok a ∧ f a = .ok b := by
  cases x with
  | ok a =>
      constructor
      · intro h; exact ⟨a, rfl, h⟩
      · rintro ⟨_, ⟨⟩, h⟩; exact h
  | error e =>
      constructor
      · intro h; cases h
      · rintro ⟨_, h, -⟩; cases h

theorem except_bind_eq_error {x : Except ε α} {f : α → Except ε β} {e : ε} :
    (x >>= f) = .error e ↔ x = .error e ∨ ∃ a, x = .ok a ∧ f a = .error e := by
  cases x with
  | ok a =>
      constructor
      · intro h; exact .inr ⟨a, rfl, h⟩
      · rintro (⟨⟨⟩⟩ | ⟨_, ⟨⟩, h⟩); exact h
  | error e' =>
      constructor
      · intro h; cases h; exact .inl rfl
      · rintro (⟨⟨⟩⟩ | ⟨_, ⟨⟩, -⟩); rfl

theorem bind_eq_ok {x : EStateM ε σ α} {f : α → EStateM ε σ β} {s s' : σ} {b : β} :
    (x >>= f) s = .ok b s' ↔ ∃ a s1, x s = .ok a s1 ∧ f a s1 = .ok b s' := by
  change EStateM.bind x f s = _ ↔ _
  unfold EStateM.bind
  cases x s with
  | ok a s1 =>
      constructor
      · intro h; exact ⟨a, s1, rfl, h⟩
      · rintro ⟨a', s2, h, h'⟩; cases h; exact h'
  | error e s1 => simp

theorem bind_eq_error {x : EStateM ε σ α} {f : α → EStateM ε σ β} {s s' : σ} {e : ε} :
    (x >>= f) s = .error e s' ↔
      x s = .error e s' ∨ ∃ a s1, x s = .ok a s1 ∧ f a s1 = .error e s' := by
  change EStateM.bind x f s = _ ↔ _
  unfold EStateM.bind
  cases x s with
  | ok a s1 =>
      constructor
      · intro h; exact .inr ⟨a, s1, rfl, h⟩
      · rintro (h | ⟨a', s2, h, h'⟩)
        · cases h
        · cases h; exact h'
  | error e s1 => simp

theorem pure_eq_ok {a b : α} {s s' : σ} :
    (pure a : EStateM ε σ α) s = .ok b s' ↔ b = a ∧ s' = s := by
  change EStateM.pure a s = _ ↔ _
  simp [EStateM.pure, eq_comm]

theorem get_eq_ok {s s' t : σ} :
    (get : EStateM ε σ σ) s = .ok t s' ↔ t = s ∧ s' = s := by
  change EStateM.Result.ok s s = _ ↔ _
  simp [eq_comm]

theorem set_eq_ok {s s' t : σ} {u : PUnit} :
    (set t : EStateM ε σ PUnit) s = .ok u s' ↔ s' = t := by
  change EStateM.Result.ok () t = _ ↔ _
  simp [eq_comm]

theorem modify_eq_ok {s s' : σ} {f : σ → σ} {u : PUnit} :
    (modify f : EStateM ε σ PUnit) s = .ok u s' ↔ s' = f s := by
  change EStateM.Result.ok () (f s) = _ ↔ _
  simp [eq_comm]

theorem throw_eq (e : ε) (s : σ) : (throw e : EStateM ε σ α) s = .error e s := rfl

theorem throw_ne_ok {e : ε} {s s' : σ} {a : α} :
    ¬ (throw e : EStateM ε σ α) s = .ok a s' := by
  rw [throw_eq]
  exact nofun

theorem orThrow_eq_ok {o : Option α} {e : ε} {s s' : σ} {a : α} :
    (orThrow o e : EStateM ε σ α) s = .ok a s' ↔ o = some a ∧ s' = s := by
  cases o with
  | none => simp [orThrow, throw_ne_ok]
  | some b => simp [orThrow, pure_eq_ok, eq_comm]

theorem ensure_eq_ok {b : Bool} {e : ε} {s s' : σ} {u : PUnit} :
    (ensure b e : EStateM ε σ PUnit) s = .ok u s' ↔ b = true ∧ s' = s := by
  cases b with
  | false => simp [ensure, throw_ne_ok]
  | true => simp [ensure, pure_eq_ok]

theorem fromExcept_eq_ok {x : Except ε α} {s s' : σ} {a : α} :
    (fromExcept x : EStateM ε σ α) s = .ok a s' ↔ x = .ok a ∧ s' = s := by
  cases x with
  | error e => simp [fromExcept, throw_ne_ok]
  | ok b => simp [fromExcept, pure_eq_ok, eq_comm]

/-! ## Normal ends, statement by statement -/

theorem orThrow_bind_eq_ok {o : Option α} {e : ε} {f : α → EStateM ε σ β} {s s' : σ} {b : β} :
    (orThrow o e >>= f) s = .ok b s' ↔ ∃ a, o = some a ∧ f a s = .ok b s' := by
  rw [bind_eq_ok]
  constructor
  · rintro ⟨a, s₁, h, hf⟩
    obtain ⟨ho, rfl⟩ := orThrow_eq_ok.1 h
    exact ⟨a, ho, hf⟩
  · rintro ⟨a, ho, hf⟩
    exact ⟨a, s, orThrow_eq_ok.2 ⟨ho, rfl⟩, hf⟩

theorem ensure_bind_eq_ok {c : Bool} {e : ε} {f : PUnit → EStateM ε σ β} {s s' : σ} {b : β} :
    (ensure c e >>= f) s = .ok b s' ↔ c = true ∧ f ⟨⟩ s = .ok b s' := by
  rw [bind_eq_ok]
  constructor
  · rintro ⟨a, s₁, h, hf⟩
    obtain ⟨hc, rfl⟩ := ensure_eq_ok.1 h
    exact ⟨hc, hf⟩
  · rintro ⟨hc, hf⟩
    exact ⟨⟨⟩, s, ensure_eq_ok.2 ⟨hc, rfl⟩, hf⟩

theorem fromExcept_bind_eq_ok {x : Except ε α} {f : α → EStateM ε σ β} {s s' : σ} {b : β} :
    (fromExcept x >>= f) s = .ok b s' ↔ ∃ a, x = .ok a ∧ f a s = .ok b s' := by
  rw [bind_eq_ok]
  constructor
  · rintro ⟨a, s₁, h, hf⟩
    obtain ⟨ho, rfl⟩ := fromExcept_eq_ok.1 h
    exact ⟨a, ho, hf⟩
  · rintro ⟨a, ho, hf⟩
    exact ⟨a, s, fromExcept_eq_ok.2 ⟨ho, rfl⟩, hf⟩

/-! ## Programs that end normally -/

/-- The program ends normally. -/
def Ends (x : EStateM ε σ α) (s : σ) : Prop := ∃ a s', x s = .ok a s'

instance (x : EStateM ε σ α) (s : σ) : Decidable (Ends x s) :=
  match h : x s with
  | .ok a s' => .isTrue ⟨a, s', h⟩
  | .error e s' => .isFalse fun ⟨a, t, h'⟩ => by rw [h] at h'; cases h'

theorem Ends.pure (a : α) (s : σ) : Ends (pure a : EStateM ε σ α) s := ⟨a, s, rfl⟩

theorem Ends.bind {x : EStateM ε σ α} {f : α → EStateM ε σ β} {s s₁ : σ} {a : α}
    (hx : x s = .ok a s₁) (hf : Ends (f a) s₁) : Ends (x >>= f) s := by
  obtain ⟨b, s', h⟩ := hf
  exact ⟨b, s', bind_eq_ok.2 ⟨a, s₁, hx, h⟩⟩

theorem Ends.orThrow_bind {o : Option α} {e : ε} {f : α → EStateM ε σ β} {s : σ} {a : α}
    (ho : o = some a) (hf : Ends (f a) s) : Ends (orThrow o e >>= f) s :=
  .bind (orThrow_eq_ok.2 ⟨ho, rfl⟩) hf

theorem Ends.ensure_bind {c : Bool} {e : ε} {f : PUnit → EStateM ε σ β} {s : σ}
    (hc : c = true) (hf : Ends (f ⟨⟩) s) : Ends (ensure c e >>= f) s :=
  .bind (ensure_eq_ok.2 ⟨hc, rfl⟩) hf

theorem Ends.fromExcept_bind {x : Except ε α} {f : α → EStateM ε σ β} {s : σ} {a : α}
    (hx : x = .ok a) (hf : Ends (f a) s) : Ends (fromExcept x >>= f) s :=
  .bind (fromExcept_eq_ok.2 ⟨hx, rfl⟩) hf

/-! ## What programs keep -/

/-- The program keeps a property of the state, however it ends. -/
def Preserves (I : σ → Prop) (x : EStateM ε σ α) : Prop := ∀ s, I s → I (finalState x s)

variable {I : σ → Prop}

theorem Preserves.of_ok {x : EStateM ε σ α} (h : Preserves I x) {s s' : σ} {a : α}
    (hx : x s = .ok a s') (hs : I s) : I s' := by
  rw [← finalState_of_ok hx]
  exact h s hs

theorem Preserves.of_error {x : EStateM ε σ α} (h : Preserves I x) {s s' : σ} {e : ε}
    (hx : x s = .error e s') (hs : I s) : I s' := by
  rw [← finalState_of_error hx]
  exact h s hs

theorem Preserves.pure (a : α) : Preserves I (pure a : EStateM ε σ α) := fun _ hs => hs

theorem Preserves.throw (e : ε) : Preserves I (throw e : EStateM ε σ α) := fun _ hs => hs

theorem Preserves.get : Preserves I (get : EStateM ε σ σ) := fun _ hs => hs

theorem Preserves.modify {f : σ → σ} (h : ∀ s, I s → I (f s)) :
    Preserves I (modify f : EStateM ε σ PUnit) := h

/-- What a sequence leaves behind, whether its first program ends normally or not. -/
theorem finalState_bind {x : EStateM ε σ α} {f : α → EStateM ε σ β} {s : σ}
    (normal : ∀ a s', x s = .ok a s' → I (finalState (f a) s'))
    (stopped : ∀ e s', x s = .error e s' → I s') : I (finalState (x >>= f) s) := by
  change I (finalState (EStateM.bind x f) s)
  unfold finalState EStateM.bind
  cases h : x s with
  | ok a s' => exact normal a s' h
  | error e s' => exact stopped e s' h

theorem Preserves.bind {x : EStateM ε σ α} {f : α → EStateM ε σ β} (hx : Preserves I x)
    (hf : ∀ a, Preserves I (f a)) : Preserves I (x >>= f) := fun _ hs =>
  finalState_bind (fun a s' h => hf a s' (hx.of_ok h hs)) fun _ _ h => hx.of_error h hs

/-- What a sequence leaves behind, where its first program leads to `Q`. -/
theorem finalState_follow {J Q : σ → Prop} {x : EStateM ε σ α} {f : α → EStateM ε σ β} {s : σ}
    (hx : Q (finalState x s)) (weaken : ∀ s, Q s → J s)
    (hf : ∀ a s', x s = .ok a s' → Q s' → J (finalState (f a) s')) :
    J (finalState (x >>= f) s) := by
  refine finalState_bind (fun a s' h => hf a s' h ?_) fun _ s' h => weaken s' ?_
  · rwa [finalState_of_ok h] at hx
  · rwa [finalState_of_error h] at hx

/-- A program that keeps `I`, and one after it that leads from `I` to `J`. -/
theorem Preserves.follow {J : σ → Prop} {x : EStateM ε σ α} {f : α → EStateM ε σ β} {s : σ}
    (hx : Preserves I x) (weaken : ∀ s, I s → J s)
    (hf : ∀ a s', x s = .ok a s' → I s' → J (finalState (f a) s')) (hs : I s) :
    J (finalState (x >>= f) s) := finalState_follow (hx s hs) weaken hf

theorem Preserves.ite {c : Prop} [Decidable c] {x y : EStateM ε σ α} (hx : Preserves I x)
    (hy : Preserves I y) : Preserves I (if c then x else y) := by
  split
  · exact hx
  · exact hy

/-! ## Lookups of a list -/

/-- All lookups of a list find something. -/
theorem mapM_eq_some {f : α → Option β} {l : List α} {l' : List β} :
    l.mapM f = some l' ↔ List.Forall₂ (fun a b => f a = some b) l l' := by
  induction l generalizing l' with
  | nil =>
      rw [List.mapM_nil, List.forall₂_nil_left_iff]
      exact ⟨fun h => (Option.some.inj h).symm, fun h => congrArg some h.symm⟩
  | cons a l ih =>
      rw [List.mapM_cons, List.forall₂_cons_left_iff]
      constructor
      · intro h
        obtain ⟨b, first, h⟩ := Option.bind_eq_some_iff.1 h
        obtain ⟨bs, rest, same⟩ := Option.bind_eq_some_iff.1 h
        exact ⟨b, bs, first, ih.1 rest, (Option.some.inj same).symm⟩
      · rintro ⟨b, bs, first, rest, rfl⟩
        rw [first, ih.2 rest]
        rfl

/-- What is found is found for something of the list. -/
theorem mem_of_mapM {f : α → Option β} {l : List α} {l' : List β} (h : l.mapM f = some l')
    {b : β} : b ∈ l' ↔ ∃ a ∈ l, f a = some b := by
  induction l generalizing l' with
  | nil =>
      cases h
      simp
  | cons a l ih =>
      obtain ⟨b', bs, first, rest, rfl⟩ := List.forall₂_cons_left_iff.1 (mapM_eq_some.1 h)
      have others := ih (mapM_eq_some.2 rest)
      rw [List.mem_cons, others, List.exists_mem_cons_iff, first, Option.some.injEq, eq_comm]

/-- Different things of a list lead to different things. -/
theorem pairwise_mapM {f : α → Option β} {l : List α} {l' : List β} {R : α → α → Prop}
    {S : β → β → Prop} (h : l.mapM f = some l')
    (imp : ∀ {a a' b b'}, f a = some b → f a' = some b' → R a a' → S b b')
    (pairwise : l.Pairwise R) : l'.Pairwise S := by
  have all := mapM_eq_some.1 h
  clear h
  induction all with
  | nil => exact List.Pairwise.nil
  | @cons a b l l' first rest ih =>
      obtain ⟨here, later⟩ := List.pairwise_cons.1 pairwise
      refine List.pairwise_cons.2 ⟨fun b' hb' => ?_, ih later⟩
      obtain ⟨a', ha', found⟩ := (mem_of_mapM (mapM_eq_some.2 rest)).1 hb'
      exact imp first found (here a' ha')

/-! ## Lists of fallible computations -/

/-- Tests that do not fail. -/
theorem except_anyM_map {α β ε : Type} {f : α → Except ε Bool} {g : β → α} {p : β → Bool}
    {l : List β} (h : ∀ b ∈ l, f (g b) = .ok (p b)) : (l.map g).anyM f = .ok (l.any p) := by
  induction l with
  | nil => rfl
  | cons b l ih =>
      obtain ⟨first, rest⟩ := List.forall_mem_cons.1 h
      rw [List.map_cons, List.anyM, first, ih rest, List.any_cons]
      cases p b <;> rfl

theorem except_findM? {α ε : Type} {f : α → Except ε Bool} {p : α → Bool} {l : List α}
    (h : ∀ a ∈ l, f a = .ok (p a)) : l.findM? f = .ok (l.find? p) := by
  induction l with
  | nil => rfl
  | cons a l ih =>
      obtain ⟨first, rest⟩ := List.forall_mem_cons.1 h
      rw [List.findM?, first, ih rest, List.find?_cons]
      cases p a <;> rfl

theorem except_mapM_cons {f : α → Except ε β} {a : α} {l : List α} {bs : List β}
    (h : (a :: l).mapM f = .ok bs) :
    ∃ b bs', f a = .ok b ∧ l.mapM f = .ok bs' ∧ bs = b :: bs' := by
  rw [List.mapM_cons] at h
  obtain ⟨b, first, h⟩ := except_bind_eq_ok.1 h
  obtain ⟨bs', rest, h⟩ := except_bind_eq_ok.1 h
  cases h
  exact ⟨b, bs', first, rest, rfl⟩

theorem except_mapM_append {f : α → Except ε β} {l l' : List α} {bs : List β}
    (h : (l ++ l').mapM f = .ok bs) :
    ∃ b b', l.mapM f = .ok b ∧ l'.mapM f = .ok b' ∧ bs = b ++ b' := by
  rw [List.mapM_append] at h
  obtain ⟨b, first, h⟩ := except_bind_eq_ok.1 h
  obtain ⟨b', rest, h⟩ := except_bind_eq_ok.1 h
  cases h
  exact ⟨b, b', first, rest, rfl⟩

theorem mem_of_except_mapM {f : α → Except ε β} {l : List α} {bs : List β}
    (h : l.mapM f = .ok bs) {b : β} (hb : b ∈ bs) : ∃ a ∈ l, f a = .ok b := by
  induction l generalizing bs with
  | nil =>
      cases h
      cases hb
  | cons a l ih =>
      obtain ⟨b', bs', first, rest, rfl⟩ := except_mapM_cons h
      rcases List.mem_cons.1 hb with rfl | later
      · exact ⟨a, List.mem_cons_self, first⟩
      · obtain ⟨a', ha', found⟩ := ih rest later
        exact ⟨a', List.mem_cons_of_mem _ ha', found⟩

/-- Where all computations succeed, doing one in every round of a loop is going over what they
yield. -/
theorem foldlM_mapM {f : α → Except ε β} {step : σ → β → Except ε σ} {l : List α} {bs : List β}
    (h : l.mapM f = .ok bs) (s : σ) :
    (l.foldlM (fun s a => do step s (← f a)) s) = bs.foldlM step s := by
  induction l generalizing bs s with
  | nil =>
      cases h
      rfl
  | cons a l ih =>
      obtain ⟨b, bs', first, rest, rfl⟩ := except_mapM_cons h
      rw [List.foldlM_cons, List.foldlM_cons, first, except_ok_bind]
      cases step s b with
      | error e => rfl
      | ok s' => exact ih rest s'

/-- A loop fails in one of its rounds. -/
theorem except_foldlM_error {step : σ → α → Except ε σ} {l : List α} {s : σ} {e : ε}
    (h : l.foldlM step s = .error e) : ∃ a ∈ l, ∃ s', step s' a = .error e := by
  induction l generalizing s with
  | nil => cases h
  | cons a l ih =>
      rw [List.foldlM_cons] at h
      rcases except_bind_eq_error.1 h with first | ⟨s', -, rest⟩
      · exact ⟨a, List.mem_cons_self, s, first⟩
      · obtain ⟨a', ha', later⟩ := ih rest
        exact ⟨a', List.mem_cons_of_mem _ ha', later⟩

/-! ## Computations in step -/

/-- Two computations fail alike, or yield values that are related. -/
inductive InStep (Rel : α → β → Prop) : Except ε α → Except ε β → Prop where
  | ok {a : α} {b : β} (h : Rel a b) : InStep Rel (.ok a) (.ok b)
  | error (e : ε) : InStep Rel (.error e) (.error e)

theorem InStep.bind {α' β' : Type} {Rel : α → β → Prop} {Rel' : α' → β' → Prop} {x : Except ε α}
    {y : Except ε β} {f : α → Except ε α'} {g : β → Except ε β'} (h : InStep Rel x y)
    (next : ∀ a b, Rel a b → InStep Rel' (f a) (g b)) : InStep Rel' (x >>= f) (y >>= g) := by
  cases h with
  | ok related => exact next _ _ related
  | error e => exact .error e

theorem InStep.map_left {Rel : σ → β → Prop} {x : Except ε σ} {y : Except ε β} {f : σ → σ}
    (h : InStep Rel x y) (next : ∀ a b, Rel a b → Rel (f a) b) :
    InStep Rel (x >>= fun a => pure (f a)) y := by
  cases h with
  | ok related => exact .ok (next _ _ related)
  | error e => exact .error e

theorem InStep.foldlM {τ : Type} {Rel : σ → τ → Prop} {step : σ → α → Except ε σ}
    {step' : τ → α → Except ε τ} {l : List α} {s : σ} {t : τ} (start : Rel s t)
    (round : ∀ a ∈ l, ∀ s t, Rel s t → InStep Rel (step s a) (step' t a)) :
    InStep Rel (l.foldlM step s) (l.foldlM step' t) := by
  induction l generalizing s t with
  | nil => exact .ok start
  | cons a l ih =>
      rw [List.foldlM_cons, List.foldlM_cons]
      exact (round a List.mem_cons_self s t start).bind fun s' t' related =>
        ih related fun a' ha' => round a' (List.mem_cons_of_mem _ ha')

end Lib
