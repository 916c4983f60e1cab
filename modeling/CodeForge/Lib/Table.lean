import Mathlib.Data.List.Basic
import Mathlib.Data.List.Nodup
import Mathlib.Data.List.Pairwise
import Mathlib.Logic.Function.Basic

/-!
# Tables with keys

A relational table is a list of rows in insertion order.  Its rows are told
apart by their *identity*, the columns no statement ever rewrites: the primary
key and the columns of the unique constraints.  Two identities `clash` when one
constraint forbids them together.  A `Table` carries the proof that no two of
its rows clash, so a table that violates its constraints cannot be built.
`insert?` is the only way in and fails where the constraint would.  `update`
rewrites rows and asks for the proof that it leaves every identity alone.

`get?` looks a row up by primary key, `getIn` by the scope it belongs to and its
key.  Under `insert?` and the updates a table behaves like a function from keys
to rows (`get?_insert?`, `getIn_insert?`, `getIn_updateIn`), which is how later
modules read it.
-/

namespace Lib

/-- The identifying columns of a row type: the scope, the primary key, and which
pairs of identities a unique constraint forbids. -/
class Entity (α : Type) (ι σ κ : outParam Type) where
  /-- The columns the constraints speak of, and the scope. -/
  ident : α → ι
  /-- The scope the row belongs to. -/
  scope : ι → σ
  /-- The primary key. -/
  key : ι → κ
  /-- Some constraint forbids the two together. -/
  clash : ι → ι → Bool
  clash_symm : ∀ a b, clash a b = clash b a
  clash_of_key : ∀ a b, key a = key b → clash a b = true

section Entity

variable {α ι σ κ : Type} [Entity α ι σ κ]

/-- The scope of a row. -/
abbrev rowScope (a : α) : σ := Entity.scope (α := α) (Entity.ident a)

/-- The primary key of a row. -/
abbrev rowKey (a : α) : κ := Entity.key (α := α) (Entity.ident a)

/-- Two rows that cannot be in one table. -/
abbrev rowClash (a b : α) : Bool := Entity.clash (α := α) (Entity.ident a) (Entity.ident b)

theorem rowClash_symm (a b : α) : rowClash a b = rowClash b a := Entity.clash_symm (α := α) _ _

theorem rowClash_of_key {a b : α} (h : rowKey a = rowKey b) : rowClash a b = true :=
  Entity.clash_of_key (α := α) _ _ h

end Entity

/-- A list of rows no two of which clash. -/
structure Table (α : Type) {ι σ κ : Type} [Entity α ι σ κ] where
  /-- The rows, in the order of their insertion. -/
  rows : List α
  /-- The constraints hold. -/
  distinct : rows.Pairwise fun a b => rowClash a b = false

namespace Table

variable {α ι σ κ : Type} [Entity α ι σ κ]

/-- The table without rows. -/
def empty : Table α := ⟨[], .nil⟩

instance : Membership α (Table α) := ⟨fun t a => a ∈ t.rows⟩

theorem mem_def {a : α} {t : Table α} : a ∈ t ↔ a ∈ t.rows := Iff.rfl

@[simp] theorem not_mem_empty (a : α) : a ∉ (empty : Table α) := List.not_mem_nil

/-! ## Inserting -/

theorem distinct_append {t : Table α} {a : α} (h : ∀ b ∈ t.rows, rowClash b a = false) :
    (t.rows ++ [a]).Pairwise fun a b => rowClash a b = false := by
  refine List.pairwise_append.2 ⟨t.distinct, List.pairwise_singleton _ _, ?_⟩
  intro b hb c hc
  rw [List.mem_singleton] at hc
  subst hc
  exact h b hb

/-- Insert a row, or fail where a row of the table clashes with it. -/
def insert? (t : Table α) (a : α) : Option (Table α) :=
  if h : ∀ b ∈ t.rows, rowClash b a = false then some ⟨t.rows ++ [a], distinct_append h⟩ else none

theorem insert?_eq_some {t t' : Table α} {a : α} :
    t.insert? a = some t' ↔ (∀ b ∈ t, rowClash b a = false) ∧ t'.rows = t.rows ++ [a] := by
  unfold insert?
  split
  next h =>
    constructor
    · intro e
      exact ⟨h, by rw [← Option.some.inj e]⟩
    · rintro ⟨-, e⟩
      cases t'
      simp only at e
      subst e
      rfl
  next h =>
    constructor
    · intro e; cases e
    · rintro ⟨h', -⟩; exact absurd h' h

theorem insert?_isSome {t : Table α} {a : α} (h : ∀ b ∈ t, rowClash b a = false) :
    ∃ t', t.insert? a = some t' :=
  ⟨⟨t.rows ++ [a], distinct_append h⟩, insert?_eq_some.2 ⟨h, rfl⟩⟩

theorem mem_insert? {t t' : Table α} {a : α} (h : t.insert? a = some t') {b : α} :
    b ∈ t' ↔ b ∈ t ∨ b = a := by
  simp [mem_def, (insert?_eq_some.1 h).2]

theorem mem_of_insert? {t t' : Table α} {a b : α} (h : t.insert? a = some t') (hb : b ∈ t) :
    b ∈ t' := (mem_insert? h).2 (.inl hb)

theorem new_mem_insert? {t t' : Table α} {a : α} (h : t.insert? a = some t') : a ∈ t' :=
  (mem_insert? h).2 (.inr rfl)

/-! ## Updating -/

/-- Rewrite every row, leaving every identity alone.  Where `f` sets other
columns, perhaps of some rows only, the proof finds itself. -/
def update (t : Table α) (f : α → α)
    (hf : ∀ a, Entity.ident (f a) = Entity.ident a := by
      intro _; first | exact Eq.trans rfl rfl | (split <;> rfl)) : Table α :=
  ⟨t.rows.map f, by
    rw [List.pairwise_map]
    exact t.distinct.imp (by intro a b h; rw [rowClash, hf, hf]; exact h)⟩

/-- Rewrite the rows that satisfy `p`. -/
def updateWhere (t : Table α) (p : α → Bool) (f : α → α)
    (hf : ∀ a, Entity.ident (f a) = Entity.ident a := by
      intro _; first | exact Eq.trans rfl rfl | (split <;> rfl)) : Table α :=
  t.update (fun a => if p a then f a else a) (by intro a; split <;> simp [hf])

/-- Columns an update leaves alone, row by row. -/
theorem map_updateWhere_same {β : Type} (t : Table α) (p : α → Bool) (f : α → α) (hf) {g : α → β}
    (hg : ∀ a, g (f a) = g a) : (t.updateWhere p f hf).rows.map g = t.rows.map g := by
  simp only [updateWhere, update, List.map_map]
  refine List.map_congr_left fun a _ => ?_
  simp only [Function.comp_apply]
  split
  · exact hg a
  · rfl

/-- The number of rows that satisfy `p`, the `rowcount` of an update. -/
def countWhere (t : Table α) (p : α → Bool) : Nat := t.rows.countP p

theorem mem_update {t : Table α} {f : α → α} {hf} {b : α} :
    b ∈ t.update f hf ↔ ∃ a ∈ t, f a = b := by
  simp [mem_def, update]

theorem mem_updateWhere {t : Table α} {p : α → Bool} {f : α → α} {hf} {b : α} :
    b ∈ t.updateWhere p f hf ↔ ∃ a ∈ t, (if p a then f a else a) = b := mem_update

/-! ## Looking up by key -/

/-- Two rows of a table that some constraint forbids together are one row. -/
theorem eq_of_clash {t : Table α} {a b : α} (ha : a ∈ t) (hb : b ∈ t)
    (h : rowClash a b = true) : a = b := by
  by_contra hne
  have : Std.Symm fun x y : α => rowClash x y = false :=
    ⟨fun x y e => by rw [rowClash_symm]; exact e⟩
  have hp := t.distinct.forall ha hb hne
  rw [hp] at h
  cases h

theorem eq_of_key {t : Table α} {a b : α} (ha : a ∈ t) (hb : b ∈ t)
    (h : rowKey a = rowKey b) : a = b := eq_of_clash ha hb (rowClash_of_key h)

theorem rows_nodup (t : Table α) : t.rows.Nodup := t.distinct.imp fun {a b} apart same => by
  rw [same, rowClash_of_key rfl] at apart
  cases apart

/-- A query that only one row meets. -/
theorem filter_eq_singleton {t : Table α} {c : α → Bool} {a : α} (ha : a ∈ t) (hc : c a = true)
    (only : ∀ b ∈ t, c b = true → b = a) : t.rows.filter c = [a] := by
  refine List.perm_singleton.1 ?_
  refine (List.perm_ext_iff_of_nodup (t.rows_nodup.filter _) (List.nodup_singleton _)).2 fun b => ?_
  rw [List.mem_filter, List.mem_singleton]
  constructor
  · rintro ⟨hb, holds⟩
    exact only b hb holds
  · rintro rfl
    exact ⟨ha, hc⟩

variable [DecidableEq κ]

/-- The row with a primary key. -/
def get? (t : Table α) (k : κ) : Option α := t.rows.find? fun a => rowKey a = k

theorem get?_eq_some {t : Table α} {k : κ} {a : α} :
    t.get? k = some a ↔ a ∈ t ∧ rowKey a = k := by
  constructor
  · intro h
    exact ⟨List.mem_of_find?_eq_some h, by simpa using List.find?_some h⟩
  · rintro ⟨ha, hk⟩
    cases h : t.get? k with
    | none =>
        have := List.find?_eq_none.1 h a ha
        simp [hk] at this
    | some b =>
        have hb : b ∈ t := List.mem_of_find?_eq_some h
        have hbk : rowKey b = k := by simpa using List.find?_some h
        rw [eq_of_key hb ha (hbk.trans hk.symm)]

theorem get?_of_mem {t : Table α} {a : α} (h : a ∈ t) : t.get? (rowKey a) = some a :=
  get?_eq_some.2 ⟨h, rfl⟩

theorem mem_of_get? {t : Table α} {k : κ} {a : α} (h : t.get? k = some a) : a ∈ t :=
  (get?_eq_some.1 h).1

theorem key_of_get? {t : Table α} {k : κ} {a : α} (h : t.get? k = some a) : rowKey a = k :=
  (get?_eq_some.1 h).2

theorem get?_eq_none {t : Table α} {k : κ} : t.get? k = none ↔ ∀ a ∈ t, rowKey a ≠ k := by
  simp [get?, mem_def]

@[simp] theorem get?_empty (k : κ) : (empty : Table α).get? k = none := rfl

theorem get?_update (t : Table α) (f : α → α) (hf) (k : κ) :
    (t.update f hf).get? k = (t.get? k).map f := by
  simp only [get?, update, List.find?_map]
  congr 2
  funext a
  simp [Function.comp, rowKey, hf]

theorem get?_updateWhere (t : Table α) (p : α → Bool) (f : α → α) (hf) (k : κ) :
    (t.updateWhere p f hf).get? k = (t.get? k).map fun a => if p a then f a else a :=
  get?_update _ _ _ _

theorem get?_insert? {t t' : Table α} {a : α} (h : t.insert? a = some t') (k : κ) :
    t'.get? k = if rowKey a = k then some a else t.get? k := by
  have hrows := (insert?_eq_some.1 h).2
  split
  next hk => exact get?_eq_some.2 ⟨new_mem_insert? h, hk⟩
  next hk =>
    rw [get?, hrows, List.find?_append, get?]
    simp [hk]

/-- A new row's key is new. -/
theorem get?_of_insert? {t t' : Table α} {a : α} (h : t.insert? a = some t') :
    t.get? (rowKey a) = none := by
  rw [get?_eq_none]
  intro b hb hk
  have := (insert?_eq_some.1 h).1 b hb
  rw [rowClash_of_key hk] at this
  cases this

/-! ## Looking up by scope and key -/

variable [DecidableEq σ]

/-- The row with a primary key, where it belongs to the scope. -/
def getIn (t : Table α) (s : σ) (k : κ) : Option α :=
  (t.get? k).filter fun a => rowScope a = s

/-- Rewrite the row with a primary key, where it belongs to the scope. -/
def updateIn (t : Table α) (s : σ) (k : κ) (f : α → α)
    (hf : ∀ a, Entity.ident (f a) = Entity.ident a := by
      intro _; first | exact Eq.trans rfl rfl | (split <;> rfl)) : Table α :=
  t.updateWhere (fun a => rowScope a = s && rowKey a = k) f hf

theorem map_updateIn_same {β : Type} (t : Table α) (s : σ) (k : κ) (f : α → α) (hf) {g : α → β}
    (hg : ∀ a, g (f a) = g a) : (t.updateIn s k f hf).rows.map g = t.rows.map g :=
  t.map_updateWhere_same _ f hf hg

theorem getIn_eq_some {t : Table α} {s : σ} {k : κ} {a : α} :
    t.getIn s k = some a ↔ a ∈ t ∧ rowScope a = s ∧ rowKey a = k := by
  rw [getIn, Option.filter_eq_some_iff, get?_eq_some]
  simp only [decide_eq_true_eq]
  tauto

theorem getIn_of_mem {t : Table α} {a : α} (h : a ∈ t) :
    t.getIn (rowScope a) (rowKey a) = some a := getIn_eq_some.2 ⟨h, rfl, rfl⟩

theorem get?_of_getIn {t : Table α} {s : σ} {k : κ} {a : α} (h : t.getIn s k = some a) :
    t.get? k = some a :=
  get?_eq_some.2 ⟨(getIn_eq_some.1 h).1, (getIn_eq_some.1 h).2.2⟩

@[simp] theorem getIn_empty (s : σ) (k : κ) : (empty : Table α).getIn s k = none := rfl

theorem getIn_insert? {t t' : Table α} {a : α} (h : t.insert? a = some t') (s : σ) (k : κ) :
    t'.getIn s k = if rowScope a = s ∧ rowKey a = k then some a else t.getIn s k := by
  simp only [getIn, get?_insert? h]
  by_cases hk : rowKey a = k
  · subst hk
    by_cases hs : rowScope a = s
    · simp [hs]
    · simp [hs, get?_of_insert? h]
  · simp [hk]

/-- A new row's scope and key are new. -/
theorem getIn_of_insert? {t t' : Table α} {a : α} (h : t.insert? a = some t') (s : σ) :
    t.getIn s (rowKey a) = none := by
  simp [getIn, get?_of_insert? h]

theorem getIn_updateWhere (t : Table α) (p : α → Bool) (f : α → α) (hf) (s : σ) (k : κ) :
    (t.updateWhere p f hf).getIn s k = (t.getIn s k).map fun a => if p a then f a else a := by
  simp only [getIn, get?_updateWhere]
  cases t.get? k with
  | none => rfl
  | some a =>
      have hs : rowScope (if p a then f a else a) = rowScope a := by
        split
        · rw [rowScope, hf]
        · rfl
      by_cases hsa : rowScope a = s <;> simp [Option.filter, hs, hsa]

theorem getIn_updateIn (t : Table α) (s s' : σ) (k k' : κ) (f : α → α) (hf) :
    (t.updateIn s k f hf).getIn s' k' =
      if s = s' ∧ k = k' then (t.getIn s k).map f else t.getIn s' k' := by
  rw [updateIn, getIn_updateWhere]
  cases h : t.getIn s' k' with
  | none =>
      split
      next e => simp [e.1, e.2, h]
      next => rfl
  | some a =>
      obtain ⟨-, hs, hk⟩ := getIn_eq_some.1 h
      by_cases e : s = s' ∧ k = k'
      · rw [if_pos e, e.1, e.2, h, Option.map_some, Option.map_some, if_pos (by simp [hs, hk])]
      · have : ¬ (s' = s ∧ k' = k) := fun c => e ⟨c.1.symm, c.2.symm⟩
        rw [if_neg e, Option.map_some, if_neg (by simpa [hs, hk] using this)]

theorem getIn_updateIn_of {t : Table α} {s : σ} {k : κ} {a : α} (h : t.getIn s k = some a)
    (f : α → α) (hf) : (t.updateIn s k f hf).getIn s k = some (f a) := by
  rw [getIn_updateIn, if_pos ⟨rfl, rfl⟩, h, Option.map_some]

/-! ## The rows of a scope -/

/-- The rows that belong to the scope. -/
def only (t : Table α) (s : σ) : Table α where
  rows := t.rows.filter fun a => rowScope a = s
  distinct := t.distinct.filter _

omit [DecidableEq κ] in
/-- A row of another scope is added. -/
theorem only_insert? {t t' : Table α} {a : α} (h : t.insert? a = some t') {s : σ}
    (other : rowScope a ≠ s) : t'.only s = t.only s := by
  simp only [only, (insert?_eq_some.1 h).2, List.filter_append, mk.injEq]
  simp [other]

omit [DecidableEq κ] in
/-- Rows of other scopes are rewritten. -/
theorem only_updateWhere {t : Table α} {p : α → Bool} {f : α → α} {hf} {s : σ}
    (other : ∀ a, p a = true → rowScope a ≠ s) : (t.updateWhere p f hf).only s = t.only s := by
  have still : ∀ a ∈ t.rows.filter (fun a => rowScope a = s),
      (if p a then f a else a) = a := by
    intro a ha
    have scope : rowScope a = s := of_decide_eq_true (List.mem_filter.1 ha).2
    exact if_neg fun chosen => other a chosen scope
  have scopes : (fun a => decide (rowScope a = s)) ∘ (fun a => if p a then f a else a) =
      fun a => decide (rowScope a = s) := by
    funext a
    simp only [Function.comp_apply]
    split
    · rw [rowScope, hf]
    · rfl
  simp only [only, updateWhere, update, List.filter_map, mk.injEq, scopes]
  exact (List.map_congr_left still).trans (List.map_id' _)

theorem only_updateIn {t : Table α} {s s' : σ} {k : κ} {f : α → α} {hf} (other : s' ≠ s) :
    (t.updateIn s' k f hf).only s = t.only s := by
  refine only_updateWhere fun a chosen scope => other ?_
  rw [Bool.and_eq_true, decide_eq_true_eq, decide_eq_true_eq] at chosen
  exact chosen.1.symm.trans scope

variable {β : Type}

/-- Some columns of a table, as a function of scope and key. -/
def view (t : Table α) (g : α → β) (i : σ × κ) : Option β := (t.getIn i.1 i.2).map g

theorem view_eq_some {t : Table α} {g : α → β} {i : σ × κ} {b : β} :
    t.view g i = some b ↔ ∃ a ∈ t, (rowScope a, rowKey a) = i ∧ g a = b := by
  obtain ⟨s, k⟩ := i
  simp only [view, Option.map_eq_some_iff, getIn_eq_some, Prod.mk.injEq]
  constructor
  · rintro ⟨a, ⟨ha, hi⟩, hb⟩; exact ⟨a, ha, hi, hb⟩
  · rintro ⟨a, ha, hi, hb⟩; exact ⟨a, ⟨ha, hi⟩, hb⟩

theorem view_of_mem {t : Table α} {a : α} (h : a ∈ t) (g : α → β) :
    t.view g (rowScope a, rowKey a) = some (g a) := view_eq_some.2 ⟨a, h, rfl, rfl⟩

theorem view_of_getIn {t : Table α} {s : σ} {k : κ} {a : α} (h : t.getIn s k = some a)
    (g : α → β) : t.view g (s, k) = some (g a) := by simp [view, h]

@[simp] theorem view_empty (g : α → β) : (empty : Table α).view g = fun _ => none := rfl

theorem view_insert? {t t' : Table α} {a : α} (h : t.insert? a = some t') (g : α → β) :
    t'.view g = Function.update (t.view g) (rowScope a, rowKey a) (some (g a)) := by
  funext i
  obtain ⟨s, k⟩ := i
  simp only [view, getIn_insert? h, Function.update_apply, Prod.mk.injEq]
  by_cases e : rowScope a = s ∧ rowKey a = k
  · rw [if_pos e, if_pos ⟨e.1.symm, e.2.symm⟩, Option.map_some]
  · rw [if_neg e, if_neg fun c => e ⟨c.1.symm, c.2.symm⟩]

theorem view_of_insert? {t t' : Table α} {a : α} (h : t.insert? a = some t') (g : α → β)
    (s : σ) : t.view g (s, rowKey a) = none := by
  simp [view, getIn_of_insert? h]

/-- A view of an update that acts on the viewed columns. -/
theorem view_updateWhere {t : Table α} {p : α → Bool} {f : α → α} {hf} {g : α → β}
    {φ : σ × κ → β → β}
    (hφ : ∀ a, g (if p a then f a else a) = φ (rowScope a, rowKey a) (g a)) :
    (t.updateWhere p f hf).view g = fun i => (t.view g i).map (φ i) := by
  funext i
  obtain ⟨s, k⟩ := i
  simp only [view, getIn_updateWhere]
  cases h : t.getIn s k with
  | none => rfl
  | some a =>
      obtain ⟨-, rfl, rfl⟩ := getIn_eq_some.1 h
      simp only [Option.map_some, hφ]

/-- A view of columns an update leaves alone. -/
theorem view_updateWhere_same (t : Table α) (p : α → Bool) (f : α → α) (hf) {g : α → β}
    (hg : ∀ a, g (f a) = g a) : (t.updateWhere p f hf).view g = t.view g := by
  rw [view_updateWhere (φ := fun _ b => b)]
  · simp
  · intro a
    split
    · exact hg a
    · rfl

theorem view_updateIn_same (t : Table α) (s : σ) (k : κ) (f : α → α) (hf) {g : α → β}
    (hg : ∀ a, g (f a) = g a) : (t.updateIn s k f hf).view g = t.view g :=
  view_updateWhere_same _ _ _ _ hg

/-- A view of columns an update of one row rewrites. -/
theorem view_updateIn_of {t : Table α} {s : σ} {k : κ} {a : α} (h : t.getIn s k = some a)
    (f : α → α) (hf) (g : α → β) :
    (t.updateIn s k f hf).view g = Function.update (t.view g) (s, k) (some (g (f a))) := by
  funext i
  obtain ⟨s', k'⟩ := i
  simp only [view, getIn_updateIn, Function.update_apply, Prod.mk.injEq]
  by_cases e : s = s' ∧ k = k'
  · rw [if_pos e, if_pos ⟨e.1.symm, e.2.symm⟩, h, Option.map_some, Option.map_some]
  · rw [if_neg e, if_neg fun c => e ⟨c.1.symm, c.2.symm⟩]

/-- The same, where the row is known by its view only. -/
theorem view_updateIn {t : Table α} {s : σ} {k : κ} {b c : β} {f : α → α} {hf} {g : α → β}
    (h : t.view g (s, k) = some b)
    (hb : ∀ a, rowScope a = s → rowKey a = k → g a = b → g (f a) = c) :
    (t.updateIn s k f hf).view g = Function.update (t.view g) (s, k) (some c) := by
  obtain ⟨a, ha, hi, hg⟩ := view_eq_some.1 h
  cases hi
  rw [view_updateIn_of (getIn_of_mem ha), hb a rfl rfl hg]

end Table

end Lib
