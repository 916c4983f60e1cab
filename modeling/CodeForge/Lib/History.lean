import Mathlib.Data.List.Chain

/-!
# Histories linked by parents

A history grows at its end.  Each entry has an identifier and names the one before it, its parent,
and a pointer outside the list names the last one.  `Linked` says that the list, the parents and
the pointer agree, so that the list is what one finds by going from the pointer to parents.
-/

namespace Lib

variable {α κ : Type} {id : α → κ} {parent : α → Option κ} {l : List α} {tip : Option κ}

/-- The list is one chain of parents, from an entry without one to the tip. -/
structure Linked (id : α → κ) (parent : α → Option κ) (l : List α) (tip : Option κ) : Prop where
  root : ∀ a, l.head? = some a → parent a = none
  next : l.IsChain fun a b => parent b = some (id a)
  last : tip = l.getLast?.map id

theorem Linked.nil : Linked id parent [] none where
  root := by rintro a ⟨⟩
  next := .nil
  last := rfl

/-- A history grows by an entry whose parent is the tip. -/
theorem Linked.append (h : Linked id parent l tip) {a : α} (onTip : parent a = tip) :
    Linked id parent (l ++ [a]) (some (id a)) where
  root b hb := by
    cases l with
    | nil =>
        cases hb
        exact onTip.trans h.last
    | cons c l =>
        cases hb
        exact h.root b rfl
  next := by
    refine h.next.append (.singleton a) ?_
    intro x hx y hy
    cases hy
    rw [onTip, h.last, Option.mem_def.1 hx]
    rfl
  last := by simp

/-! ## Entries in order -/

/-- Entries whose ranks grow where their labels change keep entries of one label together. -/
theorem contiguous_of_pairwise {β : Type} {label : α → β} {rank : α → Nat}
    (order : l.Pairwise fun a b => label a = label b ∨ rank a < rank b)
    (ranked : ∀ a ∈ l, ∀ b ∈ l, label a = label b → rank a = rank b) {a b c : α}
    (between : [a, b, c].Sublist l) (same : label a = label c) : label b = label a := by
  have ordered := order.sublist between
  simp only [List.pairwise_cons, List.mem_cons, List.not_mem_nil, or_false, forall_eq_or_imp,
    forall_eq] at ordered
  obtain ⟨⟨first, -⟩, second, -⟩ := ordered
  have mem : ∀ x ∈ [a, b, c], x ∈ l := fun x hx => between.subset hx
  rcases first with eq | lt
  · exact eq.symm
  · rcases second with eq | lt'
    · exact eq.trans same.symm
    · have := ranked a (mem a (by simp)) c (mem c (by simp)) same
      omega

end Lib
