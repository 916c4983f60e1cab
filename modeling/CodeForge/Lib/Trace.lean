import Mathlib.Data.List.Chain
import Mathlib.Logic.Function.Basic

/-!
# Logs that trace machines

Many machines of one kind announce their states in one append-only log: an entry
belongs to a machine and denotes the state it goes to.  The present state of each
machine is kept somewhere else, with the number of steps it has made.  A log is
`Traced` when the two agree: what the entries of a machine denote, in their order,
is a path along the edges, from the first state to the present one.

A state without edges can only be the last of a path.  So a machine announces at
most one such state, and is in it for good (`Traced.final`).

`follow` is an observer of the log who is interested in one machine at a time, the
one that started last.
-/

namespace Lib

variable {E K S : Type} [DecidableEq K]

/-- The entries of each machine denote a path to its state. -/
structure Traced (group : E → K) (denotes : E → Option S) (edge : S → S → Prop) (first : S)
    (entries : List E) (state : K → Option (S × Nat)) : Prop where
  known : ∀ e ∈ entries, ∃ x, state (group e) = some x
  path : ∀ k s n, state k = some (s, n) → ∃ p : List S,
    (entries.filter fun e => group e = k).map denotes = p.map some ∧ p.head? = some first ∧
      p.IsChain edge ∧ p.getLast? = some s ∧ p.length = n + 1

namespace Traced

variable {group : E → K} {denotes : E → Option S} {edge : S → S → Prop} {first : S}
  {entries : List E} {state : K → Option (S × Nat)}

theorem empty : Traced group denotes edge first [] fun _ => none where
  known := by simp
  path := by simp

/-- A machine that is not there yet has no entries. -/
theorem filter_of_fresh (h : Traced group denotes edge first entries state) {k : K}
    (fresh : state k = none) : (entries.filter fun e => group e = k) = [] := by
  rw [List.filter_eq_nil_iff]
  intro e he hk
  obtain ⟨x, hx⟩ := h.known e he
  rw [of_decide_eq_true hk, fresh] at hx
  cases hx

/-- What one more entry does to the others. -/
theorem known_add (h : Traced group denotes edge first entries state) {e : E} (x : S × Nat) :
    ∀ e' ∈ entries ++ [e], ∃ y, Function.update state (group e) (some x) (group e') = some y := by
  intro e' he'
  by_cases hk : group e' = group e
  · exact ⟨x, by rw [hk, Function.update_self]⟩
  · rcases List.mem_append.1 he' with he' | he'
    · obtain ⟨y, hy⟩ := h.known e' he'
      exact ⟨y, by rw [Function.update_of_ne hk, hy]⟩
    · exact absurd (congrArg group (List.mem_singleton.1 he')) hk

/-- A machine starts. -/
theorem start (h : Traced group denotes edge first entries state) {e : E}
    (fresh : state (group e) = none) (he : denotes e = some first) :
    Traced group denotes edge first (entries ++ [e])
      (Function.update state (group e) (some (first, 0))) where
  known := h.known_add _
  path k s n hs := by
    by_cases hk : k = group e
    · subst hk
      rw [Function.update_self] at hs
      cases hs
      refine ⟨[first], ?_, rfl, .singleton _, rfl, rfl⟩
      rw [List.filter_append, h.filter_of_fresh fresh]
      simp [he]
    · rw [Function.update_of_ne hk] at hs
      obtain ⟨p, hp, rest⟩ := h.path k s n hs
      refine ⟨p, ?_, rest⟩
      rw [List.filter_append, List.map_append, hp]
      simp [Ne.symm hk]

/-- A machine makes a step. -/
theorem move (h : Traced group denotes edge first entries state) {e : E} {s t : S} {n : Nat}
    (hs : state (group e) = some (s, n)) (he : denotes e = some t) (step : edge s t) :
    Traced group denotes edge first (entries ++ [e])
      (Function.update state (group e) (some (t, n + 1))) where
  known := h.known_add _
  path k s' n' hs' := by
    by_cases hk : k = group e
    · subst hk
      rw [Function.update_self] at hs'
      cases hs'
      obtain ⟨p, hp, head, chain, last, length⟩ := h.path _ _ _ hs
      have hne : p ≠ [] := by
        rintro rfl
        cases length
      refine ⟨p ++ [t], ?_, ?_, ?_, List.getLast?_concat, by simp [length]⟩
      · rw [List.filter_append, List.map_append, hp]
        simp [he]
      · rw [List.head?_append_of_ne_nil p hne, head]
      · refine chain.append (.singleton _) ?_
        rintro x hx y hy
        rw [last] at hx
        cases hx
        cases hy
        exact step
    · rw [Function.update_of_ne hk] at hs'
      obtain ⟨p, hp, rest⟩ := h.path k s' n' hs'
      refine ⟨p, ?_, rest⟩
      rw [List.filter_append, List.map_append, hp]
      simp [Ne.symm hk]

/-- Every entry denotes a state. -/
theorem denotes_of_mem (h : Traced group denotes edge first entries state) {e : E}
    (he : e ∈ entries) : ∃ s, denotes e = some s := by
  obtain ⟨⟨s, n⟩, hs⟩ := h.known e he
  obtain ⟨p, hp, -⟩ := h.path _ s n hs
  have mem : denotes e ∈ p.map some := by
    rw [← hp]
    exact List.mem_map_of_mem (List.mem_filter.2 ⟨he, decide_eq_true rfl⟩)
  obtain ⟨t, -, ht⟩ := List.mem_map.1 mem
  exact ⟨t, ht.symm⟩

/-- An entry that denotes a state without edges is the last of its machine, and the
machine is in that state. -/
theorem final (h : Traced group denotes edge first entries state) {e : E} (he : e ∈ entries)
    {t : S} (ht : denotes e = some t) (stuck : ∀ u, ¬ edge t u) :
    (entries.filter fun e' => group e' = group e).getLast? = some e ∧
      ∃ n, state (group e) = some (t, n) := by
  obtain ⟨⟨s, n⟩, hs⟩ := h.known e he
  obtain ⟨p, hp, -, chain, last, -⟩ := h.path _ s n hs
  generalize hl : (entries.filter fun e' => group e' = group e) = l at hp ⊢
  have hmem : e ∈ l := by
    rw [← hl, List.mem_filter]
    exact ⟨he, decide_eq_true rfl⟩
  obtain ⟨i, hi, rfl⟩ := List.getElem_of_mem hmem
  have hlen : l.length = p.length := by simpa using congrArg List.length hp
  have hip : i < p.length := hlen ▸ hi
  have hpi : p[i] = t := by
    have hget : (l.map denotes)[i]? = (p.map some)[i]? := by rw [hp]
    rw [List.getElem?_map, List.getElem?_map, List.getElem?_eq_getElem hi,
      List.getElem?_eq_getElem (hlen ▸ hi), Option.map_some, Option.map_some, ht] at hget
    exact (Option.some.inj (Option.some.inj hget)).symm
  -- an edge would lead on from the state
  have hend : i + 1 = l.length := by
    by_contra hne
    have hnext : i + 1 < p.length := by omega
    have step := List.isChain_iff_getElem.1 chain i hnext
    rw [hpi] at step
    exact stuck _ step
  refine ⟨?_, n, ?_⟩
  · rw [List.getLast?_eq_getElem?, ← hend, Nat.add_sub_cancel, List.getElem?_eq_getElem hi]
  · rw [List.getLast?_eq_getElem?, ← hlen, ← hend, Nat.add_sub_cancel,
      List.getElem?_eq_getElem (hlen ▸ hi), hpi] at last
    rw [hs, Option.some.inj last]

end Traced

/-- Take notice of an entry: a new machine starts, or the one that is followed goes on. -/
def follow (group : E → K) (denotes : E → Option S) (starts : E → Bool) (seen : Option (K × S))
    (e : E) : Option (K × S) :=
  match denotes e with
  | none => seen
  | some s =>
      if starts e then some (group e, s)
      else seen.map fun x => if x.1 = group e then (x.1, s) else x

/-- Entries that denote nothing go unnoticed. -/
theorem foldl_follow_filter {group : E → K} {denotes : E → Option S} {starts : E → Bool}
    {p : E → Bool} {entries : List E} (silent : ∀ e ∈ entries, p e = false → denotes e = none)
    (seen : Option (K × S)) :
    (entries.filter p).foldl (follow group denotes starts) seen =
      entries.foldl (follow group denotes starts) seen := by
  induction entries generalizing seen with
  | nil => rfl
  | cons e entries ih =>
      have ih := ih fun e' he' => silent e' (List.mem_cons_of_mem _ he')
      cases hp : p e with
      | false =>
          rw [List.filter_cons_of_neg (by simp [hp]), List.foldl_cons, ih, follow,
            silent e List.mem_cons_self hp]
      | true => rw [List.filter_cons_of_pos hp, List.foldl_cons, List.foldl_cons, ih]

end Lib
