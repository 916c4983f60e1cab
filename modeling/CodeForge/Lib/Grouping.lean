import Mathlib.Data.List.Basic
import Mathlib.Data.List.Nodup

/-!
# Gathering pieces by key

Pieces arrive in any order, each with the key of what it is a piece of.  They are
gathered in a dictionary: the entry of a key is made when the first piece with
it arrives, and every piece is added to its entry.

What is gathered under a key depends on the pieces with this key alone, in their
order (`lookup_gather`).
-/

namespace Lib.Grouping

variable {K V P : Type} [DecidableEq K]

/-- `dictionary.setdefault(key, initial)`, and what is there is changed. -/
def upsert (k : K) (initial : V) (f : V → V) : List (K × V) → List (K × V)
  | [] => [(k, f initial)]
  | (k', v) :: d => if k' = k then (k', f v) :: d else (k', v) :: upsert k initial f d

theorem lookup_upsert (k j : K) (initial : V) (f : V → V) (d : List (K × V)) :
    (upsert k initial f d).lookup j =
      if j = k then some (f ((d.lookup k).getD initial)) else d.lookup j := by
  induction d with
  | nil =>
    by_cases same : j = k
    · subst same
      simp [upsert]
    · simp [upsert, same]
  | cons entry d ih =>
    obtain ⟨k', v⟩ := entry
    by_cases here : k' = k
    · subst here
      by_cases same : j = k'
      · subst same
        simp [upsert]
      · have apart : (j == k') = false := beq_false_of_ne same
        simp [upsert, List.lookup_cons, same, apart]
    · have other : (k == k') = false := beq_false_of_ne fun h => here h.symm
      by_cases same : j = k'
      · subst same
        simp [upsert, here]
      · have apart : (j == k') = false := beq_false_of_ne same
        simp [upsert, List.lookup_cons, here, other, apart, ih]

theorem mem_keys_upsert {k j : K} {initial : V} {f : V → V} {d : List (K × V)} :
    j ∈ (upsert k initial f d).map Prod.fst ↔ j = k ∨ j ∈ d.map Prod.fst := by
  induction d with
  | nil => simp [upsert]
  | cons entry d ih =>
    obtain ⟨k', v⟩ := entry
    by_cases here : k' = k
    · subst here
      simp [upsert]
    · rw [upsert, if_neg here, List.map_cons, List.mem_cons, ih, List.map_cons, List.mem_cons]
      exact or_left_comm

theorem nodup_upsert {k : K} {initial : V} {f : V → V} {d : List (K × V)}
    (h : (d.map Prod.fst).Nodup) : ((upsert k initial f d).map Prod.fst).Nodup := by
  induction d with
  | nil => simp [upsert]
  | cons entry d ih =>
    obtain ⟨k', v⟩ := entry
    obtain ⟨fresh, rest⟩ := List.nodup_cons.1 h
    by_cases here : k' = k
    · subst here
      simpa [upsert] using h
    · rw [upsert, if_neg here, List.map_cons, List.nodup_cons]
      refine ⟨fun hk => ?_, ih rest⟩
      rcases mem_keys_upsert.1 hk with same | old
      · exact here same
      · exact fresh old

/-- Add pieces to what is gathered. -/
def gather (key : P → K) (initial : V) (add : P → V → V) (pieces : List P) (d : List (K × V)) :
    List (K × V) :=
  pieces.foldl (fun d p => upsert (key p) initial (add p) d) d

variable {key : P → K} {initial : V} {add : P → V → V} {pieces : List P} {d : List (K × V)}

theorem gather_cons (p : P) :
    gather key initial add (p :: pieces) d =
      gather key initial add pieces (upsert (key p) initial (add p) d) := rfl

theorem nodup_gather (h : (d.map Prod.fst).Nodup) :
    ((gather key initial add pieces d).map Prod.fst).Nodup := by
  induction pieces generalizing d with
  | nil => exact h
  | cons p pieces ih => exact ih (nodup_upsert h)

theorem mem_keys_gather {k : K} :
    k ∈ (gather key initial add pieces d).map Prod.fst ↔
      k ∈ d.map Prod.fst ∨ ∃ p ∈ pieces, key p = k := by
  induction pieces generalizing d with
  | nil => simp [gather]
  | cons p pieces ih =>
    rw [gather_cons, ih, mem_keys_upsert]
    simp only [List.mem_cons, exists_eq_or_imp]
    constructor
    · rintro ((same | old) | later)
      · exact .inr (.inl same.symm)
      · exact .inl old
      · exact .inr (.inr later)
    · rintro (old | same | later)
      · exact .inl (.inr old)
      · exact .inl (.inl same.symm)
      · exact .inr later

/-- What is gathered under a key depends on the pieces with this key. -/
theorem lookup_gather (k : K) :
    (gather key initial add pieces d).lookup k =
      (pieces.filter fun p => key p = k).foldl
        (fun v p => some (add p (v.getD initial))) (d.lookup k) := by
  induction pieces generalizing d with
  | nil => rfl
  | cons p pieces ih =>
    rw [gather_cons, ih, lookup_upsert]
    by_cases same : key p = k
    · subst same
      simp
    · have other : k ≠ key p := fun h => same h.symm
      simp [same, other]

theorem foldl_some {pieces : List P} (v : V) :
    pieces.foldl (fun v p => some (add p (v.getD initial))) (some v) =
      some (pieces.foldl (fun v p => add p v) v) := by
  induction pieces generalizing v with
  | nil => rfl
  | cons p pieces ih => exact ih (add p v)

/-- From nothing, where there is a piece with the key. -/
theorem lookup_gather_nil {k : K} (sent : ∃ p ∈ pieces, key p = k) :
    (gather key initial add pieces []).lookup k =
      some ((pieces.filter fun p => key p = k).foldl (fun v p => add p v) initial) := by
  rw [lookup_gather]
  cases part : pieces.filter fun p => key p = k with
  | nil =>
    obtain ⟨p, hp, same⟩ := sent
    have mem : p ∈ pieces.filter fun p => key p = k :=
      List.mem_filter.2 ⟨hp, decide_eq_true same⟩
    rw [part] at mem
    cases mem
  | cons p rest => exact foldl_some _

end Lib.Grouping
