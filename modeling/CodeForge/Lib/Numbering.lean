import Mathlib.Data.List.Range
import Mathlib.Logic.Function.Basic

/-!
# Numbered logs

The entries of an append-only log fall into groups, and each group counts its
entries from one.  Somewhere else the next number of every group is kept.  A log
is `Numbered` when the two agree: in the order of the log the numbers of a group
are one, two, three, up to the one before the next.

One log can carry several numberings at once, by different groups.  Where two
entries share their groups in both, the numberings order them alike
(`Numbered.lt_iff_lt`).
-/

namespace Lib

variable {E K L : Type} [DecidableEq K] [DecidableEq L]

/-- The groups count their entries from one, and `next` is the next number. -/
structure Numbered (group : E → K) (number : E → Nat) (entries : List E) (next : K → Option Nat) :
    Prop where
  known : ∀ e ∈ entries, ∃ n, next (group e) = some n
  dense : ∀ k n, next k = some n →
    ∃ m, n = m + 1 ∧ (entries.filter fun e => group e = k).map number = List.range' 1 m

namespace Numbered

variable {group : E → K} {number : E → Nat} {entries : List E} {next : K → Option Nat}

theorem empty : Numbered group number [] fun _ => none where
  known := by simp
  dense := by simp

/-- A group that is not known yet has no entries. -/
theorem filter_of_fresh (h : Numbered group number entries next) {k : K} (fresh : next k = none) :
    (entries.filter fun e => group e = k) = [] := by
  rw [List.filter_eq_nil_iff]
  intro e he hk
  obtain ⟨n, hn⟩ := h.known e he
  rw [of_decide_eq_true hk, fresh] at hn
  cases hn

/-- The entries of a group, known or not, count from one. -/
theorem range (h : Numbered group number entries next) (k : K) :
    ∃ n, (entries.filter fun e => group e = k).map number = List.range' 1 n := by
  cases hk : next k with
  | none => exact ⟨0, by rw [h.filter_of_fresh hk]; rfl⟩
  | some n =>
      obtain ⟨m, -, counted⟩ := h.dense k n hk
      exact ⟨m, counted⟩

/-- A new group starts at one. -/
theorem addGroup (h : Numbered group number entries next) {k : K} (fresh : next k = none) :
    Numbered group number entries (Function.update next k (some 1)) where
  known e he := by
    obtain ⟨n, hn⟩ := h.known e he
    have hne : group e ≠ k := by
      rintro rfl
      rw [fresh] at hn
      cases hn
    exact ⟨n, by rw [Function.update_of_ne hne, hn]⟩
  dense k' n hn := by
    by_cases hk : k' = k
    · subst hk
      rw [Function.update_self] at hn
      exact ⟨0, (Option.some.inj hn).symm, by rw [h.filter_of_fresh fresh]; rfl⟩
    · rw [Function.update_of_ne hk] at hn
      exact h.dense k' n hn

/-- An entry with the next number of its group is added. -/
theorem add (h : Numbered group number entries next) {e : E}
    (hnext : next (group e) = some (number e)) :
    Numbered group number (entries ++ [e])
      (Function.update next (group e) (some (number e + 1))) where
  known e' he' := by
    by_cases hk : group e' = group e
    · exact ⟨number e + 1, by rw [hk, Function.update_self]⟩
    · rcases List.mem_append.1 he' with he' | he'
      · obtain ⟨n, hn⟩ := h.known e' he'
        exact ⟨n, by rw [Function.update_of_ne hk, hn]⟩
      · exact absurd (congrArg group (List.mem_singleton.1 he')) hk
  dense k n hn := by
    by_cases hk : k = group e
    · subst hk
      rw [Function.update_self] at hn
      obtain ⟨m, hm, hlist⟩ := h.dense _ _ hnext
      refine ⟨m + 1, by rw [← Option.some.inj hn, hm], ?_⟩
      rw [List.filter_append, List.map_append, hlist, List.range'_concat]
      simp [hm, Nat.add_comm]
    · rw [Function.update_of_ne hk] at hn
      obtain ⟨m, hm, hlist⟩ := h.dense k n hn
      refine ⟨m, hm, ?_⟩
      rw [List.filter_append, List.map_append, hlist]
      simp [Ne.symm hk]

/-- The number of an entry is below the next of its group. -/
theorem lt_next (h : Numbered group number entries next) {e : E} (he : e ∈ entries) {n : Nat}
    (hn : next (group e) = some n) : 0 < number e ∧ number e < n := by
  obtain ⟨m, rfl, hlist⟩ := h.dense _ n hn
  have hmem : number e ∈ (entries.filter fun e' => group e' = group e).map number :=
    List.mem_map_of_mem (List.mem_filter.2 ⟨he, decide_eq_true rfl⟩)
  rw [hlist, List.mem_range'_1] at hmem
  omega

/-- Every number below the next is taken. -/
theorem exists_of_lt (h : Numbered group number entries next) {k : K} {n i : Nat}
    (hn : next k = some n) (hpos : 0 < i) (hi : i < n) :
    ∃ e ∈ entries, group e = k ∧ number e = i := by
  obtain ⟨m, rfl, hlist⟩ := h.dense k n hn
  have hmem : i ∈ (entries.filter fun e => group e = k).map number := by
    rw [hlist, List.mem_range'_1]
    omega
  obtain ⟨e, he, hnum⟩ := List.mem_map.1 hmem
  obtain ⟨he, hg⟩ := List.mem_filter.1 he
  exact ⟨e, he, of_decide_eq_true hg, hnum⟩

/-- Later entries of a group have greater numbers. -/
theorem increasing (h : Numbered group number entries next) :
    entries.Pairwise fun e f => group e = group f → number e < number f := by
  rw [List.pairwise_iff_getElem]
  intro i j hi hj hij hg
  obtain ⟨n, hn⟩ := h.known _ (List.getElem_mem hi)
  obtain ⟨m, -, hlist⟩ := h.dense _ n hn
  have hpair : ((entries.filter fun e => group e = group entries[i]).map number).Pairwise
      (· < ·) := by
    rw [hlist]
    exact List.pairwise_lt_range'
  rw [List.pairwise_map, List.pairwise_filter, List.pairwise_iff_getElem] at hpair
  exact hpair i j hi hj hij (decide_eq_true rfl) (decide_eq_true hg.symm)

/-- The entry of a group with a number is one. -/
theorem eq_of_number (h : Numbered group number entries next) {e f : E} (he : e ∈ entries)
    (hf : f ∈ entries) (hg : group e = group f) (hn : number e = number f) : e = f := by
  obtain ⟨i, hi, rfl⟩ := List.getElem_of_mem he
  obtain ⟨j, hj, rfl⟩ := List.getElem_of_mem hf
  have hinc := List.pairwise_iff_getElem.1 h.increasing
  rcases Nat.lt_trichotomy i j with hij | rfl | hij
  · have := hinc i j hi hj hij hg
    omega
  · rfl
  · have := hinc j i hj hi hij hg.symm
    omega

/-- Two numberings of one log agree on entries that share both groups. -/
theorem lt_iff_lt (h : Numbered group number entries next) {group' : E → L} {number' : E → Nat}
    {next' : L → Option Nat} (h' : Numbered group' number' entries next') {e f : E}
    (he : e ∈ entries) (hf : f ∈ entries) (hg : group e = group f) (hg' : group' e = group' f) :
    number e < number f ↔ number' e < number' f := by
  obtain ⟨i, hi, rfl⟩ := List.getElem_of_mem he
  obtain ⟨j, hj, rfl⟩ := List.getElem_of_mem hf
  have hinc := List.pairwise_iff_getElem.1 h.increasing
  have hinc' := List.pairwise_iff_getElem.1 h'.increasing
  rcases Nat.lt_trichotomy i j with hij | rfl | hij
  · exact iff_of_true (hinc i j hi hj hij hg) (hinc' i j hi hj hij hg')
  · exact iff_of_false (Nat.lt_irrefl _) (Nat.lt_irrefl _)
  · have := hinc j i hj hi hij hg.symm
    have := hinc' j i hj hi hij hg'.symm
    omega

end Numbered

end Lib
