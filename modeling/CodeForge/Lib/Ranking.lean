import Mathlib.Data.List.Induction
import Mathlib.Data.List.Sort

/-!
# Ranks

The rank of an element of a list, by keys of a linear order, is the number of
elements whose keys are not greater.  Where the keys are distinct the ranks are
one, two, three, up to the length (`ranks_perm`), they order the elements as the
keys do (`rank_lt_iff`), and the rank of an element is its place in the sorted
list (`place_eq_rank`).
-/

namespace Lib

variable {E K : Type} [LinearOrder K] (key : E → K)

/-- How many elements have keys that are not greater. -/
def rank (l : List E) (x : E) : Nat := l.countP fun y => decide (key y ≤ key x)

/-- The place of an element in the sorted list, counted from one. -/
def place [DecidableEq E] (l : List E) (x : E) : Nat :=
  (l.insertionSort fun y z => key y ≤ key z).idxOf x + 1

variable {key} {l l' : List E} {x y : E}

theorem rank_perm (h : l.Perm l') (x : E) : rank key l x = rank key l' x := h.countP_eq _

/-- In a list that is sorted strictly, ranks count from one. -/
theorem ranks_of_sorted (sorted : l.Pairwise fun x y => key x < key y) :
    l.map (rank key l) = List.range' 1 l.length := by
  induction l using List.reverseRecOn with
  | nil => rfl
  | append_singleton l x ih =>
      obtain ⟨front, -, below⟩ := List.pairwise_append.1 sorted
      have below : ∀ y ∈ l, key y < key x := fun y hy => below y hy x (List.mem_singleton_self x)
      have old : l.map (rank key (l ++ [x])) = l.map (rank key l) := by
        refine List.map_congr_left fun y hy => ?_
        simp [rank, below y hy]
      have last : rank key (l ++ [x]) x = l.length + 1 := by
        have all : l.countP (fun y => decide (key y ≤ key x)) = l.length :=
          List.countP_eq_length.2 fun y hy => decide_eq_true (below y hy).le
        simp [rank, all]
      rw [List.map_append, old, ih front, List.map_singleton, last, List.length_append,
        List.length_singleton, List.range'_concat]
      simp [Nat.add_comm]

/-- Sorting by distinct keys sorts strictly. -/
theorem sorted_insertionSort (distinct : (l.map key).Nodup) :
    (l.insertionSort fun y z => key y ≤ key z).Pairwise fun x y => key x < key y := by
  have : Std.Total fun y z : E => key y ≤ key z := ⟨fun y z => le_total _ _⟩
  have : IsTrans E fun y z => key y ≤ key z := ⟨fun _ _ _ => le_trans⟩
  have ordered := List.pairwise_insertionSort (fun y z => key y ≤ key z) l
  have perm := (List.perm_insertionSort (fun y z => key y ≤ key z) l).map key
  have apart := List.pairwise_map.1 (perm.nodup_iff.2 distinct)
  exact (ordered.and apart).imp fun both => lt_of_le_of_ne both.1 both.2

/-- **Ranks count from one**, in some order. -/
theorem ranks_perm (distinct : (l.map key).Nodup) :
    (l.map (rank key l)).Perm (List.range' 1 l.length) := by
  have perm := List.perm_insertionSort (fun y z => key y ≤ key z) l
  have sorted := ranks_of_sorted (sorted_insertionSort distinct)
  rw [perm.length_eq, List.map_congr_left fun x _ => rank_perm perm x] at sorted
  exact sorted ▸ (perm.map _).symm

theorem rank_mono (le : key x ≤ key y) : rank key l x ≤ rank key l y := by
  refine List.countP_mono_left fun z _ hz => ?_
  simp only [decide_eq_true_eq] at hz ⊢
  exact hz.trans le

/-- Ranks order the elements as the keys do. -/
theorem rank_lt_iff (distinct : (l.map key).Nodup) (hx : x ∈ l) (hy : y ∈ l) :
    rank key l x < rank key l y ↔ key x < key y := by
  have once : (l.map (rank key l)).Nodup :=
    (ranks_perm distinct).nodup_iff.2 List.nodup_range'
  constructor
  · intro lt
    exact lt_of_not_ge fun ge => absurd (rank_mono (l := l) ge) (Nat.not_le.2 lt)
  · intro lt
    refine lt_of_le_of_ne (rank_mono lt.le) fun same => ?_
    exact lt.ne (congrArg key (List.inj_on_of_nodup_map once hx hy same))

/-- **The place of an element** in the sorted list is its rank. -/
theorem place_eq_rank [DecidableEq E] (distinct : (l.map key).Nodup) (hx : x ∈ l) :
    place key l x = rank key l x := by
  have perm := List.perm_insertionSort (fun y z => key y ≤ key z) l
  have counted := ranks_of_sorted (sorted_insertionSort distinct)
  have inside := List.idxOf_lt_length_of_mem (perm.mem_iff.2 hx)
  rw [List.map_congr_left fun y _ => rank_perm perm y] at counted
  have here := congrArg (fun m : List Nat => m[place key l x - 1]?) counted
  rw [place, Nat.add_sub_cancel, List.getElem?_map, List.getElem?_eq_getElem inside,
    List.getElem_idxOf inside, Option.map_some, List.getElem?_range' inside, Nat.one_mul,
    Nat.add_comm] at here
  exact (Option.some.inj here).symm

end Lib
