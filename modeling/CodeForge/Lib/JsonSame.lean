import CodeForge.Lib.JsonRoundTrip

/-!
# Values that differ in the order of their members

Two objects are equal for the interpreter if they have the same members, in
whatever order.  `Json.sorted` is the same for such values and for no others, and
so is their text (`dumps_eq_iff`).  Equal objects have equal members
(`get?_same`), and stay equal where both lose some members, or both get one
(`sorted_filter`, `sorted_append`).
-/

namespace Lib.Json

variable {numerals : Numerals} {comma colon : String} {j k : Json}
  {ms ns : List (String × Json)}

/-- Texts tell values apart. -/
theorem dumps_eq_iff (sep : Separators comma colon) (hj : j.Valid numerals)
    (hk : k.Valid numerals) : j.dumps comma colon = k.dumps comma colon ↔ j.sorted = k.sorted := by
  constructor
  · intro same
    have read := loads_dumps sep hj
    rw [same, loads_dumps sep hk] at read
    exact (Loaded.value.inj read).symm
  · intro same
    rw [← dumps_sorted, same, dumps_sorted]

/-- Canonical texts tell values apart. -/
theorem canonical_eq_iff (hj : j.Valid numerals) (hk : k.Valid numerals) :
    j.canonical = k.canonical ↔ j.sorted = k.sorted := dumps_eq_iff .compact hj hk

theorem valid_obj_nodup (h : (Json.obj ms).Valid numerals) : (ms.map Prod.fst).Nodup := h.1

theorem valid_member (h : (Json.obj ms).Valid numerals) {key : String}
    (found : (Json.obj ms).get? key = some j) : j.Valid numerals := by
  obtain ⟨m, hm, rfl⟩ := Option.map_eq_some_iff.1 found
  exact validMembers_iff.1 h.2 m (List.mem_of_find?_eq_some hm)

/-- The member of a valid object, or a text. -/
theorem valid_getD (h : (Json.obj ms).Valid numerals) (key text : String) :
    (((Json.obj ms).get? key).getD (.str text)).Valid numerals := by
  cases found : (Json.obj ms).get? key with
  | none => trivial
  | some j => exact valid_member h found

theorem sorted_eq_str {s : String} : j.sorted = .str s ↔ j = .str s := by
  cases j <;> simp [sorted]

theorem sorted_eq_null : j.sorted = .null ↔ j = .null := by
  cases j <;> simp [sorted]

/-- Only objects are equal to objects. -/
theorem sorted_eq_obj {rest : List (String × Json)} (h : j.sorted = .obj rest) :
    ∃ ms, j = .obj ms := by
  cases j with
  | obj ms => exact ⟨ms, rfl⟩
  | null | bool _ | num _ | str _ | arr _ => cases h

/-- Equal values are true or false together. -/
theorem truthy_sorted (j : Json) : j.sorted.truthy = j.truthy := by
  cases j with
  | null | bool _ | num _ | str _ => rfl
  | arr items => simp [sorted, truthy, sortedItems_eq]
  | obj ms =>
      have lengths : (sortByKey (sortedMembers ms)).length = ms.length := by
        rw [(sortByKey_perm _).length_eq, sortedMembers_eq, List.length_map]
      rw [sorted, truthy, truthy, Bool.eq_iff_iff]
      simp only [Bool.not_eq_true', List.isEmpty_eq_false_iff, ← List.length_pos_iff, lengths]

/-! ## Members -/

/-- A member, sorted inside. -/
def sortedMember (m : String × Json) : String × Json := (m.1, m.2.sorted)

theorem sorted_obj_perm :
    (sortByKey (sortedMembers ms)).Perm (ms.map sortedMember) := by
  rw [← show sortedMembers ms = ms.map sortedMember from sortedMembers_eq ms]
  exact sortByKey_perm _

/-- Objects are equal if they have the same members. -/
theorem sorted_obj_iff (nodup : (ms.map Prod.fst).Nodup) :
    (Json.obj ms).sorted = (Json.obj ns).sorted ↔
      (ms.map sortedMember).Perm (ns.map sortedMember) := by
  simp only [sorted, obj.injEq]
  constructor
  · intro same
    exact sorted_obj_perm.symm.trans (same ▸ sorted_obj_perm)
  · intro perm
    have order : ∀ l : List (String × Json), (sortByKey l).Pairwise fun a b => a.1 ≤ b.1 := by
      intro l
      have total : Std.Total fun a b : String × Json => a.1 ≤ b.1 := ⟨fun a b => le_total a.1 b.1⟩
      have trans : IsTrans (String × Json) fun a b => a.1 ≤ b.1 := ⟨fun a b c => le_trans⟩
      exact List.pairwise_insertionSort _ l
    have all : (sortByKey (sortedMembers ms)).Perm (sortByKey (sortedMembers ns)) :=
      sorted_obj_perm.trans (perm.trans sorted_obj_perm.symm)
    have keys : ((sortByKey (sortedMembers ms)).map Prod.fst).Nodup := by
      rw [(sorted_obj_perm.map Prod.fst).nodup_iff, List.map_map]
      exact nodup
    refine List.Perm.eq_of_pairwise ?_ (order _) (order _) all
    intro a b ha hb le ge
    exact List.inj_on_of_nodup_map keys ha (all.mem_iff.2 hb) (le_antisymm le ge)

/-- Equal objects have equal members. -/
theorem get?_same (hms : (ms.map Prod.fst).Nodup) (hns : (ns.map Prod.fst).Nodup)
    (same : (Json.obj ms).sorted = (Json.obj ns).sorted) (key : String) :
    ((Json.obj ms).get? key).map sorted = ((Json.obj ns).get? key).map sorted := by
  rw [← get?_sorted hms, same, get?_sorted hns]

/-- Without some members, equal objects are equal. -/
theorem sorted_filter (hms : (ms.map Prod.fst).Nodup) (p : String → Bool)
    (same : (Json.obj ms).sorted = (Json.obj ns).sorted) :
    (Json.obj (ms.filter fun m => p m.1)).sorted =
      (Json.obj (ns.filter fun m => p m.1)).sorted := by
  have part : ∀ l : List (String × Json), (l.filter fun m => p m.1).map sortedMember =
      (l.map sortedMember).filter fun m => p m.1 := by
    intro l
    rw [List.filter_map]
    rfl
  rw [sorted_obj_iff ((List.filter_sublist.map _).nodup hms), part, part]
  exact ((sorted_obj_iff hms).1 same).filter _

/-- A new key at the end. -/
theorem nodup_append (hms : (ms.map Prod.fst).Nodup) {key : String}
    (new : key ∉ ms.map Prod.fst) : ((ms ++ [(key, j)]).map Prod.fst).Nodup := by
  rw [List.map_append, List.map_singleton, List.nodup_append]
  refine ⟨hms, List.nodup_singleton _, ?_⟩
  intro a ha b hb
  rw [List.mem_singleton.1 hb]
  rintro rfl
  exact new ha

/-- With one member more, equal objects are equal. -/
theorem sorted_append (hms : (ms.map Prod.fst).Nodup) {key : String}
    (new : key ∉ ms.map Prod.fst) (same : (Json.obj ms).sorted = (Json.obj ns).sorted)
    (value : j.sorted = k.sorted) :
    (Json.obj (ms ++ [(key, j)])).sorted = (Json.obj (ns ++ [(key, k)])).sorted := by
  rw [sorted_obj_iff (nodup_append hms new), List.map_append, List.map_append]
  refine ((sorted_obj_iff hms).1 same).append ?_
  rw [List.map_singleton, List.map_singleton, sortedMember, sortedMember, value]

end Lib.Json

namespace Lib

/-- A value that was read from bytes is valid. -/
theorem valid_of_loadBytes {numerals : Json.Numerals} {b : List UInt8} {j : Json}
    (h : loadBytes numerals b = .value j) : j.Valid numerals := by
  rw [loadBytes] at h
  cases text : decodeUtf8 b with
  | none =>
      rw [text] at h
      cases h
  | some s =>
      rw [text] at h
      exact Json.valid_of_loads h

end Lib
