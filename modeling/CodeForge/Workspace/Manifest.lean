import Mathlib.Data.List.Dedup
import CodeForge.Lib.Fallible
import CodeForge.Lib.FileTree
import CodeForge.Lib.JsonRoundTrip
import CodeForge.Lib.PurePath

/-!
# Manifests of file trees

A manifest gives the digest of every file of a workspace, by its path.  What
lies in `.forge` at the top is left out, and so is every file that is named like
a manifest.

A name is read from the file system.  Bytes that are no UTF-8 are read as
surrogates, and then a text with the name in it cannot be written.
-/

namespace CodeForge.Files

open Lib

/-! ## Names and paths -/

/-- A name in a directory. -/
inductive Name where
  | text (s : String) (valid : IsComponent s)
  /-- Bytes that are no UTF-8. -/
  | bytes (b : List UInt8)
deriving DecidableEq

/-- `internal_dirname` -/
def forge : Name := .text ".forge" (by decide)

def manifestName : Name := .text ".forge-manifest.json" (by decide)

/-- The text of a name that can be encoded. -/
def Name.text? : Name → Option String
  | .text s _ => some s
  | .bytes _ => none

/-- `as_posix()`, where it can be encoded. -/
def pathText (p : List Name) : Option String :=
  (p.mapM Name.text?).map fun names =>
    String.ofList (['/'].intercalate (names.map String.toList))

theorem Name.text?_inj {m n : Name} {s : String} (hm : m.text? = some s)
    (hn : n.text? = some s) : m = n := by
  cases m with
  | bytes => cases hm
  | text s' _ =>
      cases n with
      | bytes => cases hn
      | text s'' _ =>
          cases hm
          cases hn
          rfl

/-- The texts of names are components of paths. -/
theorem mapM_text_valid {p : List Name} {names : List String}
    (h : p.mapM Name.text? = some names) : ∀ s ∈ names, IsComponent s := by
  intro s hs
  obtain ⟨n, -, text⟩ := (mem_of_mapM h).1 hs
  cases n with
  | bytes => cases text
  | text s' valid =>
      cases text
      exact valid

theorem mapM_text_inj {p q : List Name} {names : List String}
    (hp : p.mapM Name.text? = some names) (hq : q.mapM Name.text? = some names) : p = q := by
  have unique : Relator.LeftUnique fun (n : Name) s => n.text? = some s :=
    fun _ _ _ => Name.text?_inj
  exact List.left_unique_forall₂' unique (mapM_eq_some.1 hp) (mapM_eq_some.1 hq)

/-- The text of a path tells the path. -/
theorem pathText_injective {p q : List Name} {s : String} (hp : pathText p = some s)
    (hq : pathText q = some s) : p = q := by
  obtain ⟨names, hn, rfl⟩ := Option.map_eq_some_iff.1 hp
  obtain ⟨names', hn', same⟩ := Option.map_eq_some_iff.1 hq
  have chars := congrArg PurePath.componentsOf (String.ofList_injective same)
  rw [PurePath.componentsOf_intercalate (mapM_text_valid hn),
    PurePath.componentsOf_intercalate (mapM_text_valid hn')] at chars
  exact mapM_text_inj hn (chars ▸ hn')

/-! ## Manifests -/

/-- What a manifest takes in. -/
def included (p : List Name) : Bool := p.head? ≠ some forge && p.getLast? ≠ some manifestName

/-- `_manifest` -/
def manifest (sha256 : List UInt8 → String) (t : FileTree Name) : List (List Name × String) :=
  (t.files.filter fun f => included f.1).map fun f => (f.1, sha256 f.2)

/-- The paths that are in one of two manifests and have another digest in the other, in some
order. -/
def changedPaths {K : Type} [BEq K] [LawfulBEq K] [DecidableEq K] (le : K → K → Bool)
    (before after : List (K × String)) : List K :=
  (((before ++ after).map Prod.fst).dedup.mergeSort le).filter fun k =>
    before.lookup k ≠ after.lookup k

theorem lookup_eq_some {K V : Type} [BEq K] [LawfulBEq K] {l : List (K × V)}
    (nodup : (l.map Prod.fst).Nodup) {k : K} {v : V} : l.lookup k = some v ↔ (k, v) ∈ l := by
  induction l with
  | nil => simp
  | cons m l ih =>
      obtain ⟨fresh, rest⟩ := List.nodup_cons.1 nodup
      obtain ⟨k', v'⟩ := m
      rw [List.lookup_cons, List.mem_cons]
      by_cases same : k = k'
      · subst same
        simp only [beq_self_eq_true, Option.some.injEq, Prod.mk.injEq, true_and]
        refine ⟨fun h => .inl h.symm, fun h => h.elim Eq.symm fun later => ?_⟩
        exact absurd (List.mem_map_of_mem later) fresh
      · rw [beq_eq_false_iff_ne.2 same]
        simp only [ih rest, Prod.mk.injEq, same, false_and, false_or]

theorem lookup_isSome {K V : Type} [BEq K] [LawfulBEq K] {l : List (K × V)} {k : K}
    (h : l.lookup k ≠ none) : k ∈ l.map Prod.fst := by
  by_contra absent
  refine h (List.lookup_eq_none_iff.2 fun m hm => ?_)
  exact bne_iff_ne.2 fun same => absent (same ▸ List.mem_map_of_mem hm)

/-- The changed paths are those on which the manifests differ. -/
theorem mem_changedPaths {K : Type} [BEq K] [LawfulBEq K] [DecidableEq K] {le : K → K → Bool}
    {before after : List (K × String)} {k : K} :
    k ∈ changedPaths le before after ↔ before.lookup k ≠ after.lookup k := by
  rw [changedPaths, List.mem_filter, List.mem_mergeSort, List.mem_dedup, List.map_append,
    List.mem_append, decide_eq_true_eq]
  refine and_iff_right_of_imp fun differ => ?_
  by_cases there : before.lookup k = none
  · exact .inr (lookup_isSome fun none => differ (there.trans none.symm))
  · exact .inl (lookup_isSome there)

variable {sha256 : List UInt8 → String} {t t' : FileTree Name}

theorem manifest_nodup : ((manifest sha256 t).map Prod.fst).Nodup := by
  rw [manifest, List.map_map]
  exact (t.files_nodup).sublist (List.filter_sublist.map _)

theorem manifest_lookup (p : List Name) :
    (manifest sha256 t).lookup p = if included p then (t.fileAt p).map sha256 else none := by
  refine Option.ext fun d => ?_
  rw [lookup_eq_some manifest_nodup, manifest, List.mem_map]
  constructor
  · rintro ⟨f, hf, same⟩
    cases same
    obtain ⟨there, inside⟩ := List.mem_filter.1 hf
    rw [if_pos inside, FileTree.mem_files.1 there]
    rfl
  · intro h
    split at h
    next inside =>
      obtain ⟨c, file, rfl⟩ := Option.map_eq_some_iff.1 h
      exact ⟨(p, c), List.mem_filter.2 ⟨FileTree.mem_files.2 file, inside⟩, rfl⟩
    · cases h

theorem mem_manifest {p : List Name} : p ∈ (manifest sha256 t).map Prod.fst ↔
    included p = true ∧ ∃ c, t.fileAt p = some c := by
  rw [manifest, List.map_map, List.mem_map]
  constructor
  · rintro ⟨f, hf, rfl⟩
    obtain ⟨there, inside⟩ := List.mem_filter.1 hf
    exact ⟨inside, f.2, FileTree.mem_files.1 there⟩
  · rintro ⟨inside, c, file⟩
    exact ⟨(p, c), List.mem_filter.2 ⟨FileTree.mem_files.2 file, inside⟩, rfl⟩

/-- Trees with the same files have the same manifest. -/
theorem manifest_congr {p : List Name} (h : t.fileAt p = t'.fileAt p) :
    (manifest sha256 t).lookup p = (manifest sha256 t').lookup p := by
  rw [manifest_lookup, manifest_lookup, h]

/-- The members of a manifest as they are written, where all paths can be. -/
def manifestMembers (m : List (List Name × String)) : Option (List (String × String)) :=
  m.mapM fun f => (pathText f.1).map (·, f.2)

/-- The text of a manifest, with its version. -/
def manifestJson (members : List (String × String)) (version : Nat) : Json :=
  .obj [("files", .obj (members.map fun f => (f.1, .str f.2))), ("schema_version", .nat version)]

theorem manifestMembers_isSome {m : List (List Name × String)} :
    (manifestMembers m).isSome ↔ ∀ f ∈ m, (pathText f.1).isSome := by
  induction m with
  | nil => exact iff_of_true rfl fun f hf => absurd hf List.not_mem_nil
  | cons f m ih =>
      rw [manifestMembers, List.mapM_cons, List.forall_mem_cons, ← ih, manifestMembers]
      cases pathText f.1 with
      | none => simp
      | some s =>
          cases m.mapM fun f => (pathText f.1).map (·, f.2) <;> simp

/-- The members are the files, by the texts of their paths. -/
theorem mem_members {m : List (List Name × String)} {members : List (String × String)}
    (written : manifestMembers m = some members) {k d : String} :
    (k, d) ∈ members ↔ ∃ p, pathText p = some k ∧ (p, d) ∈ m := by
  rw [mem_of_mapM written]
  constructor
  · rintro ⟨⟨p, d'⟩, there, named⟩
    obtain ⟨k', text, same⟩ := Option.map_eq_some_iff.1 named
    cases same
    exact ⟨p, text, there⟩
  · rintro ⟨p, text, there⟩
    exact ⟨(p, d), there, by rw [text]; rfl⟩

theorem members_nodup {m : List (List Name × String)} {members : List (String × String)}
    (nodup : (m.map Prod.fst).Nodup) (written : manifestMembers m = some members) :
    (members.map Prod.fst).Nodup := by
  refine List.pairwise_map.2 (pairwise_mapM written ?_ (List.pairwise_map.1 nodup))
  rintro ⟨p, d⟩ ⟨q, d'⟩ f g hf hg ne same
  obtain ⟨k, text, rfl⟩ := Option.map_eq_some_iff.1 hf
  obtain ⟨k', text', rfl⟩ := Option.map_eq_some_iff.1 hg
  cases same
  exact ne (pathText_injective text text')

/-- A file is among the members where its path says. -/
theorem members_lookup {m : List (List Name × String)} {members : List (String × String)}
    (nodup : (m.map Prod.fst).Nodup) (written : manifestMembers m = some members) {p : List Name}
    {k : String} (text : pathText p = some k) : members.lookup k = m.lookup p := by
  refine Option.ext fun d => ?_
  rw [lookup_eq_some (members_nodup nodup written), lookup_eq_some nodup, mem_members written]
  refine ⟨fun ⟨q, same, there⟩ => ?_, fun there => ⟨p, text, there⟩⟩
  rw [pathText_injective text same]
  exact there

/-! ## Commits -/

/-- A place in the file system, as a reference to it says. -/
inductive Location where
  /-- `current/<workspace_id>` -/
  | published
  /-- The manifest in it. -/
  | publishedManifest
  /-- `.forge/revisions/<revision_id>` -/
  | revision (revisionId : String)
  /-- `.forge/manifests/<revision_id>.json` -/
  | manifest (revisionId : String)
deriving DecidableEq

/-- `WorkspaceCommit` -/
structure WorkspaceCommit (K : Type) where
  revisionId : String
  manifestDigest : String
  manifestRef : Location
  storageRef : Location
  changedPaths : List K

end CodeForge.Files
