import CodeForge.Lib.Sha256
import CodeForge.Workspace.Manifest

/-!
# Commits of bound projects

A bound workspace is a project of the user, which is worked on in place.  What a
commit stores lies in `.forge` at its top: a copy of the project for every
revision, a manifest for every revision, and the manifest of the last one, to
which the next commit is compared.

The manifest leaves out what is in `.forge` at the top, and the copy leaves out
everything that is called `.forge`, wherever it is.  So a project with such a
name deeper down is not copied whole, and that, with a name that cannot be
written to the manifest, is all that can go wrong (`commit_faithful_iff`).
-/

namespace CodeForge.Files

open Lib

/-! ## The commit -/

/-- What is in `.forge`. -/
structure Metadata where
  revisions : String → Option (FileTree Name)
  /-- By their names without `.json`. -/
  manifests : String → Option (List UInt8)

/-- A new project. -/
def Metadata.empty : Metadata where
  revisions _ := none
  manifests _ := none

/-- Store the copy of a revision. -/
def Metadata.copied (m : Metadata) (revisionId : String) (t : FileTree Name) : Metadata :=
  { m with revisions := fun r => if r = revisionId then some t else m.revisions r }

/-- Write a manifest. -/
def Metadata.written (m : Metadata) (name : String) (encoded : List UInt8) : Metadata :=
  { m with manifests := fun n => if n = name then some encoded else m.manifests n }

@[simp] theorem Metadata.copied_manifests (m : Metadata) (r : String) (t : FileTree Name) :
    (m.copied r t).manifests = m.manifests := rfl

@[simp] theorem Metadata.written_revisions (m : Metadata) (n : String) (b : List UInt8) :
    (m.written n b).revisions = m.revisions := rfl

@[simp] theorem Metadata.copied_self (m : Metadata) (r : String) (t : FileTree Name) :
    (m.copied r t).revisions r = some t := if_pos rfl

@[simp] theorem Metadata.written_self (m : Metadata) (n : String) (b : List UInt8) :
    (m.written n b).manifests n = some b := if_pos rfl

/-- Why a commit is refused or raises. -/
inductive CommitError where
  | conflict
  /-- The last manifest is no UTF-8. -/
  | undecodable
  /-- The last manifest is no object, or has half of a surrogate pair in it. -/
  | unexpected
  /-- A path cannot be written. -/
  | unencodable

section Commit

variable (sha256 : List UInt8 → String) (le : String → String → Bool) (numerals : Json.Numerals)

/-- `_load_manifest` -/
def loadManifest (file : Option (List UInt8)) : Except CommitError (List (String × Json)) :=
  match file with
  | none => .ok []
  | some b =>
      match loadBytes numerals b with
      | .malformed => .ok []
      | .undecodable => .error .undecodable
      | .surrogate => .error .unexpected
      | .value (.obj members) =>
          match (Json.obj members).get? "files" with
          | some (.obj files) => .ok files
          | _ => .ok []
      | .value _ => .error .unexpected

/-- `before.get(path) == after.get(path)` -/
def sameDigest : Option Json → Option String → Bool
  | none, none => true
  | some .null, none => true
  | some (.str d), some d' => d = d'
  | _, _ => false

/-- The paths whose digests are not the same, in some order. -/
def changedFiles (before : List (String × Json)) (after : List (String × String)) : List String :=
  ((before.map Prod.fst ++ after.map Prod.fst).dedup.mergeSort le).filter fun k =>
    !sameDigest (before.lookup k) (after.lookup k)

/-- `_commit_bound_project`: what is in `.forge` afterwards, and what is returned or raised. -/
def commitBoundProject (m : Metadata) (project : FileTree Name) (revisionId : String) :
    Metadata × Except CommitError (WorkspaceCommit String) :=
  if (m.revisions revisionId).isSome then (m, .error .conflict)
  else
    match loadManifest numerals (m.manifests "current") with
    | .error e => (m, .error e)
    | .ok before =>
        let m := m.copied revisionId (project.without fun n => n = forge)
        match manifestMembers (manifest sha256 project) with
        | none => (m, .error .unencodable)
        | some after =>
            let encoded := utf8 (manifestJson after 2).canonical
            ((m.written revisionId encoded).written "current" encoded,
              .ok
                { revisionId
                  manifestDigest := sha256 encoded
                  manifestRef := .manifest revisionId
                  storageRef := .revision revisionId
                  changedPaths := changedFiles le before after })

/-- What commits of a project leave in `.forge`, with the manifest of the last one that went
through. -/
inductive Committed : Metadata → List (List Name × String) → Prop
  | new : Committed .empty []
  | commit {m m' : Metadata} {last : List (List Name × String)} {project : FileTree Name}
      {revisionId : String} {c : WorkspaceCommit String} (before : Committed m last)
      (done : commitBoundProject sha256 le numerals m project revisionId = (m', .ok c)) :
      Committed m' (manifest sha256 project)
  | refused {m m' : Metadata} {last : List (List Name × String)} {project : FileTree Name}
      {revisionId : String} {e : CommitError} (before : Committed m last)
      (done : commitBoundProject sha256 le numerals m project revisionId = (m', .error e)) :
      Committed m' last

/-- The commit of a project goes through and tells what the project is: the copy has its
manifest, which is what is written and what the digest is of, and the changed paths are
those on which it differs from the last manifest. -/
def Faithful (m : Metadata) (last : List (List Name × String)) (project : FileTree Name)
    (revisionId : String) : Prop :=
  ∃ m' c, commitBoundProject sha256 le numerals m project revisionId = (m', .ok c) ∧
    (∃ copy, m'.revisions revisionId = some copy ∧
      ∀ p, (manifest sha256 copy).lookup p = (manifest sha256 project).lookup p) ∧
    (∃ members, manifestMembers (manifest sha256 project) = some members ∧
      m'.manifests revisionId = some (utf8 (manifestJson members 2).canonical) ∧
      c.manifestDigest = sha256 (utf8 (manifestJson members 2).canonical)) ∧
    ∀ k, k ∈ c.changedPaths ↔
      ∃ p, pathText p = some k ∧ last.lookup p ≠ (manifest sha256 project).lookup p

end Commit

variable {sha256 : List UInt8 → String} {le : String → String → Bool} {numerals : Json.Numerals}
  {m : Metadata} {last : List (List Name × String)} {project : FileTree Name}
  {revisionId : String}

/-! ## The last manifest -/

theorem manifestJson_valid {members : List (String × String)} {version : Nat}
    (nodup : (members.map Prod.fst).Nodup) : (manifestJson members version).Valid numerals := by
  refine ⟨by simp, ⟨?_, Json.validMembers_iff.2 fun f hf => ?_⟩, Json.valid_nat _, trivial⟩
  · rw [List.map_map]
    exact nodup
  · obtain ⟨g, -, rfl⟩ := List.mem_map.1 hf
    exact trivial

/-- A manifest that was written is loaded again. -/
theorem loadManifest_written {comma colon : String} (sep : Json.Separators comma colon)
    {members : List (String × String)} (nodup : (members.map Prod.fst).Nodup) (version : Nat) :
    ∃ files, loadManifest numerals (some (utf8 ((manifestJson members version).dumps comma colon))) =
        .ok files ∧
      ∀ k, files.lookup k = (members.lookup k).map .str := by
  have valid : (manifestJson members version).Valid numerals := manifestJson_valid nodup
  have keys : ((members.map fun f => (f.1, Json.str f.2)).map Prod.fst).Nodup := by
    rw [List.map_map]
    exact nodup
  have perm := Json.sortByKey_perm (members.map fun f => (f.1, Json.str f.2))
  have loaded : loadManifest numerals
        (some (utf8 ((manifestJson members version).dumps comma colon))) =
      .ok (Json.sortByKey (members.map fun f => (f.1, Json.str f.2))) := by
    have inner : (Json.obj (members.map fun f => (f.1, Json.str f.2))).sorted =
        .obj (Json.sortByKey (members.map fun f => (f.1, Json.str f.2))) := by
      rw [Json.sorted, Json.sortedMembers_eq, List.map_map]
      rfl
    have found := Json.get?_sorted valid.1 "files"
    rw [loadManifest, loadBytes_utf8 sep valid]
    change ((manifestJson members version).sorted.get? "files") = some (Json.obj _).sorted at found
    rw [inner] at found
    unfold manifestJson at found ⊢
    rw [Json.sorted] at found ⊢
    dsimp only
    rw [found]
  refine ⟨_, loaded, fun k => Option.ext fun j => ?_⟩
  have keys' : ((Json.sortByKey (members.map fun f => (f.1, Json.str f.2))).map Prod.fst).Nodup :=
    (perm.map _).nodup_iff.2 keys
  rw [lookup_eq_some keys', perm.mem_iff, List.mem_map, Option.map_eq_some_iff]
  constructor
  · rintro ⟨f, hf, same⟩
    cases same
    exact ⟨f.2, (lookup_eq_some nodup).2 hf, rfl⟩
  · rintro ⟨d, hd, rfl⟩
    exact ⟨(k, d), (lookup_eq_some nodup).1 hd, rfl⟩

/-- The file of the last manifest is what its commit wrote. -/
def Kept (m : Metadata) (last : List (List Name × String)) : Prop :=
  (last.map Prod.fst).Nodup ∧ ∃ members, manifestMembers last = some members ∧
    (m.manifests "current" = some (utf8 (manifestJson members 2).canonical) ∨
      m.manifests "current" = none ∧ members = [])

theorem Committed.kept (h : Committed sha256 le numerals m last) : Kept m last := by
  induction h with
  | new => exact ⟨List.nodup_nil, [], rfl, .inr ⟨rfl, rfl⟩⟩
  | commit before done ih =>
      refine ⟨manifest_nodup, ?_⟩
      unfold commitBoundProject at done
      split at done
      · cases done
      split at done
      · cases done
      dsimp only at done
      split at done
      · cases done
      next after written =>
        cases done
        exact ⟨after, written, .inl (Metadata.written_self _ _ _)⟩
  | refused before done ih =>
      unfold commitBoundProject at done
      split at done
      · cases done
        exact ih
      split at done
      · cases done
        exact ih
      dsimp only at done
      split at done
      · cases done
        exact ih
      · cases done

/-- What a commit compares with is the last manifest. -/
theorem Committed.loads (h : Committed sha256 le numerals m last) :
    ∃ members files, manifestMembers last = some members ∧
      loadManifest numerals (m.manifests "current") = .ok files ∧
      ∀ k, files.lookup k = (members.lookup k).map .str := by
  obtain ⟨nodup, members, written, stored | ⟨missing, rfl⟩⟩ := h.kept
  · obtain ⟨files, loaded, lookup⟩ :=
      loadManifest_written Json.Separators.compact (members_nodup nodup written) 2
    exact ⟨members, files, written, stored ▸ loaded, lookup⟩
  · refine ⟨[], [], written, by rw [missing]; rfl, fun k => rfl⟩

/-! ## Changed paths -/

theorem sameDigest_str (d d' : Option String) :
    sameDigest (d.map .str) d' = true ↔ d = d' := by
  cases d with
  | none => cases d' <;> simp [sameDigest]
  | some d => cases d' <;> simp [sameDigest]

theorem mem_changedFiles {before : List (String × Json)} {after : List (String × String)}
    {k : String} :
    k ∈ changedFiles le before after ↔ sameDigest (before.lookup k) (after.lookup k) = false := by
  rw [changedFiles, List.mem_filter, List.mem_mergeSort, List.mem_dedup, List.mem_append,
    Bool.not_eq_true']
  refine and_iff_right_of_imp fun differ => ?_
  by_cases there : before.lookup k = none
  · by_cases there' : after.lookup k = none
    · rw [there, there'] at differ
      cases differ
    · exact .inr (lookup_isSome there')
  · exact .inl (lookup_isSome there)

/-- The paths that are told are those on which the manifests differ. -/
theorem changedFiles_members {members after : List (String × String)}
    {files : List (String × Json)} {next : List (List Name × String)}
    (nodup : (last.map Prod.fst).Nodup) (nodup' : (next.map Prod.fst).Nodup)
    (written : manifestMembers last = some members) (written' : manifestMembers next = some after)
    (loaded : ∀ k, files.lookup k = (members.lookup k).map .str) (k : String) :
    k ∈ changedFiles le files after ↔
      ∃ p, pathText p = some k ∧ last.lookup p ≠ next.lookup p := by
  have differ : k ∈ changedFiles le files after ↔ members.lookup k ≠ after.lookup k := by
    rw [mem_changedFiles, loaded, ← Bool.not_eq_true, sameDigest_str]
  have path : ∀ {m ms}, manifestMembers m = some ms → ms.lookup k ≠ none →
      ∃ p, pathText p = some k := by
    intro m ms h there
    obtain ⟨⟨k', d⟩, among, rfl⟩ := List.mem_map.1 (lookup_isSome there)
    obtain ⟨p, text, -⟩ := (mem_members h).1 among
    exact ⟨p, text⟩
  rw [differ]
  constructor
  · intro ne
    have text : ∃ p, pathText p = some k := by
      by_cases there : members.lookup k = none
      · exact path written' fun none => ne (there.trans none.symm)
      · exact path written there
    obtain ⟨p, text⟩ := text
    rw [members_lookup nodup written text, members_lookup nodup' written' text] at ne
    exact ⟨p, text, ne⟩
  · rintro ⟨p, text, ne⟩
    rw [members_lookup nodup written text, members_lookup nodup' written' text]
    exact ne

/-! ## When a revision is the project -/

/-- The copy has the manifest of the project where nothing below the top is called `.forge`. -/
theorem copy_manifest : (∀ p, (manifest sha256 (project.without fun n => n = forge)).lookup p =
      (manifest sha256 project).lookup p) ↔
    ∀ p c, project.fileAt p = some c → included p = true → forge ∉ p := by
  have names : ∀ p : List Name, (p.all fun n => !decide (n = forge)) = true ↔ forge ∉ p := by
    intro p
    rw [List.all_eq_true]
    simp only [Bool.not_eq_true', decide_eq_false_iff_not]
    exact ⟨fun h there => h _ there rfl, fun h n hn same => h (same ▸ hn)⟩
  constructor
  · intro same p c file inside there
    have here := same p
    rw [manifest_lookup, manifest_lookup, if_pos inside, if_pos inside, FileTree.fileAt_without,
      if_neg fun all => (names p).1 all there, file] at here
    cases here
  · intro deep p
    rw [manifest_lookup, manifest_lookup]
    split
    next inside =>
      rw [FileTree.fileAt_without]
      split
      · rfl
      next dropped =>
        cases file : project.fileAt p with
        | none => rfl
        | some c => exact absurd ((names p).2 (deep p c file inside)) dropped
    · rfl

theorem members_named : (manifestMembers (manifest sha256 project)).isSome ↔
    ∀ p c, project.fileAt p = some c → included p = true → (pathText p).isSome := by
  rw [manifestMembers_isSome]
  constructor
  · intro all p c file inside
    have there : p ∈ (manifest sha256 project).map Prod.fst := mem_manifest.2 ⟨inside, c, file⟩
    obtain ⟨f, hf, rfl⟩ := List.mem_map.1 there
    exact all f hf
  · intro all f hf
    obtain ⟨inside, c, file⟩ := mem_manifest.1 (List.mem_map_of_mem hf)
    exact all f.1 c file inside

/-- The revision and its manifest are stored even where the path it is compared by is its own. -/
theorem written_manifests (m : Metadata) (revisionId : String) (encoded : List UInt8) :
    ((m.written revisionId encoded).written "current" encoded).manifests revisionId =
      some encoded := by
  by_cases same : revisionId = "current"
  · rw [same]
    exact Metadata.written_self _ _ _
  · exact (if_neg same).trans (if_pos rfl)

/-- A commit that goes through. -/
theorem commitBoundProject_ok (le : String → String → Bool)
    {before : List (String × Json)} {after : List (String × String)}
    (fresh : m.revisions revisionId = none)
    (loaded : loadManifest numerals (m.manifests "current") = .ok before)
    (named : manifestMembers (manifest sha256 project) = some after) :
    ∃ c, commitBoundProject sha256 le numerals m project revisionId =
        (((m.copied revisionId (project.without fun n => n = forge)).written revisionId
          (utf8 (manifestJson after 2).canonical)).written "current"
          (utf8 (manifestJson after 2).canonical), .ok c) ∧
      c.manifestDigest = sha256 (utf8 (manifestJson after 2).canonical) ∧
      c.changedPaths = changedFiles le before after := by
  unfold commitBoundProject
  rw [fresh, loaded]
  dsimp only
  rw [named]
  exact ⟨_, rfl, rfl, rfl⟩

theorem Faithful.whole (h : Faithful sha256 le numerals m last project revisionId)
    {p : List Name} {c : List UInt8} (file : project.fileAt p = some c)
    (inside : included p = true) : forge ∉ p ∧ (pathText p).isSome := by
  obtain ⟨m', r, done, ⟨copy, stored, same⟩, ⟨members, named, -⟩, -⟩ := h
  refine ⟨?_, members_named.1 (by rw [named]; rfl) p c file inside⟩
  unfold commitBoundProject at done
  split at done
  · cases done
  split at done
  · cases done
  dsimp only at done
  rw [named] at done
  cases done
  rw [Metadata.written_revisions, Metadata.written_revisions, Metadata.copied_self] at stored
  cases stored
  exact copy_manifest.1 same p c file inside

/-- **A bound revision is a faithful copy** if and only if no file below the top lies in or is
called `.forge`, and all paths can be written. -/
theorem commit_faithful_iff (h : Committed sha256 le numerals m last)
    (fresh : m.revisions revisionId = none) :
    Faithful sha256 le numerals m last project revisionId ↔
      ∀ p c, project.fileAt p = some c → included p = true →
        forge ∉ p ∧ (pathText p).isSome := by
  refine ⟨fun faithful p c => faithful.whole, fun whole => ?_⟩
  obtain ⟨members, files, written, loaded, lookup⟩ := h.loads
  obtain ⟨after, named⟩ := Option.isSome_iff_exists.1
    (members_named.2 fun p c file inside => (whole p c file inside).2)
  obtain ⟨c, done, digest, changed⟩ := commitBoundProject_ok le fresh loaded named
  refine ⟨_, c, done, ⟨_, ?_, copy_manifest.2 fun p c file inside => (whole p c file inside).1⟩,
    ⟨after, named, ?_, digest⟩, fun k => ?_⟩
  · rw [Metadata.written_revisions, Metadata.written_revisions, Metadata.copied_self]
  · exact written_manifests _ _ _
  · rw [changed]
    exact changedFiles_members h.kept.1 manifest_nodup written named lookup k

private def lib : Name := .text "lib" (by decide)

private def main : Name := .text "main.py" (by decide)

theorem commit_faithful_nested :
    Faithful plainDigest (fun _ _ => true) .plain .empty []
      (.build [([lib], .dir), ([lib, main], .file [1]), ([main], .file [2])]) "1" :=
  (commit_faithful_iff .new rfl).2 fun p c file => by
    have all : ∀ f ∈ (FileTree.build [([lib], .dir), ([lib, main], .file [1]),
        ([main], .file [2])]).files, forge ∉ f.1 ∧ (pathText f.1).isSome := by decide +kernel
    exact fun _ => all (p, c) (FileTree.mem_files.2 file)

/-- A project in a project has metadata of its own, which is listed and not copied. -/
theorem commit_not_faithful : ∃ project : FileTree Name, project.get [forge] = none ∧
    ∀ sha256 le numerals m last revisionId, Committed sha256 le numerals m last →
      m.revisions revisionId = none →
        ¬ Faithful sha256 le numerals m last project revisionId := by
  refine ⟨.build [([lib], .dir), ([lib, forge], .dir), ([lib, forge, main], .file [1])],
    by decide +kernel, fun sha256 le numerals m last revisionId _ _ h => ?_⟩
  have file : (FileTree.build [([lib], .dir), ([lib, forge], .dir),
      ([lib, forge, main], .file [1])]).fileAt [lib, forge, main] = some [1] := by decide +kernel
  exact (h.whole file (by decide)).1 (by decide)

end CodeForge.Files
