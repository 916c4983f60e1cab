import CodeForge.Lib.Sha256
import CodeForge.Workspace.Manifest

/-!
# Commits of unbound workspaces

An attempt works on a copy of the workspace.  `commit_attempt` copies it to a
directory of its own, and then changes the published tree file by file: files
the attempt has no more are removed, and all files it has are copied.

Directories are never removed.  So where the attempt has a file and the
published tree has a directory, the file is copied into that directory
(`copy2`), and the published tree does not become what the attempt is.  That,
and a name that cannot be written to the manifest, is all that can go wrong
(`commit_mirrors_iff`).
-/

namespace CodeForge.Files

open Lib

variable {sha256 : List UInt8 → String} {le : List Name → List Name → Bool}
  {t t' u attempt current : FileTree Name} {revisionId : String}

/-! ## The commit -/

/-- Remove a file, if it is there. -/
def remove (t : FileTree Name) (p : List Name) : Option (FileTree Name) :=
  if t.get p = none then some t else t.unlink p

/-- `shutil.copy2`: into the directory, if there is one at the path. -/
def copy2 (t : FileTree Name) (p : List Name) (content : List UInt8) : Option (FileTree Name) :=
  if t.get p = some .dir then t.put (p ++ p.getLast?.toList) (.file content)
  else t.put p (.file content)

/-- Copy a file of the attempt. -/
def publish (attempt t : FileTree Name) (p : List Name) : Option (FileTree Name) := do
  let content ← attempt.fileAt p
  let t ← t.mkdirs p.dropLast
  copy2 t p content

/-- What a commit leaves and returns. -/
structure Published where
  current : FileTree Name
  revision : FileTree Name
  commit : WorkspaceCommit (List Name)

section Commit

variable (sha256) (le)

/-- `_write_manifest` -/
def writeManifest (t : FileTree Name) (m : List (List Name × String)) :
    Option (FileTree Name × String) := do
  let members ← manifestMembers m
  let encoded := utf8 (manifestJson members 1).spaced
  let t ← t.put [manifestName] (.file encoded)
  return (t, sha256 encoded)

/-- `commit_attempt` of an unbound workspace, where the revision is new.  It is `none` where an
exception is raised. -/
def commitAttempt (current attempt : FileTree Name) (revisionId : String) : Option Published := do
  let before := manifest sha256 current
  let after := manifest sha256 attempt
  let removed := ((before.map Prod.fst).filter fun p => p ∉ after.map Prod.fst).mergeSort le
  let published ← removed.foldlM remove current
  let published ← ((after.map Prod.fst).mergeSort le).foldlM (publish attempt) published
  let (published, digest) ← writeManifest sha256 published after
  return {
    current := published
    revision := attempt
    commit :=
      { revisionId
        manifestDigest := digest
        manifestRef := .publishedManifest
        storageRef := .published
        changedPaths := changedPaths le before after } }

/-- The commit goes through, and what is published and stored is what the attempt is. -/
def Mirrors (current attempt : FileTree Name) (revisionId : String) : Prop :=
  ∃ c, commitAttempt sha256 le current attempt revisionId = some c ∧
    (∀ p, (manifest sha256 c.current).lookup p = (manifest sha256 attempt).lookup p) ∧
    (∀ p, (manifest sha256 c.revision).lookup p = (manifest sha256 attempt).lookup p) ∧
    ∀ p, p ∈ c.commit.changedPaths ↔
      (manifest sha256 current).lookup p ≠ (manifest sha256 attempt).lookup p

end Commit

/-- Nothing is named like what the commit writes. -/
def Plain (t : FileTree Name) : Prop := ∀ p, t.get p ≠ none → forge ∉ p ∧ manifestName ∉ p

instance : DecidablePred Plain := fun t =>
  decidable_of_iff (∀ p ∈ t.entries.keys, forge ∉ p ∧ manifestName ∉ p) <| forall_congr' fun p => by
    rw [← AList.mem_keys, ← AList.lookup_isSome, Option.isSome_iff_ne_none]
    rfl

theorem Plain.included (h : Plain t) {p : List Name} {c : List UInt8}
    (file : t.fileAt p = some c) : included p = true := by
  have there : t.get p ≠ none := by
    rw [FileTree.fileAt_eq_some.1 file]
    exact Option.some_ne_none _
  obtain ⟨internal, named⟩ := h p there
  rw [Files.included, Bool.and_eq_true, decide_eq_true_eq, decide_eq_true_eq]
  exact ⟨fun head => internal (List.mem_of_mem_head? head),
    fun last => named (List.mem_of_getLast? last)⟩

/-! ## Removing -/

/-- The files that are removed are gone, and nothing else is changed. -/
theorem get_removes {ps : List (List Name)} (distinct : ps.Nodup)
    (files : ∀ p ∈ ps, ∃ c, t.fileAt p = some c) :
    ∃ t', ps.foldlM remove t = some t' ∧ ∀ q, t'.get q = if q ∈ ps then none else t.get q := by
  induction ps generalizing t with
  | nil => exact ⟨t, rfl, fun q => (if_neg List.not_mem_nil).symm⟩
  | cons p ps ih =>
      obtain ⟨fresh, rest⟩ := List.nodup_cons.1 distinct
      obtain ⟨c, file⟩ := files p List.mem_cons_self
      obtain ⟨t₁, gone⟩ := FileTree.unlink_isSome file
      have after := FileTree.get_unlink gone
      have there : t.get p ≠ none := by
        rw [FileTree.fileAt_eq_some.1 file]
        exact Option.some_ne_none _
      obtain ⟨t', removed, get⟩ := ih rest (t := t₁) fun q hq => by
        have other : q ≠ p := fun same => fresh (same ▸ hq)
        obtain ⟨c', file'⟩ := files q (List.mem_cons_of_mem _ hq)
        exact ⟨c', (FileTree.fileAt_congr ((after q).trans (if_neg other))).trans file'⟩
      refine ⟨t', ?_, fun q => ?_⟩
      · rw [List.foldlM_cons, remove, if_neg there, gone]
        exact removed
      · rw [get, after]
        by_cases same : q = p
        · simp [same]
        · simp [same]

/-! ## Publishing -/

/-- Nothing is in the way of the files of the attempt. -/
def Fits (attempt t : FileTree Name) : Prop :=
  ∀ q, (∀ c, t.fileAt q = some c → ∃ c', attempt.fileAt q = some c') ∧
    (t.get q = some .dir → attempt.fileAt q = none)

/-- Above a file there are directories. -/
theorem above_file {p q : List Name} {c : List UInt8} (file : t.fileAt p = some c)
    (pre : q <+: p.dropLast) : t.get q = some .dir := by
  have there : t.get p ≠ none := by
    rw [FileTree.fileAt_eq_some.1 file]
    exact Option.some_ne_none _
  have ne : p ≠ [] := by
    rintro rfl
    rw [FileTree.fileAt, FileTree.get_nil] at file
    cases file
  refine FileTree.get_prefix there (pre.trans (List.dropLast_prefix p)) fun same => ?_
  have short := pre.length_le
  rw [same, List.length_dropLast] at short
  have := List.length_pos_of_ne_nil ne
  omega

/-- A copied file is where it is in the attempt, and no other file is touched. -/
theorem Fits.publish (h : Fits attempt t) {p : List Name} {c : List UInt8}
    (file : attempt.fileAt p = some c) :
    ∃ t', Files.publish attempt t p = some t' ∧ Fits attempt t' ∧
      (∀ q, t'.fileAt q = if q = p then some c else t.fileAt q) ∧
      ∀ q, t'.get q ≠ none → attempt.get q ≠ none ∨ t.get q ≠ none := by
  have ne : p ≠ [] := by
    rintro rfl
    rw [FileTree.fileAt, FileTree.get_nil] at file
    cases file
  have deeper : ¬ p <+: p.dropLast := fun pre => by
    have short := pre.length_le
    rw [List.length_dropLast] at short
    have := List.length_pos_of_ne_nil ne
    omega
  obtain ⟨t₁, made⟩ := FileTree.mkdirs_isSome (t := t) (p := p.dropLast) fun q pre c' there => by
    obtain ⟨c'', also⟩ := (h q).1 c' (FileTree.fileAt_eq_some.2 there)
    rw [FileTree.fileAt, above_file file pre] at also
    cases also
  have nodir : t₁.get p ≠ some .dir := by
    rw [FileTree.get_mkdirs made, if_neg deeper]
    intro dir
    rw [(h p).2 dir] at file
    cases file
  have parent : t₁.get p.dropLast = some .dir := by
    rw [FileTree.get_mkdirs made, if_pos (List.prefix_refl _)]
  obtain ⟨t', copied⟩ := FileTree.put_isSome ⟨ne, parent, nodir⟩ (.file c)
  have files : ∀ q, t'.fileAt q = if q = p then some c else t.fileAt q := fun q => by
    rw [FileTree.fileAt_put copied, FileTree.fileAt_mkdirs made]
  refine ⟨t', ?_, fun q => ⟨fun c' there => ?_, fun dir => ?_⟩, files, fun q there => ?_⟩
  · rw [Files.publish, file, Option.bind_eq_bind, Option.bind_some, made, Option.bind_eq_bind,
      Option.bind_some, copy2, if_neg nodir, copied]
  · rw [files] at there
    split at there
    next same => exact ⟨c, same ▸ file⟩
    · exact (h q).1 c' there
  · rw [FileTree.get_put copied] at dir
    split at dir
    · cases dir
    rw [FileTree.get_mkdirs made] at dir
    split at dir
    next pre => rw [FileTree.fileAt, above_file file pre]
    · exact (h q).2 dir
  · rw [FileTree.get_put copied] at there
    split at there
    next same =>
      rw [same, FileTree.fileAt_eq_some.1 file]
      exact .inl (Option.some_ne_none _)
    rw [FileTree.get_mkdirs made] at there
    split at there
    next pre =>
      rw [above_file file pre]
      exact .inl (Option.some_ne_none _)
    · exact .inr there

/-- All files of the attempt are copied. -/
theorem Fits.publishAll (h : Fits attempt t) {ps : List (List Name)}
    (files : ∀ p ∈ ps, ∃ c, attempt.fileAt p = some c) :
    ∃ t', ps.foldlM (Files.publish attempt) t = some t' ∧
      (∀ q, t'.fileAt q = if q ∈ ps then attempt.fileAt q else t.fileAt q) ∧
      ∀ q, t'.get q ≠ none → attempt.get q ≠ none ∨ t.get q ≠ none := by
  induction ps generalizing t with
  | nil => exact ⟨t, rfl, fun q => (if_neg List.not_mem_nil).symm, fun q => .inr⟩
  | cons p ps ih =>
      obtain ⟨c, file⟩ := files p List.mem_cons_self
      obtain ⟨t₁, copied, fits, here, old⟩ := h.publish file
      obtain ⟨t', rest, later, old'⟩ := ih fits fun q hq => files q (List.mem_cons_of_mem _ hq)
      refine ⟨t', ?_, fun q => ?_, fun q there => (old' q there).elim .inl (old q)⟩
      · rw [List.foldlM_cons, copied]
        exact rest
      · rw [later, here]
        by_cases same : q = p
        · simp [same, file]
        · simp [same]

/-! ## Directories stay -/

theorem remove_dir {p q : List Name} (done : remove t p = some t') (dir : t.get q = some .dir) :
    t'.get q = some .dir := by
  unfold remove at done
  split at done
  · cases done
    exact dir
  · rw [FileTree.get_unlink done, if_neg]
    · exact dir
    rintro rfl
    obtain ⟨c, file⟩ := FileTree.unlink_file done
    rw [FileTree.fileAt, dir] at file
    cases file

theorem put_dir {p q : List Name} {e : Entry} (done : t.put p e = some t')
    (dir : t.get q = some .dir) : t'.get q = some .dir := by
  rw [FileTree.get_put done, if_neg]
  · exact dir
  rintro rfl
  exact (FileTree.put_free done).2.2 dir

theorem publish_dir {p q : List Name} (done : Files.publish attempt t p = some t')
    (dir : t.get q = some .dir) : t'.get q = some .dir := by
  obtain ⟨c, -, done⟩ := Option.bind_eq_some_iff.1 done
  obtain ⟨t₁, made, done⟩ := Option.bind_eq_some_iff.1 done
  have kept : t₁.get q = some .dir := by
    rw [FileTree.get_mkdirs made, dir, ite_self]
  unfold copy2 at done
  split at done
  · exact put_dir done kept
  · exact put_dir done kept

theorem foldlM_dir {step : FileTree Name → List Name → Option (FileTree Name)} {q : List Name}
    (keeps : ∀ {t t' p}, step t p = some t' → t.get q = some .dir → t'.get q = some .dir)
    {ps : List (List Name)} (done : ps.foldlM step t = some t') (dir : t.get q = some .dir) :
    t'.get q = some .dir := by
  induction ps generalizing t with
  | nil =>
      cases done
      exact dir
  | cons p ps ih =>
      rw [List.foldlM_cons] at done
      obtain ⟨t₁, first, rest⟩ := Option.bind_eq_some_iff.1 done
      exact ih rest (keeps first dir)

/-! ## When a commit mirrors the attempt -/

theorem Plain.mem_manifest (h : Plain t) {p : List Name} :
    p ∈ (manifest sha256 t).map Prod.fst ↔ ∃ c, t.fileAt p = some c := by
  rw [Files.mem_manifest]
  exact and_iff_right_of_imp fun ⟨_, file⟩ => h.included file

theorem Plain.writeManifest_isSome (h : Plain t) (fresh : u.get [manifestName] = none)
    (named : ∀ p c, t.fileAt p = some c → (pathText p).isSome) :
    ∃ u' d, writeManifest sha256 u (manifest sha256 t) = some (u', d) ∧
      ∀ p, p ≠ [manifestName] → u'.get p = u.get p := by
  have members : (manifestMembers (manifest sha256 t)).isSome := by
    refine manifestMembers_isSome.2 fun f hf => ?_
    obtain ⟨c, file⟩ := h.mem_manifest.1 (List.mem_map_of_mem hf)
    exact named f.1 c file
  obtain ⟨members, written⟩ := Option.isSome_iff_exists.1 members
  obtain ⟨u', put⟩ := FileTree.put_isSome (t := u) (p := [manifestName])
    ⟨List.cons_ne_nil _ _, u.get_nil, by rw [fresh]; exact Option.some_ne_none _ ∘ Eq.symm⟩
    (.file (utf8 (manifestJson members 1).spaced))
  refine ⟨u', sha256 (utf8 (manifestJson members 1).spaced), ?_, fun p other => ?_⟩
  · rw [writeManifest, written, Option.bind_eq_bind, Option.bind_some]
    dsimp only
    rw [put]
    rfl
  · rw [FileTree.get_put put, if_neg other]

/-- After the removals nothing is in the way of the attempt. -/
theorem removed_fits (plain : Plain current) (plain' : Plain attempt)
    (fits : ∀ p c, attempt.fileAt p = some c → current.get p ≠ some .dir) :
    ∃ t, ((((manifest sha256 current).map Prod.fst).filter fun p =>
        p ∉ (manifest sha256 attempt).map Prod.fst).mergeSort le).foldlM remove current = some t ∧
      Fits attempt t ∧ ∀ q, t.get q ≠ none → current.get q ≠ none := by
  set gone := (((manifest sha256 current).map Prod.fst).filter fun p =>
    p ∉ (manifest sha256 attempt).map Prod.fst).mergeSort le with hgone
  have mem_gone : ∀ p, p ∈ gone ↔ (∃ c, current.fileAt p = some c) ∧
      ¬ ∃ c, attempt.fileAt p = some c := fun p => by
    rw [hgone, List.mem_mergeSort, List.mem_filter, decide_eq_true_eq, plain.mem_manifest,
      plain'.mem_manifest]
  have distinct : gone.Nodup := (List.mergeSort_perm _ le).nodup_iff.2 (manifest_nodup.filter _)
  obtain ⟨t, removed, get⟩ := get_removes distinct fun p hp => ((mem_gone p).1 hp).1
  refine ⟨t, removed, fun q => ⟨fun c file => ?_, fun dir => ?_⟩, fun q there => ?_⟩
  · rw [FileTree.fileAt_eq_some, get] at file
    split at file
    · cases file
    next kept =>
      by_contra absent
      exact kept ((mem_gone q).2 ⟨⟨c, FileTree.fileAt_eq_some.2 file⟩, absent⟩)
  · rw [get] at dir
    split at dir
    · cases dir
    cases file : attempt.fileAt q with
    | none => rfl
    | some c => exact absurd dir (fits q c file)
  · rw [get] at there
    split at there
    · exact absurd rfl there
    · exact there

/-- All files are copied over what the removals leave. -/
theorem Fits.mirror (h : Fits attempt t) (plain' : Plain attempt) :
    ∃ t', (((manifest sha256 attempt).map Prod.fst).mergeSort le).foldlM (Files.publish attempt) t
        = some t' ∧ (∀ q, t'.fileAt q = attempt.fileAt q) ∧
      ∀ q, t'.get q ≠ none → attempt.get q ≠ none ∨ t.get q ≠ none := by
  have mem : ∀ p, p ∈ ((manifest sha256 attempt).map Prod.fst).mergeSort le ↔
      ∃ c, attempt.fileAt p = some c := fun p => by
    rw [List.mem_mergeSort, plain'.mem_manifest]
  obtain ⟨t', published, files, old⟩ := h.publishAll fun p => (mem p).1
  refine ⟨t', published, fun q => ?_, old⟩
  rw [files]
  split
  · rfl
  next absent =>
    cases file : attempt.fileAt q with
    | some c => exact absurd ((mem q).2 ⟨c, file⟩) absent
    | none =>
        cases left : t.fileAt q with
        | none => rfl
        | some c =>
            obtain ⟨c', also⟩ := (h q).1 c left
            rw [file] at also
            cases also

theorem commitAttempt_mirrors (plain : Plain current) (plain' : Plain attempt)
    (fits : ∀ p c, attempt.fileAt p = some c → current.get p ≠ some .dir)
    (named : ∀ p c, attempt.fileAt p = some c → (pathText p).isSome) :
    Mirrors sha256 le current attempt revisionId := by
  obtain ⟨t₁, removed, ready, old⟩ := removed_fits plain plain' fits
  obtain ⟨t₂, published, files, old'⟩ := ready.mirror plain'
  have fresh : t₂.get [manifestName] = none := by
    by_contra there
    rcases old' _ there with there | there
    · exact (plain' _ there).2 (List.mem_singleton_self _)
    · exact (plain _ (old _ there)).2 (List.mem_singleton_self _)
  obtain ⟨t₃, d, written, rest⟩ := plain'.writeManifest_isSome fresh named
  refine ⟨⟨t₃, attempt, revisionId, d, .publishedManifest, .published,
    changedPaths le (manifest sha256 current) (manifest sha256 attempt)⟩, ?_, fun p => ?_,
    fun p => rfl, fun p => mem_changedPaths⟩
  · dsimp only [commitAttempt]
    rw [removed, Option.bind_eq_bind, Option.bind_some, published, Option.bind_eq_bind,
      Option.bind_some, written]
    rfl
  · rw [manifest_lookup, manifest_lookup]
    split
    next inside =>
      rw [FileTree.fileAt_congr (rest p _), files]
      rintro rfl
      revert inside
      decide
    · rfl

theorem Mirrors.fits (h : Mirrors sha256 le current attempt revisionId) (plain' : Plain attempt)
    {p : List Name} {c : List UInt8} (file : attempt.fileAt p = some c) :
    current.get p ≠ some .dir := by
  intro dir
  obtain ⟨r, done, mirrored, -, -⟩ := h
  obtain ⟨t₁, removed, done⟩ := Option.bind_eq_some_iff.1 done
  obtain ⟨t₂, published, done⟩ := Option.bind_eq_some_iff.1 done
  obtain ⟨⟨t₃, d⟩, written, done⟩ := Option.bind_eq_some_iff.1 done
  cases done
  obtain ⟨members, -, written⟩ := Option.bind_eq_some_iff.1 written
  obtain ⟨t₃', put, same⟩ := Option.bind_eq_some_iff.1 written
  cases same
  -- No step removes a directory.
  have stays := put_dir put (foldlM_dir publish_dir published (foldlM_dir remove_dir removed dir))
  have here := mirrored p
  rw [manifest_lookup, manifest_lookup, file, FileTree.fileAt, stays] at here
  simp only [if_pos (plain'.included file)] at here
  cases here

theorem Mirrors.named (h : Mirrors sha256 le current attempt revisionId) (plain' : Plain attempt)
    {p : List Name} {c : List UInt8} (file : attempt.fileAt p = some c) :
    (pathText p).isSome := by
  obtain ⟨r, done, -⟩ := h
  obtain ⟨t₁, -, done⟩ := Option.bind_eq_some_iff.1 done
  obtain ⟨t₂, -, done⟩ := Option.bind_eq_some_iff.1 done
  obtain ⟨⟨t₃, d⟩, written, -⟩ := Option.bind_eq_some_iff.1 done
  obtain ⟨members, named, -⟩ := Option.bind_eq_some_iff.1 written
  have there : p ∈ (manifest sha256 attempt).map Prod.fst := plain'.mem_manifest.2 ⟨c, file⟩
  obtain ⟨f, hf, rfl⟩ := List.mem_map.1 there
  exact manifestMembers_isSome.1 (by rw [named]; rfl) f hf

/-- **A commit mirrors the attempt** if and only if no file of the attempt is where the published
tree has a directory, and all their paths can be written. -/
theorem commit_mirrors_iff (plain : Plain current) (plain' : Plain attempt) :
    Mirrors sha256 le current attempt revisionId ↔
      (∀ p c, attempt.fileAt p = some c → current.get p ≠ some .dir) ∧
      ∀ p c, attempt.fileAt p = some c → (pathText p).isSome :=
  ⟨fun h => ⟨fun _ _ => h.fits plain', fun _ _ => h.named plain'⟩,
    fun ⟨fits, named⟩ => commitAttempt_mirrors plain plain' fits named⟩

private def docs : Name := .text "docs" (by decide)

private theorem notes_isComponent : IsComponent "notes" := by decide

private def notes : Name := .text "notes" notes_isComponent

theorem commit_mirrors_edited :
    Mirrors plainDigest (fun _ _ => true)
      (.build [([docs], .dir), ([docs, notes], .file [1]), ([notes], .file [1])])
      (.build [([docs], .dir), ([docs, notes], .file [2]), ([docs, docs], .file [1])]) "1" :=
  (commit_mirrors_iff (by decide +kernel) (by decide +kernel)).2
    ⟨fun p c file => by
      have all : ∀ f ∈ (FileTree.build
          [([docs], .dir), ([docs, notes], .file [2]), ([docs, docs], .file [1])]).files,
          (FileTree.build
            [([docs], .dir), ([docs, notes], .file [1]), ([notes], .file [1])]).get f.1 ≠
              some .dir := by decide +kernel
      exact all (p, c) (FileTree.mem_files.2 file),
    fun p c file => by
      have all : ∀ f ∈ (FileTree.build
          [([docs], .dir), ([docs, notes], .file [2]), ([docs, docs], .file [1])]).files,
          (pathText f.1).isSome := by decide +kernel
      exact all (p, c) (FileTree.mem_files.2 file)⟩

/-- Where the published tree has a directory with a file, and the attempt a file instead, the
commit publishes neither. -/
theorem commit_not_mirrors : ∃ current attempt : FileTree Name, Plain current ∧ Plain attempt ∧
    ∀ sha256 le revisionId, ¬ Mirrors sha256 le current attempt revisionId := by
  refine ⟨.build [([docs], .dir), ([docs, notes], .file [1])], .build [([docs], .file [2])],
    by decide +kernel, by decide +kernel, fun sha256 le revisionId h => ?_⟩
  have file : (FileTree.build [([docs], .file [2])]).fileAt [docs] = some [2] := by decide +kernel
  exact h.fits (by decide +kernel) file (by decide +kernel)

end CodeForge.Files
