import CodeForge.Lib.JsonSame
import CodeForge.Persistence.Revisions
import CodeForge.Workspace.Bound
import CodeForge.Workspace.Legacy

/-!
# Commits and the revisions that are recorded of them

A tool that has worked commits its files first, `commit_attempt`, and the row of
the revision is recorded later, by another call that may be refused.  In between
anything can happen: other tools commit, leases run out, the process is killed.
A `World` is the store of the runtime together with the files of all workspaces,
bound or not, and with the commits that have not been recorded yet.

What a commit of an unbound workspace leaves is said for all trees here, also for
those with a manifest in them (`commitAttempt_publishes`, `Publishable.goes`).
-/

namespace CodeForge.Files

open Lib

variable {sha256 : List UInt8 → String} {le : List Name → List Name → Bool}
  {t t' attempt current : FileTree Name} {revisionId : String} {p q : List Name}

/-! ## Publishing files -/

/-- A file is copied to its place where no directory is there. -/
theorem publish_files (done : publish attempt t p = some t') (free : t.get p ≠ some .dir) :
    (∀ q, t'.fileAt q = if q = p then attempt.fileAt p else t.fileAt q) ∧
      ∀ q, t'.get q = some .dir → t.get q = some .dir ∨ q <+: p.dropLast := by
  obtain ⟨c, file, done⟩ := Option.bind_eq_some_iff.1 done
  obtain ⟨t₁, made, done⟩ := Option.bind_eq_some_iff.1 done
  have ne : p ≠ [] := by
    rintro rfl
    exact free t.get_nil
  have deeper : ¬ p <+: p.dropLast := fun pre => by
    have short := pre.length_le
    rw [List.length_dropLast] at short
    have := List.length_pos_of_ne_nil ne
    omega
  have nodir : t₁.get p ≠ some .dir := by
    rw [FileTree.get_mkdirs made, if_neg deeper]
    exact free
  have copied : t₁.put p (.file c) = some t' := by
    have done : copy2 t₁ p c = some t' := done
    rw [copy2, if_neg nodir] at done
    exact done
  constructor
  · intro q
    rw [FileTree.fileAt_put copied, FileTree.fileAt_mkdirs made, file]
  · intro q dir
    rw [FileTree.get_put copied] at dir
    split at dir
    · cases dir
    rw [FileTree.get_mkdirs made] at dir
    split at dir
    next pre => exact .inr pre
    · exact .inl dir

/-- A file is in nobody's place. -/
theorem file_not_above {c c' : List UInt8} (file : t.fileAt p = some c)
    (pre : q <+: p.dropLast) : t.fileAt q ≠ some c' := by
  intro there
  rw [FileTree.fileAt, above_file file pre] at there
  cases there

/-- So are all files. -/
theorem publishAll_files {ps : List (List Name)}
    (done : ps.foldlM (publish attempt) t = some t')
    (files : ∀ p ∈ ps, ∃ c, attempt.fileAt p = some c)
    (free : ∀ p ∈ ps, t.get p ≠ some .dir) :
    ∀ q, t'.fileAt q = if q ∈ ps then attempt.fileAt q else t.fileAt q := by
  induction ps generalizing t with
  | nil =>
      cases done
      exact fun q => (if_neg List.not_mem_nil).symm
  | cons p ps ih =>
      rw [List.foldlM_cons] at done
      obtain ⟨t₁, first, rest⟩ := Option.bind_eq_some_iff.1 done
      obtain ⟨here, dirs⟩ := publish_files first (free p List.mem_cons_self)
      have free' : ∀ q ∈ ps, t₁.get q ≠ some .dir := by
        intro q hq dir
        rcases dirs q dir with old | above
        · exact free q (List.mem_cons_of_mem p hq) old
        · obtain ⟨c, file⟩ := files p List.mem_cons_self
          obtain ⟨c', file'⟩ := files q (List.mem_cons_of_mem p hq)
          exact file_not_above file above file'
      intro q
      rw [ih rest (fun q hq => files q (List.mem_cons_of_mem p hq)) free', here]
      by_cases same : q = p
      · simp [same]
      · simp [same]

/-- A file can be copied where no directory is in its place, and no file above it. -/
theorem publish_isSome {c : List UInt8} (file : attempt.fileAt p = some c)
    (free : t.get p ≠ some .dir) (above : ∀ q, q <+: p.dropLast → ∀ c, t.fileAt q ≠ some c) :
    ∃ t', publish attempt t p = some t' := by
  obtain ⟨t₁, made⟩ := FileTree.mkdirs_isSome fun q pre c there =>
    above q pre c (FileTree.fileAt_eq_some.2 there)
  have ne : p ≠ [] := by
    rintro rfl
    exact free t.get_nil
  have deeper : ¬ p <+: p.dropLast := fun pre => by
    have short := pre.length_le
    rw [List.length_dropLast] at short
    have := List.length_pos_of_ne_nil ne
    omega
  have nodir : t₁.get p ≠ some .dir := by
    rw [FileTree.get_mkdirs made, if_neg deeper]
    exact free
  have parent : t₁.get p.dropLast = some .dir := by
    rw [FileTree.get_mkdirs made, if_pos (List.prefix_refl _)]
  obtain ⟨t', copied⟩ := FileTree.put_isSome ⟨ne, parent, nodir⟩ (.file c)
  refine ⟨t', ?_⟩
  rw [publish, file, Option.bind_eq_bind, Option.bind_some, made, Option.bind_eq_bind,
    Option.bind_some, copy2, if_neg nodir, copied]

/-- So can all files, and directories are only made above them. -/
theorem publishAll_isSome {ps : List (List Name)}
    (files : ∀ p ∈ ps, ∃ c, attempt.fileAt p = some c) (free : ∀ p ∈ ps, t.get p ≠ some .dir)
    (above : ∀ p ∈ ps, ∀ q, q <+: p.dropLast → ∀ c, t.fileAt q ≠ some c) :
    ∃ t', ps.foldlM (publish attempt) t = some t' ∧
      ∀ q, t'.get q = some .dir → t.get q = some .dir ∨ ∃ p ∈ ps, q <+: p.dropLast := by
  induction ps generalizing t with
  | nil => exact ⟨t, rfl, fun q => .inl⟩
  | cons p ps ih =>
      obtain ⟨c, file⟩ := files p List.mem_cons_self
      obtain ⟨t₁, copied⟩ := publish_isSome file (free p List.mem_cons_self)
        (above p List.mem_cons_self)
      obtain ⟨here, dirs⟩ := publish_files copied (free p List.mem_cons_self)
      have free' : ∀ q ∈ ps, t₁.get q ≠ some .dir := by
        intro q hq dir
        rcases dirs q dir with old | pre
        · exact free q (List.mem_cons_of_mem p hq) old
        · obtain ⟨c', file'⟩ := files q (List.mem_cons_of_mem p hq)
          exact file_not_above file pre file'
      have above' : ∀ r ∈ ps, ∀ q, q <+: r.dropLast → ∀ c, t₁.fileAt q ≠ some c := by
        intro r hr q pre c' there
        rw [here] at there
        split at there
        next same =>
          obtain ⟨c'', file'⟩ := files r (List.mem_cons_of_mem p hr)
          exact file_not_above file' (same ▸ pre) file
        · exact above r (List.mem_cons_of_mem p hr) q pre c' there
      obtain ⟨t', rest, dirs'⟩ := ih (fun q hq => files q (List.mem_cons_of_mem p hq)) free' above'
      refine ⟨t', ?_, fun q dir => ?_⟩
      · rw [List.foldlM_cons, copied]
        exact rest
      · rcases dirs' q dir with old | ⟨r, hr, pre⟩
        · rcases dirs q old with older | pre
          · exact .inl older
          · exact .inr ⟨p, List.mem_cons_self, pre⟩
        · exact .inr ⟨r, List.mem_cons_of_mem p hr, pre⟩

/-! ## Commits of unbound workspaces -/

/-- The files that a commit removes. -/
theorem removed_files (le : List Name → List Name → Bool) (current attempt : FileTree Name) :
    ∃ t, ((((manifest sha256 current).map Prod.fst).filter fun p =>
        p ∉ (manifest sha256 attempt).map Prod.fst).mergeSort le).foldlM remove current = some t ∧
      (∀ q, t.get q = some .dir → current.get q = some .dir) ∧
      (∀ q, (included q = true → q ∈ (manifest sha256 attempt).map Prod.fst) →
        t.fileAt q = current.fileAt q) ∧
      ∀ q, included q = true → q ∉ (manifest sha256 attempt).map Prod.fst → t.fileAt q = none := by
  set gone := (((manifest sha256 current).map Prod.fst).filter fun p =>
    p ∉ (manifest sha256 attempt).map Prod.fst).mergeSort le with hgone
  have mem_gone : ∀ p, p ∈ gone ↔ p ∈ (manifest sha256 current).map Prod.fst ∧
      p ∉ (manifest sha256 attempt).map Prod.fst := fun p => by
    rw [hgone, List.mem_mergeSort, List.mem_filter, decide_eq_true_eq]
  have distinct : gone.Nodup := (List.mergeSort_perm _ le).nodup_iff.2 (manifest_nodup.filter _)
  obtain ⟨t, removed, get⟩ := get_removes distinct fun p hp =>
    (mem_manifest.1 ((mem_gone p).1 hp).1).2
  refine ⟨t, removed, fun q dir => ?_, fun q kept => ?_, fun q inside other => ?_⟩
  · rw [get] at dir
    split at dir
    · cases dir
    · exact dir
  · refine FileTree.fileAt_congr ?_
    rw [get, if_neg]
    intro there
    obtain ⟨mine, other⟩ := (mem_gone q).1 there
    exact other (kept (mem_manifest.1 mine).1)
  · cases file : t.fileAt q with
    | none => rfl
    | some c =>
        rw [FileTree.fileAt_eq_some, get] at file
        split at file
        · cases file
        next kept =>
          have there : q ∈ (manifest sha256 current).map Prod.fst :=
            mem_manifest.2 ⟨inside, c, FileTree.fileAt_eq_some.2 file⟩
          exact absurd ((mem_gone q).2 ⟨there, other⟩) kept

/-- Nothing is in the way of the files of an attempt. -/
def Clear (current attempt : FileTree Name) : Prop :=
  ∀ p c, attempt.fileAt p = some c → included p = true → current.get p ≠ some .dir

instance (current attempt : FileTree Name) : Decidable (Clear current attempt) :=
  decidable_of_iff (∀ f ∈ attempt.files, included f.1 = true → current.get f.1 ≠ some .dir) <| by
    constructor
    · intro all p c file
      exact all (p, c) (FileTree.mem_files.2 file)
    · intro clear f hf
      exact clear f.1 f.2 (FileTree.mem_files.1 hf)

/-- What a commit that goes through writes and returns. -/
theorem commitAttempt_manifest {r : Published}
    (done : commitAttempt sha256 le current attempt revisionId = some r) :
    r.commit.manifestRef = .publishedManifest ∧ r.commit.storageRef = .published ∧
    ∃ members, manifestMembers (manifest sha256 attempt) = some members ∧
      r.current.fileAt [manifestName] = some (utf8 (manifestJson members 1).spaced) ∧
      r.commit.manifestDigest = sha256 (utf8 (manifestJson members 1).spaced) := by
  obtain ⟨t₁, -, done⟩ := Option.bind_eq_some_iff.1 done
  obtain ⟨t₂, -, done⟩ := Option.bind_eq_some_iff.1 done
  obtain ⟨⟨t₃, d⟩, written, done⟩ := Option.bind_eq_some_iff.1 done
  cases done
  obtain ⟨members, named, written⟩ := Option.bind_eq_some_iff.1 written
  obtain ⟨t₃', put, same⟩ := Option.bind_eq_some_iff.1 written
  cases same
  refine ⟨rfl, rfl, members, named, ?_, rfl⟩
  rw [FileTree.fileAt_put put, if_pos rfl]

/-- What a commit that goes through publishes, where nothing is in the way. -/
theorem commitAttempt_publishes {r : Published}
    (done : commitAttempt sha256 le current attempt revisionId = some r)
    (clear : Clear current attempt) :
    ∀ p, (manifest sha256 r.current).lookup p = (manifest sha256 attempt).lookup p := by
  obtain ⟨t₀, gone, dirs, kept, none_⟩ := @removed_files sha256 le current attempt
  obtain ⟨t₁, removed, done⟩ := Option.bind_eq_some_iff.1 done
  obtain ⟨t₂, published, done⟩ := Option.bind_eq_some_iff.1 done
  obtain ⟨⟨t₃, d⟩, written, done⟩ := Option.bind_eq_some_iff.1 done
  cases done
  cases gone.symm.trans removed
  obtain ⟨members, -, written⟩ := Option.bind_eq_some_iff.1 written
  obtain ⟨t₃', put, same⟩ := Option.bind_eq_some_iff.1 written
  cases same
  have mem : ∀ p, p ∈ ((manifest sha256 attempt).map Prod.fst).mergeSort le ↔
      p ∈ (manifest sha256 attempt).map Prod.fst := fun p => List.mem_mergeSort
  have files := publishAll_files published
    (fun p hp => (mem_manifest.1 ((mem p).1 hp)).2) (fun p hp dir => by
      obtain ⟨inside, c, file⟩ := mem_manifest.1 ((mem p).1 hp)
      exact clear p c file inside (dirs p dir))
  intro p
  rw [manifest_lookup, manifest_lookup]
  split
  next inside =>
    have other : p ≠ [manifestName] := by
      rintro rfl
      revert inside
      decide
    rw [FileTree.fileAt_put put, if_neg other, files]
    split
    · rfl
    next absent =>
      rw [mem] at absent
      rw [none_ p inside absent]
      cases file : attempt.fileAt p with
      | none => rfl
      | some c => exact absurd (mem_manifest.2 ⟨inside, c, file⟩) absent
  · rfl

/-- The same files, with the same digests. -/
def Same (m m' : List (List Name × String)) : Prop := ∀ p, m.lookup p = m'.lookup p

instance (m m' : List (List Name × String)) : Decidable (Same m m') :=
  decidable_of_iff (∀ p ∈ (m ++ m').map Prod.fst, m.lookup p = m'.lookup p) <| by
    constructor
    · intro all p
      by_contra differ
      refine differ (all p ?_)
      rw [List.map_append, List.mem_append]
      by_cases there : m.lookup p = none
      · exact .inr (lookup_isSome fun none => differ (there.trans none.symm))
      · exact .inl (lookup_isSome there)
    · intro same p _
      exact same p

/-- Files that are there already, with the same digests, are in nobody's way. -/
theorem Same.clear (h : Same (manifest sha256 current) (manifest sha256 attempt)) :
    Clear current attempt := by
  intro p c file inside dir
  have here := h p
  rw [manifest_lookup, manifest_lookup, if_pos inside, if_pos inside, file, FileTree.fileAt,
    dir] at here
  cases here

/-- An attempt can be published: nothing is in the way of its files and of the manifest, and all
its paths can be written. -/
structure Publishable (current attempt : FileTree Name) : Prop where
  clear : Clear current attempt
  named : ∀ p c, attempt.fileAt p = some c → included p = true → (pathText p).isSome
  /-- No directory is called like a manifest at the top, ... -/
  head : ∀ p c, attempt.fileAt p = some c → included p = true → p.head? ≠ some manifestName
  /-- ... or where there is such a file. -/
  above : ∀ p c, attempt.fileAt p = some c → included p = true → ∀ q, q <+: p.dropLast →
    q.getLast? = some manifestName → ∀ c, current.fileAt q ≠ some c
  top : current.get [manifestName] ≠ some .dir

/-- What is above a file that is listed is listed itself, or called like a manifest. -/
theorem included_above {c : List UInt8} (inside : included p = true) (pre : q <+: p.dropLast)
    (file : t.fileAt q = some c) (other : included q = false) : q.getLast? = some manifestName := by
  have ne : q ≠ [] := by
    rintro rfl
    rw [FileTree.fileAt, FileTree.get_nil] at file
    cases file
  have same : q.head? = p.head? := by
    obtain ⟨s, hs⟩ := pre.trans (List.dropLast_prefix p)
    rw [← hs, List.head?_append, Option.or_of_isSome]
    exact List.isSome_head?.2 ne
  rw [included, Bool.and_eq_true, decide_eq_true_eq, decide_eq_true_eq] at inside
  by_contra last
  rw [included, same, decide_eq_true inside.1, Bool.true_and, decide_eq_false_iff_not,
    not_not] at other
  exact last other

/-- Such an attempt is published. -/
theorem Publishable.goes (h : Publishable current attempt) (sha256 : List UInt8 → String)
    (le : List Name → List Name → Bool) (revisionId : String) :
    ∃ r, commitAttempt sha256 le current attempt revisionId = some r := by
  obtain ⟨t₁, removed, dirs, kept, none_⟩ := @removed_files sha256 le current attempt
  have mem : ∀ p, p ∈ ((manifest sha256 attempt).map Prod.fst).mergeSort le ↔
      p ∈ (manifest sha256 attempt).map Prod.fst := fun p => List.mem_mergeSort
  have listed : ∀ p ∈ ((manifest sha256 attempt).map Prod.fst).mergeSort le,
      included p = true ∧ ∃ c, attempt.fileAt p = some c := fun p hp => mem_manifest.1 ((mem p).1 hp)
  have above : ∀ p ∈ ((manifest sha256 attempt).map Prod.fst).mergeSort le, ∀ q, q <+: p.dropLast →
      ∀ c, t₁.fileAt q ≠ some c := by
    intro p hp q pre c there
    obtain ⟨inside, c', file⟩ := listed p hp
    have own : q ∉ (manifest sha256 attempt).map Prod.fst := fun hq => by
      obtain ⟨-, c'', file'⟩ := mem_manifest.1 hq
      exact file_not_above file pre file'
    cases other : included q with
    | true =>
        rw [none_ q other own] at there
        cases there
    | false =>
        have last := included_above inside pre there other
        rw [kept q fun listed => absurd (other.symm.trans listed) nofun] at there
        exact h.above p c' file inside q pre last c there
  obtain ⟨t₂, published, dirs'⟩ := publishAll_isSome (fun p hp => (listed p hp).2)
    (fun p hp dir => by
      obtain ⟨inside, c, file⟩ := listed p hp
      exact h.clear p c file inside (dirs p dir)) above
  have members : (manifestMembers (manifest sha256 attempt)).isSome := by
    refine manifestMembers_isSome.2 fun f hf => ?_
    obtain ⟨inside, c, file⟩ := mem_manifest.1 (List.mem_map_of_mem hf)
    exact h.named f.1 c file inside
  obtain ⟨members, written⟩ := Option.isSome_iff_exists.1 members
  have place : t₂.get [manifestName] ≠ some .dir := by
    intro dir
    rcases dirs' _ dir with old | ⟨p, hp, pre⟩
    · exact h.top (dirs _ old)
    · obtain ⟨inside, c, file⟩ := listed p hp
      obtain ⟨s, hs⟩ := pre.trans (List.dropLast_prefix p)
      refine h.head p c file inside ?_
      rw [← hs]
      rfl
  obtain ⟨t₃, put⟩ := FileTree.put_isSome (t := t₂) (p := [manifestName])
    ⟨List.cons_ne_nil _ _, t₂.get_nil, place⟩ (.file (utf8 (manifestJson members 1).spaced))
  rw [← Option.isSome_iff_exists]
  dsimp only [commitAttempt]
  rw [removed, Option.bind_eq_bind, Option.bind_some, published, Option.bind_eq_bind,
    Option.bind_some, writeManifest, written, Option.bind_eq_bind, Option.bind_some]
  dsimp only
  rw [put]
  rfl

/-- Files that are there can be published again, where there is a manifest to write over. -/
theorem Same.publishable (h : Same (manifest sha256 current) (manifest sha256 attempt))
    (named : (manifestMembers (manifest sha256 attempt)).isSome) {b : List UInt8}
    (old : current.fileAt [manifestName] = some b) : Publishable current attempt := by
  have there : ∀ p c, attempt.fileAt p = some c → included p = true →
      ∃ c, current.fileAt p = some c := by
    intro p c file inside
    have here := h p
    rw [manifest_lookup, manifest_lookup, if_pos inside, if_pos inside, file] at here
    obtain ⟨c', file', -⟩ := Option.map_eq_some_iff.1 here
    exact ⟨c', file'⟩
  refine ⟨h.clear, fun p c file inside => ?_, fun p c file inside head => ?_,
    fun p c file inside q pre _ c' => ?_, ?_⟩
  · have listed : p ∈ (manifest sha256 attempt).map Prod.fst := mem_manifest.2 ⟨inside, c, file⟩
    obtain ⟨f, hf, rfl⟩ := List.mem_map.1 listed
    exact manifestMembers_isSome.1 named f hf
  · obtain ⟨c', file'⟩ := there p c file inside
    obtain ⟨s, rfl⟩ := List.head?_eq_some_iff.1 head
    have deeper : s ≠ [] := by
      rintro rfl
      revert inside
      decide
    refine file_not_above file' ?_ old
    rw [List.dropLast_cons_of_ne_nil deeper]
    exact ⟨s.dropLast, rfl⟩
  · obtain ⟨c'', file'⟩ := there p c file inside
    exact file_not_above file' pre
  · rw [FileTree.fileAt_eq_some.1 old]
    intro dir
    cases dir

end CodeForge.Files

namespace CodeForge.Files

open Lib

/-! ## The text of a manifest -/

variable {sha256 : List UInt8 → String} {numerals : Json.Numerals}
  {m m' : List (List Name × String)} {members members' : List (String × String)}

theorem Same.symm (h : Same m m') : Same m' m := fun p => (h p).symm

theorem Same.trans {m'' : List (List Name × String)} (h : Same m m') (h' : Same m' m'') :
    Same m m'' := fun p => (h p).trans (h' p)

/-- Manifests of the same files can be written, or not, together. -/
theorem Same.named (h : Same m m') (nodup : (m.map Prod.fst).Nodup)
    (nodup' : (m'.map Prod.fst).Nodup) (named : (manifestMembers m).isSome) :
    (manifestMembers m').isSome := by
  rw [manifestMembers_isSome] at named ⊢
  intro f hf
  refine named f ((lookup_eq_some nodup).1 ?_)
  rw [h]
  exact (lookup_eq_some nodup').2 hf

/-- Manifests of the same files are written as the same text. -/
theorem Same.text (h : Same m m') (nodup : (m.map Prod.fst).Nodup)
    (nodup' : (m'.map Prod.fst).Nodup) (written : manifestMembers m = some members)
    (written' : manifestMembers m' = some members') (comma colon : String) (version : Nat) :
    (manifestJson members version).dumps comma colon =
      (manifestJson members' version).dumps comma colon := by
  have keys := members_nodup nodup written
  have keys' := members_nodup nodup' written'
  have perm : members.Perm members' := by
    rw [List.perm_ext_iff_of_nodup keys.of_map keys'.of_map]
    rintro ⟨k, d⟩
    rw [mem_members written, mem_members written']
    refine exists_congr fun p => and_congr_right fun _ => ?_
    rw [← lookup_eq_some nodup, ← lookup_eq_some nodup', h]
  have inner : (Json.obj (members.map fun f => (f.1, Json.str f.2))).sorted =
      (Json.obj (members'.map fun f => (f.1, Json.str f.2))).sorted := by
    rw [Json.sorted_obj_iff (by rw [List.map_map]; exact keys)]
    exact (perm.map _).map _
  have outer : (manifestJson members version).sorted = (manifestJson members' version).sorted := by
    rw [manifestJson, manifestJson, Json.sorted_obj_iff (by simp)]
    simp only [List.map_cons, List.map_nil, Json.sortedMember, inner]
    exact List.Perm.refl _
  rw [← Json.dumps_sorted, outer, Json.dumps_sorted]

/-- Manifests that are written as the same text are of the same files. -/
theorem same_of_text (nodup : (m.map Prod.fst).Nodup) (nodup' : (m'.map Prod.fst).Nodup)
    (written : manifestMembers m = some members) (written' : manifestMembers m' = some members')
    {comma colon : String} (sep : Json.Separators comma colon) {version : Nat}
    (text : (manifestJson members version).dumps comma colon =
      (manifestJson members' version).dumps comma colon) : Same m m' := by
  obtain ⟨files, loaded, lookup⟩ := @loadManifest_written .plain _ _ sep _
    (members_nodup nodup written) version
  obtain ⟨files', loaded', lookup'⟩ := @loadManifest_written .plain _ _ sep _
    (members_nodup nodup' written') version
  rw [text, loaded'] at loaded
  cases loaded
  intro p
  have strings : Function.Injective (Option.map Json.str) :=
    Option.map_injective fun _ _ => Json.str.inj
  cases named : pathText p with
  | some k =>
      rw [← members_lookup nodup written named, ← members_lookup nodup' written' named]
      exact strings ((lookup k).symm.trans (lookup' k))
  | none =>
      have absent : ∀ {m members}, manifestMembers m = some members → m.lookup p = none := by
        intro m members written
        by_contra there
        obtain ⟨f, hf, rfl⟩ := List.mem_map.1 (lookup_isSome there)
        have text := manifestMembers_isSome.1 (by rw [written]; rfl) f hf
        rw [named] at text
        cases text
      rw [absent written, absent written']

/-- The file is a manifest that lists the files of the tree with their digests, and nothing else. -/
def Lists (sha256 : List UInt8 → String) (numerals : Json.Numerals) (file : List UInt8)
    (t : FileTree Name) : Prop :=
  ∃ files members, loadManifest numerals (some file) = .ok files ∧
    manifestMembers (manifest sha256 t) = some members ∧
    ∀ k, files.lookup k = (members.lookup k).map .str

/-- A manifest of the same files lists them. -/
theorem Same.lists {t : FileTree Name} (h : Same m (manifest sha256 t))
    (nodup : (m.map Prod.fst).Nodup) (written : manifestMembers m = some members)
    {comma colon : String} (sep : Json.Separators comma colon) (version : Nat) :
    Lists sha256 numerals (utf8 ((manifestJson members version).dumps comma colon)) t := by
  obtain ⟨members', written'⟩ := Option.isSome_iff_exists.1
    (h.named nodup manifest_nodup (by rw [written]; rfl))
  obtain ⟨files, loaded, lookup⟩ := @loadManifest_written numerals _ _ sep _
    (members_nodup manifest_nodup written') version
  rw [h.text nodup manifest_nodup written written']
  exact ⟨files, members', loaded, written', lookup⟩

end CodeForge.Files

namespace CodeForge

open Lib Files

/-! ## The world of a runtime -/

/-- Where the workspaces are, and what the interpreter around them does. -/
structure Setting where
  deployment : Deployment
  /-- The root of workspaces without a project. -/
  root : String
  /-- The order of paths. -/
  le : List Name → List Name → Bool
  /-- The order of texts. -/
  leText : String → String → Bool
  numerals : Json.Numerals

/-- Where a workspace has its files. -/
inductive Home where
  /-- `current/<workspace_id>` -/
  | unbound (workspaceId : Uuid)
  /-- The project of a user, by its path. -/
  | bound (projectPath : String)
deriving DecidableEq

/-- What `commit_attempt` returned, and the manifest it was made of. -/
structure Returned where
  home : Home
  revisionId : String
  manifestDigest : String
  manifestRef : Location
  storageRef : Location
  listing : List (List Name × String)
deriving DecidableEq

/-- The text of a place of a workspace. -/
def Location.text (S : Setting) : Home → Location → String
  | .unbound id, .published => s!"{S.root}/current/{S.deployment.uuidText id}"
  | .unbound id, .publishedManifest =>
      s!"{S.root}/current/{S.deployment.uuidText id}/.forge-manifest.json"
  | .unbound id, .revision r => s!"{S.root}/revisions/{S.deployment.uuidText id}/{r}"
  | .unbound id, .manifest r =>
      s!"{S.root}/current/{S.deployment.uuidText id}/.forge/manifests/{r}.json"
  | .bound path, .published => path
  | .bound path, .publishedManifest => s!"{path}/.forge/manifests/current.json"
  | .bound path, .revision r => s!"{path}/.forge/revisions/{r}"
  | .bound path, .manifest r => s!"{path}/.forge/manifests/{r}.json"

/-- What the harness records of it. -/
def Returned.toCommit (S : Setting) (c : Returned) : WorkspaceCommit where
  revisionId := c.revisionId
  manifestDigest := c.manifestDigest
  manifestRef := Location.text S c.home c.manifestRef
  storageRef := Location.text S c.home c.storageRef

/-- The store and the files of all workspaces. -/
structure World where
  store : Store
  /-- The published trees of workspaces without a project. -/
  published : Uuid → FileTree Name
  /-- What is in `.forge` of the projects, by their paths. -/
  projects : String → Metadata
  /-- The commits that are still to be recorded. -/
  pending : List Returned
  /-- The commits that were recorded, in the order they were. -/
  recorded : List Returned

/-- What can happen. -/
inductive Action where
  /-- A tool without a project has worked on a copy.  If the commit raises it leaves some tree. -/
  | commit (workspaceId : Uuid) (attempt : FileTree Name) (revisionId : String)
      (left : FileTree Name)
  /-- A tool has worked in a project. -/
  | commitProject (projectPath : String) (project : FileTree Name) (revisionId : String)
  /-- `record_workspace_revision` -/
  | record (c : Returned) (scopeId : String) (workspaceId attemptId : Uuid) (epoch : Nat)
      (actor : String)
  /-- Another call of the store. -/
  | call (op : Op)
  /-- The process is killed. -/
  | crash

variable (S : Setting)

/-- The commit of an unbound workspace. -/
def Returned.ofPublished (workspaceId : Uuid) (attempt : FileTree Name)
    (commit : Files.WorkspaceCommit (List Name)) : Returned where
  home := .unbound workspaceId
  revisionId := commit.revisionId
  manifestDigest := commit.manifestDigest
  manifestRef := commit.manifestRef
  storageRef := commit.storageRef
  listing := manifest S.deployment.sha256 attempt

/-- The commit of a project. -/
def Returned.ofProject (projectPath : String) (project : FileTree Name)
    (commit : Files.WorkspaceCommit String) : Returned where
  home := .bound projectPath
  revisionId := commit.revisionId
  manifestDigest := commit.manifestDigest
  manifestRef := commit.manifestRef
  storageRef := commit.storageRef
  listing := manifest S.deployment.sha256 project

namespace World

/-- What `commit_attempt` does to an unbound workspace, none if it raises. -/
def attempted (w : World) (workspaceId : Uuid) (attempt : FileTree Name) (revisionId : String) :
    Option Published :=
  commitAttempt S.deployment.sha256 S.le (w.published workspaceId) attempt revisionId

/-- What `commit_attempt` does to a project. -/
def attemptedProject (w : World) (projectPath : String) (project : FileTree Name)
    (revisionId : String) : Metadata × Except CommitError (Files.WorkspaceCommit String) :=
  commitBoundProject S.deployment.sha256 S.leText S.numerals (w.projects projectPath) project
    revisionId

/-- What an action does. -/
def act (w : World) : Action → World
  | .commit workspaceId attempt revisionId left =>
      match w.attempted S workspaceId attempt revisionId with
      | some r =>
          { w with
            published := Function.update w.published workspaceId r.current
            pending := w.pending ++ [.ofPublished S workspaceId attempt r.commit] }
      | none => { w with published := Function.update w.published workspaceId left }
  | .commitProject projectPath project revisionId =>
      match w.attemptedProject S projectPath project revisionId with
      | (m, .ok commit) =>
          { w with
            projects := Function.update w.projects projectPath m
            pending := w.pending ++ [.ofProject S projectPath project commit] }
      | (m, .error _) => { w with projects := Function.update w.projects projectPath m }
  | .record c scopeId workspaceId attemptId epoch actor =>
      match recordWorkspaceRevision S.deployment scopeId workspaceId attemptId epoch
        (c.toCommit S) actor w.store with
      | .ok _ store =>
          { w with store, pending := w.pending.erase c, recorded := w.recorded ++ [c] }
      | .error _ store => { w with store, pending := w.pending.erase c }
  | .call op => { w with store := op.exec S.deployment w.store }
  | .crash => { w with pending := [] }

/-- What is recorded was committed, and only by this call. -/
def Possible (w : World) : Action → Prop
  | .record c _ _ _ _ _ => c ∈ w.pending
  | .call op => op.records = false
  | _ => True

/-- The file that a commit names as its manifest. -/
def manifestFile (w : World) (c : Returned) : Option (List UInt8) :=
  match c.home, c.manifestRef with
  | .unbound id, .publishedManifest => (w.published id).fileAt [manifestName]
  | .bound path, .manifest r => (w.projects path).manifests r
  | _, _ => none

/-- The tree that a commit names as its storage. -/
def storedTree (w : World) (c : Returned) : Option (FileTree Name) :=
  match c.home, c.storageRef with
  | .unbound id, .published => some (w.published id)
  | .bound path, .revision r => (w.projects path).revisions r
  | _, _ => none

end World

end CodeForge
