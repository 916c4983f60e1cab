import CodeForge.Skills.Dependencies

/-!
# Where skills are read

A skill root is a package or a directory of packages, and only its direct
children are looked at.  A name is joined to a root as a path, though, and
nothing asks whether it is the name of a child: `..`, a path of several parts or
an absolute one leads elsewhere.  Such a name may stand in the request, and in the
frontmatter of a package.

`snapshot_confined_iff` says that a snapshot has packages of the roots only where
every name that is reached is `Plain`, or leads back to a root or a child of one.
-/

namespace CodeForge.Skills

open Lib
open Files (Name)

namespace Resolver

section Origin

variable (R : Resolver)

/-- The directory a name is read from in a root. -/
def dirIn (name : String) (root : Root) : Option SkillDir :=
  match (locate R.tree root.path).filter (isPackage R.tree) with
  | some place => some ⟨place, some (nameOf root.path)⟩
  | none =>
      let path := root.path.join (.parse name)
      ((locate R.tree path).filter fun place => R.tree.get place = some .dir).map fun place =>
        ⟨place, some (nameOf path)⟩

/-- The directory a name is read from: in the first root that has it. -/
def origin (name : String) : List Root → Option (Root × SkillDir)
  | [] => none
  | root :: roots =>
      match R.lookIn name root with
      | .ok (some _) => (R.dirIn name root).map (root, ·)
      | .ok none => origin name roots
      | .error _ => none

/-- A root, or a direct child of one. -/
def AtRoots (roots : List Root) (place : List Name) : Prop :=
  ∃ root ∈ roots, ∃ top, locate R.tree root.path = some top ∧
    (place = top ∨ ∃ child, place = top ++ [child])

/-- Every skill of a snapshot is read from a root or a direct child of one, and nothing else is
stored. -/
def Confined (request : RunRequest) (bundles : String → Option Bundle) : Prop :=
  ∀ done, R.resolveAndStore request bundles = .ok done →
    ∃ ts, R.taken request = .ok ts ∧ R.Tells request bundles done ts ∧
      ∀ t ∈ ts, ∃ root dir, R.origin t.1 (R.rootsOf request) = some (root, dir) ∧
        R.read root dir = .ok t.2 ∧ R.AtRoots (R.rootsOf request) dir.place

/-- The name is one component that does not lead upwards. -/
def Plain (name : String) : Prop :=
  (PurePath.parse name).absolute = false ∧ (PurePath.parse name).parts.length ≤ 1 ∧
    (PurePath.parse name).Normal

/-- The name leads back to a root, or a direct child of one. -/
def Returns (roots : List Root) (name : String) : Prop :=
  ∀ root dir, R.origin name roots = some (root, dir) → R.AtRoots roots dir.place

/-- No name that is reached leads away from the roots. -/
def Stays (request : RunRequest) : Prop :=
  ∀ name, R.Wants request name → Plain name ∨ R.Returns (R.rootsOf request) name

/-- Packages that declare one name and one version are in one directory. -/
def Placed (request : RunRequest) : Prop :=
  ∀ name name' f f' d d', R.Wants request name → R.Wants request name' →
    R.lookup name (R.rootsOf request) = .ok f → R.lookup name' (R.rootsOf request) = .ok f' →
    R.origin name (R.rootsOf request) = some d → R.origin name' (R.rootsOf request) = some d' →
    f.name = f'.name → f.version = f'.version → d.2.place = d'.2.place

end Origin

variable {R : Resolver} {roots : List Root} {request : RunRequest} {name : String} {root : Root}
  {dir : SkillDir} {f g : Found} {bundles : String → Option Bundle}

/-! ## Paths -/

theorem walk_append {t : FileTree Name} {ps qs : List String} (hp : ∀ c ∈ ps, IsComponent c)
    (hq : ∀ c ∈ qs, IsComponent c) (both : ∀ c ∈ ps ++ qs, IsComponent c) (place : List Name) :
    walk t place (ps ++ qs) both = (walk t place ps hp).bind fun p => walk t p qs hq := by
  induction ps generalizing place with
  | nil => rfl
  | cons c ps ih =>
      show walk t place (c :: (ps ++ qs)) both = _
      rw [walk, walk]
      split
      · exact ih _ _ _
      · rfl

theorem locate_join {p q : PurePath} {t : FileTree Name} (relative : q.absolute = false) :
    locate t (p.join q) = (locate t p).bind fun place => walk t place q.parts q.valid := by
  obtain ⟨absolute, parts, valid⟩ := q
  cases relative
  exact walk_append p.valid valid _ []

theorem walk_plain {t : FileTree Name} {parts : List String} {top place : List Name}
    (valid : ∀ c ∈ parts, IsComponent c) (short : parts.length ≤ 1) (normal : ".." ∉ parts)
    (walked : walk t top parts valid = some place) :
    place = top ∨ ∃ child, place = top ++ [child] := by
  cases parts with
  | nil =>
      cases walked
      exact .inl rfl
  | cons c parts =>
      cases List.length_eq_zero_iff.1 (Nat.le_zero.1 (Nat.le_of_succ_le_succ short))
      have up : c ≠ ".." := fun up => normal (List.mem_singleton.2 up.symm)
      rw [walk, if_neg up] at walked
      split at walked
      · cases walked
        exact .inr ⟨_, rfl⟩
      · cases walked

/-- A plain name leads to a child of the root, or to the root. -/
theorem Plain.atRoots (h : Plain name) (there : root ∈ roots)
    (found : R.dirIn name root = some dir) : R.AtRoots roots dir.place := by
  obtain ⟨relative, short, normal⟩ := h
  unfold dirIn at found
  split at found
  next place package =>
    cases found
    exact ⟨root, there, place, (Option.filter_eq_some_iff.1 package).1, .inl rfl⟩
  · obtain ⟨place, located, rfl⟩ := Option.map_eq_some_iff.1 found
    obtain ⟨located, -⟩ := Option.filter_eq_some_iff.1 located
    rw [locate_join relative] at located
    obtain ⟨top, above, walked⟩ := Option.bind_eq_some_iff.1 located
    exact ⟨root, there, top, above, walk_plain _ short normal walked⟩

/-! ## Origins -/

theorem lookIn_dirIn (h : R.lookIn name root = .ok (some f)) :
    ∃ dir, R.dirIn name root = some dir ∧ R.read root dir = .ok f := by
  rw [lookIn] at h
  rw [dirIn]
  cases package : (locate R.tree root.path).filter (isPackage R.tree) with
  | some place =>
      rw [package] at h
      obtain ⟨f', read, h⟩ := except_bind_eq_ok.1 h
      have h := Except.ok.inj h
      split at h
      · cases h
        exact ⟨_, rfl, read⟩
      · cases h
  | none =>
      rw [package] at h
      dsimp only at h ⊢
      cases located : (locate R.tree (root.path.join (.parse name))).filter
          fun place => R.tree.get place = some .dir with
      | some place =>
          rw [located] at h
          obtain ⟨f', read, h⟩ := except_bind_eq_ok.1 h
          cases h
          exact ⟨_, rfl, read⟩
      | none =>
          rw [located] at h
          cases h

/-- What is looked up is read from its origin, in some root. -/
theorem lookup_origin (h : R.lookup name roots = .ok f) :
    ∃ root ∈ roots, ∃ dir, R.origin name roots = some (root, dir) ∧ R.read root dir = .ok f ∧
      R.dirIn name root = some dir := by
  induction roots with
  | nil => cases h
  | cons root roots ih =>
      rw [lookup] at h
      obtain ⟨o, looked, h⟩ := except_bind_eq_ok.1 h
      rw [origin, looked]
      cases o with
      | none =>
          obtain ⟨root', there, dir, found, read, here⟩ := ih h
          exact ⟨root', List.mem_cons_of_mem _ there, dir, found, read, here⟩
      | some f' =>
          cases h
          obtain ⟨dir, here, read⟩ := lookIn_dirIn looked
          exact ⟨root, List.mem_cons_self, dir, by rw [here]; rfl, read, here⟩

/-- A name that stays leads to a root, or a direct child of one. -/
theorem Stays.atRoots (h : R.Stays request) (wants : R.Wants request name)
    (looked : R.lookup name (R.rootsOf request) = .ok f) :
    ∃ root dir, R.origin name (R.rootsOf request) = some (root, dir) ∧
      R.read root dir = .ok f ∧ R.AtRoots (R.rootsOf request) dir.place := by
  obtain ⟨root, there, dir, found, read, here⟩ := lookup_origin looked
  refine ⟨root, dir, found, read, ?_⟩
  rcases h name wants with plain | back
  · exact plain.atRoots there here
  · exact back root dir found

/-- What is read in one directory is the same, but for a name that is the directory's. -/
theorem readSkill_same {py : Python} {t : FileTree Name} {place : List Name}
    {n n' : Option String} {p p' : Package} (h : readSkill py t place n = .ok p)
    (h' : readSkill py t place n' = .ok p') (name : p.name = p'.name) : p = p' := by
  obtain ⟨bytes, file, h⟩ := except_bind_eq_ok.1 h
  obtain ⟨bytes', file', h'⟩ := except_bind_eq_ok.1 h'
  cases (require_eq_ok.1 file).symm.trans (require_eq_ok.1 file')
  obtain ⟨text, decoded, h⟩ := except_bind_eq_ok.1 h
  obtain ⟨text', decoded', h'⟩ := except_bind_eq_ok.1 h'
  cases (require_eq_ok.1 decoded).symm.trans (require_eq_ok.1 decoded')
  obtain ⟨requires, required, h⟩ := except_bind_eq_ok.1 h
  obtain ⟨requires', required', h'⟩ := except_bind_eq_ok.1 h'
  cases (require_eq_ok.1 required).symm.trans (require_eq_ok.1 required')
  obtain ⟨declared, -, h⟩ := except_bind_eq_ok.1 h
  obtain ⟨declared', -, h'⟩ := except_bind_eq_ok.1 h'
  dsimp only at h h'
  split at h
  · cases h
  split at h'
  · cases h'
  obtain ⟨bundle, made, h⟩ := except_bind_eq_ok.1 h
  obtain ⟨bundle', made', h'⟩ := except_bind_eq_ok.1 h'
  cases (require_eq_ok.1 made).symm.trans (require_eq_ok.1 made')
  cases h
  cases h'
  have name : declared = declared' := name
  rw [name]

theorem read_same {root' : Root} {dir' : SkillDir} (h : R.read root dir = .ok f)
    (h' : R.read root' dir' = .ok g) (place : dir.place = dir'.place) (name : f.name = g.name) :
    f.toPackage = g.toPackage := by
  have there := read_ok h'
  rw [← place] at there
  exact readSkill_same (read_ok h) there name

theorem Placed.unambiguous (h : R.Placed request) : R.Unambiguous request := by
  rintro f g ⟨n, wants, looked⟩ ⟨n', wants', looked'⟩ name version
  obtain ⟨root, -, dir, found, read, -⟩ := lookup_origin looked
  obtain ⟨root', -, dir', found', read', -⟩ := lookup_origin looked'
  exact read_same read read'
    (h n n' f g _ _ wants wants' looked looked' found found' name version) name

/-! ## When a snapshot is of the roots -/

theorem Stays.confined (h : R.Stays request) : R.Confined request bundles := by
  intro done ok
  have steps := resolveAndStore_taken R request bundles
  rw [ok] at steps
  cases taken : R.taken request with
  | error e =>
      rw [taken] at steps
      cases steps
  | ok ts =>
      rw [taken] at steps
      cases steps with
      | ok tells =>
          refine ⟨ts, rfl, tells, fun t ht => ?_⟩
          obtain ⟨binding, reaches, found⟩ := (DepGraph.resolve_ok taken).2.1 t ht
          obtain ⟨name, looked⟩ := graph_find.1 found
          rw [name]
          exact h.atRoots (.of_reaches reaches) (readBindingMeta_ok.1 looked).1

/-- **A snapshot is of the roots** where no name that is reached leads away from them.  If every
package that is declared is in one directory, this is necessary for every request that is not
refused. -/
theorem snapshot_confined_iff (R : Resolver) (request : RunRequest)
    (bundles : String → Option Bundle) :
    (R.Stays request → R.Confined request bundles) ∧
    ∀ done, R.resolveAndStore request bundles = .ok done → R.Placed request →
      (R.Confined request bundles ↔ R.Stays request) := by
  refine ⟨Stays.confined, fun done ok placed => ⟨fun confined name wants => .inr ?_,
    Stays.confined⟩⟩
  obtain ⟨ts, taken, -, inside⟩ := confined done ok
  intro root dir here
  obtain ⟨f, looked, -, t, ht, same, version⟩ := placed.unambiguous.stands taken wants
  obtain ⟨binding, reaches, found⟩ := (DepGraph.resolve_ok taken).2.1 t ht
  obtain ⟨named, there⟩ := graph_find.1 found
  obtain ⟨root', dir', origin, -, atRoots⟩ := inside t ht
  have wants' : R.Wants request t.1 := named ▸ .of_reaches reaches
  have looked' : R.lookup t.1 (R.rootsOf request) = .ok t.2 :=
    named ▸ (readBindingMeta_ok.1 there).1
  have place := placed t.1 name t.2 f _ _ wants' wants looked' looked origin here same version
  exact place ▸ atRoots

private theorem skillsPlace_isComponent : IsComponent "skills" := by decide

private def skillsPlace : Name := .text "skills" skillsPlace_isComponent

private def draftsPlace : Name := .text "drafts" (by decide)

private def privatePlace : Name := .text "private" (by decide)

/-- A package in a skill root that requires one next to the root. -/
private def reaching : Resolver where
  py := ⟨.plain, fun _ => ""⟩
  sha256 := plainDigest
  le _ _ := true
  tree := .build [([skillsPlace], .dir), ([skillsPlace, draftsPlace], .dir), ([privatePlace], .dir),
    ([skillsPlace, draftsPlace, skillMd],
      .file (utf8 "---\nname: drafts\nversion: 1\nrequires: ../private\n---\n")),
    ([privatePlace, skillMd], .file (utf8 "---\nname: private\nversion: 1\n---\n"))]
  skillsRoot := .parse "/skills"
  snapshotRoot := .parse "/snapshots"
  depth := 9

private def draftsRequest : RunRequest where
  sessionId := ⟨0⟩
  input := ""
  context := {}
  skills := [⟨"drafts", none⟩]

/-- A package next to a skill root is stored. -/
theorem snapshot_not_confined : ∃ (R : Resolver) (request : RunRequest),
    ¬R.Confined request fun _ => none := by
  refine ⟨reaching, draftsRequest, fun confined => ?_⟩
  have accepted : (reaching.resolveAndStore draftsRequest fun _ => none).toOption.isSome = true :=
    by decide +kernel
  obtain ⟨done, ok⟩ := Option.isSome_iff_exists.1 accepted
  cases resolved : reaching.resolveAndStore draftsRequest fun _ => none with
  | error e =>
      rw [resolved] at ok
      cases ok
  | ok done =>
      obtain ⟨ts, taken, -, inside⟩ := confined done resolved
      have there : (reaching.taken draftsRequest).toOption.any
          (fun ts => ts.any fun t => t.1 = "../private") = true := by decide +kernel
      rw [taken] at there
      obtain ⟨t, ht, name⟩ := List.any_eq_true.1 there
      obtain ⟨root, dir, origin, -, root', hr, top, located, place⟩ := inside t ht
      rw [of_decide_eq_true name] at origin
      have read : (reaching.origin "../private" (reaching.rootsOf draftsRequest)).map
          (fun d => d.2.place) = some [privatePlace] := by decide +kernel
      rw [origin] at read
      cases List.mem_singleton.1 hr
      have above : locate reaching.tree reaching.skillsRoot = some [skillsPlace] := by
        decide +kernel
      cases located.symm.trans above
      have here : dir.place = [privatePlace] := Option.some.inj read
      rw [here] at place
      rcases place with same | ⟨child, same⟩
      · exact absurd same (by decide)
      · have lengths := congrArg List.length same
        simp at lengths

end Resolver

end CodeForge.Skills
