import CodeForge.Skills.Bundles
import CodeForge.Skills.Packages

/-!
# Resolving skills

A request names an ordered list of directories, the skill roots.  A root is a
package, or a directory of packages.  `list_skills` reads the packages of all
roots and keeps the first of every name.

`resolve_and_store` reads the same packages, but takes only the name and the
version of each.  It then looks the name up in the roots again, where a package
of a directory is found by the name of its own directory (`readBindingMeta`).  So
what is listed and what is resolved may differ, and `resolution_agrees_iff` says
when they do not.
-/

namespace CodeForge.Skills

open Lib
open Files (Name)

/-! ## Paths in the tree -/

/-- Where a path leads, component by component. -/
def walk (t : FileTree Name) : (place : List Name) → (parts : List String) →
    (∀ c ∈ parts, IsComponent c) → Option (List Name)
  | place, [], _ => some place
  | place, c :: parts, valid =>
      if t.get place = some .dir then
        walk t
          (if c = ".." then place.dropLast else place ++ [.text c (valid c List.mem_cons_self)])
          parts (List.forall_mem_of_forall_mem_cons valid)
      else none

/-- What an absolute path leads to. -/
def locate (t : FileTree Name) (p : PurePath) : Option (List Name) := walk t [] p.parts p.valid

/-- `(p / "SKILL.md").is_file()` -/
def isPackage (t : FileTree Name) (place : List Name) : Bool :=
  (t.fileAt (place ++ [skillMd])).isSome

/-- `p.name` -/
def nameOf (p : PurePath) : String := p.parts.getLast?.getD ""

/-- The names in a directory. -/
def children (t : FileTree Name) (place : List Name) : List Name :=
  t.entries.keys.filterMap fun p => if p.dropLast = place then p.getLast? else none

/-! ## Roots -/

/-- A skill root, with the kind of source it is. -/
structure Root where
  kind : String
  path : PurePath

/-- `default_skill_path` -/
def defaultSkillPath (binding : UserBinding) : PurePath :=
  ((PurePath.parse binding.userPath).join (.parse "config")).join (.parse "skills")

/-- What the resolver is made with and works on. -/
structure Resolver where
  py : Python
  sha256 : List UInt8 → String
  /-- How directories are sorted. -/
  le : Name → Name → Bool
  tree : FileTree Name
  skillsRoot : PurePath
  snapshotRoot : PurePath
  /-- How deep requirements may be nested. -/
  depth : Nat

namespace Resolver

variable (R : Resolver)

/-- `_skill_roots` -/
def skillRoots (binding : Option UserBinding) (skillPaths : Option (List String)) : List Root :=
  match binding, skillPaths with
  | none, _ => [⟨"LEGACY", R.skillsRoot⟩]
  | some binding, none => [⟨"USER_DEFAULT", defaultSkillPath binding⟩]
  | some _, some paths =>
      paths.map fun path =>
        let root := PurePath.parse path
        let direct := (locate R.tree root).any (isPackage R.tree)
        ⟨if direct then "DIRECT_PACKAGE" else "EXPLICIT", root⟩

/-- A directory of a package, and the name it has by its path. -/
structure SkillDir where
  place : List Name
  name : Option String

/-- `_skill_dirs` -/
def skillDirs (root : PurePath) : List SkillDir :=
  match locate R.tree root with
  | none => []
  | some place =>
      if isPackage R.tree place then [⟨place, some (nameOf root)⟩]
      else
        (((children R.tree place).filter fun n => isPackage R.tree (place ++ [n])).insertionSort
          fun a b => R.le a b).map fun n => ⟨place ++ [n], n.text?⟩

/-- A package, and the root it was found in. -/
structure Found extends Package where
  sourceKind : String
  sourcePath : String
deriving DecidableEq

/-- `_read_skill` of a directory of a root. -/
def read (root : Root) (dir : SkillDir) : Except ResolveError Found := do
  let package ← readSkill R.py R.tree dir.place dir.name
  return { package with sourceKind := root.kind, sourcePath := root.path.render }

/-! ## Listing -/

/-- An item of `list_skills`. -/
structure Item where
  name : String
  version : String
  digest : String
  description : String
  sourcePath : String
  sourceKind : String
deriving DecidableEq, Repr

def item (f : Found) : Item where
  name := f.name
  version := f.version
  digest := f.digest R.sha256
  description := f.description
  sourcePath := f.sourcePath
  sourceKind := f.sourceKind

/-- `_list_root`: packages that are refused are left out. -/
def listRoot (root : Root) : Except ResolveError (List Found) := do
  let items ← (R.skillDirs root.path).mapM fun dir =>
    match R.read root dir with
    | .ok f => .ok [f]
    | .error (.domain _ _) => .ok []
    | .error e => .error e
  return items.flatten

end Resolver

/-- The first of every name, as `setdefault` keeps them. -/
def firsts (fs : List Resolver.Found) : List Resolver.Found :=
  fs.foldl (fun kept f => if kept.any (·.name = f.name) then kept else kept ++ [f]) []

namespace Resolver

variable (R : Resolver)

/-- `list_skills` -/
def listSkills (binding : Option UserBinding) (skillPaths : Option (List String)) :
    Except ResolveError (List Item) := do
  let found ← (R.skillRoots binding skillPaths).mapM R.listRoot
  return ((firsts found.flatten).map R.item).insertionSort fun a b => a.name ≤ b.name

/-! ## Looking up a name -/

/-- A root that is a package is the skill if it has the name, and in any other root the skill is
in the directory of that name. -/
def lookIn (name : String) (root : Root) : Except ResolveError (Option Found) :=
  match (locate R.tree root.path).filter (isPackage R.tree) with
  | some place => do
      let f ← R.read root ⟨place, some (nameOf root.path)⟩
      return if f.name = name then some f else none
  | none =>
      let path := root.path.join (.parse name)
      match (locate R.tree path).filter fun place => R.tree.get place = some .dir with
      | some place => do
          let f ← R.read root ⟨place, some (nameOf path)⟩
          return some f
      | none => return none

/-- The first root that has the skill. -/
def lookup (name : String) : List Root → Except ResolveError Found
  | [] => .error (.domain .skillNotFound s!"Skill not found: {name}")
  | root :: roots => do
      match ← R.lookIn name root with
      | some f => return f
      | none => lookup name roots

/-- `_read_binding_meta` -/
def readBindingMeta (binding : SkillBinding) (roots : List Root) : Except ResolveError Found := do
  let f ← R.lookup binding.name roots
  let version := binding.version.getD ""
  if version ≠ "" ∧ version ≠ f.version then
    throw (.domain .skillIncompatible
      s!"Skill {binding.name} requested {version}, found {f.version}")
  else return f

/-! ## Resolving -/

/-- What resolving has done so far: the skills by their names, and the bundles of the scope by the
names of their directories, where there is something in them. -/
structure Resolved where
  skills : List (String × SkillRef) := []
  bundles : String → Option Bundle

/-- The directory of a digest, for the scope of a user. -/
def bundlePlace (user : Option UserBinding) (digest : String) : String :=
  let root := match user with
    | none => R.snapshotRoot
    | some b => R.snapshotRoot.join (.parse (R.sha256 (utf8 b.scopeId)))
  (root.join (.parse digest)).render

/-- The reference `_store_bundle` returns. -/
def ref (user : Option UserBinding) (f : Found) : SkillRef :=
  { name := f.name
    version := f.version
    digest := f.digest R.sha256
    bundleRef := R.bundlePlace user (f.digest R.sha256)
    sourceKind := f.sourceKind
    sourcePath := f.sourcePath
    userRef := (user.map (·.userRef)).getD ""
    projectRef := (user.map (·.projectRef)).getD "" }

/-- `resolved[name] = _store_bundle(meta)`.  What is in the directory of a digest stays. -/
def store (user : Option UserBinding) (st : Resolved) (f : Found) : Resolved :=
  { skills := st.skills ++ [(f.name, R.ref user f)]
    bundles := fun d =>
      if d = f.digest R.sha256 then (st.bundles d).or (some f.bundle) else st.bundles d }

/-- `_resolve_skill_tree`, with the calls that may still be nested. -/
def resolveTree (user : Option UserBinding) (roots : List Root) :
    Nat → SkillBinding → List String → Resolved → Except ResolveError Resolved
  | 0, _, _, _ => .error .recursion
  | depth + 1, binding, visiting, st => do
      let f ← R.readBindingMeta binding roots
      match st.skills.lookup f.name with
      | some ref =>
          if ref.version ≠ f.version then
            throw (.domain .skillIncompatible
              s!"Skill {f.name} is requested with conflicting versions")
          else return st
      | none =>
          if f.name ∈ visiting then
            throw (.domain .skillIncompatible s!"Skill dependency cycle detected at {f.name}")
          else do
            let st ← f.requires.foldlM (fun st name =>
              resolveTree user roots depth { name } (f.name :: visiting) st) st
            return R.store user st f

/-- The reference of a skill that is from there. -/
def fromSource (r : SkillRef) (f : Found) : SkillRef :=
  { r with sourceKind := f.sourceKind, sourcePath := f.sourcePath }

/-- The skill of that name is from there. -/
def Resolved.relabel (st : Resolved) (f : Found) : Resolved :=
  { st with
    skills := st.skills.map fun s => if s.1 = f.name then (s.1, fromSource s.2 f) else s }

/-- `_path_digest` -/
def pathDigest (user : Option UserBinding) (skillPaths : List String) : String :=
  match user with
  | none => ""
  | some b => R.sha256 (utf8 ("\x00".intercalate (b.userPath :: b.projectPath :: skillPaths)))

/-- `_effective_paths` -/
def effectivePaths (user : Option UserBinding) (skillPaths : Option (List String)) :
    List String × String :=
  match user, skillPaths with
  | none, _ => ([], "LEGACY")
  | some b, none => ([(defaultSkillPath b).render], "USER_DEFAULT")
  | some _, some paths => (paths, "EXPLICIT")

/-- Resolve a package of a root by its name. -/
def resolveScanned (user : Option UserBinding) (roots : List Root) (st : Resolved) (e : Found) :
    Except ResolveError Resolved := do
  let st ← R.resolveTree user roots (R.depth + 1)
    { name := e.name, version := some e.version } [] st
  return st.relabel e

/-- `resolve_and_store`: the bundles afterwards, and the snapshot. -/
def resolveAndStore (request : RunRequest) (bundles : String → Option Bundle) :
    Except ResolveError ((String → Option Bundle) × RunSnapshot) := do
  let user := request.context.userBinding
  let roots := R.skillRoots user request.skillPaths
  let st ← request.skills.foldlM
    (fun st binding => R.resolveTree user roots (R.depth + 1) binding [] st) { bundles }
  let st ←
    if user.isSome ∧ request.skills = [] ∧ request.skillPaths ≠ some [] then
      roots.foldlM (fun st root =>
        (R.skillDirs root.path).foldlM (fun st dir => do
          let e ← R.read root dir
          R.resolveScanned user roots st e) st) st
    else pure st
  let effective := effectivePaths user request.skillPaths
  return (st.bundles,
    { agentDigest := R.sha256 (utf8 request.agentRef)
      runtimeRef := "runtime@local"
      modelProfileRef := "deterministic@local"
      executionProfileRef := "local@1"
      skills := st.skills.map Prod.snd
      toolRefs := ["python", "command", "file_read", "file_write"]
      userBinding := user
      effectiveSkillPaths := effective.1
      skillPathSource := effective.2
      pathDigest := R.pathDigest user effective.1 })

end Resolver

/-! ## First of a name -/

variable {fs : List Resolver.Found} {f : Resolver.Found}

theorem firsts_concat (fs : List Resolver.Found) (f : Resolver.Found) :
    firsts (fs ++ [f]) =
      if (firsts fs).any (·.name = f.name) then firsts fs else firsts fs ++ [f] := by
  rw [firsts, List.foldl_append]
  rfl

theorem mem_of_firsts (h : f ∈ firsts fs) : f ∈ fs := by
  induction fs using List.reverseRecOn with
  | nil => exact h
  | append_singleton fs g ih =>
      rw [firsts_concat] at h
      split at h
      · exact List.mem_append_left _ (ih h)
      · rcases List.mem_append.1 h with old | new
        · exact List.mem_append_left _ (ih old)
        · exact List.mem_append_right _ new

theorem any_name {fs : List Resolver.Found} {n : String} :
    (fs.any fun g => g.name = n) = true ↔ ∃ g ∈ fs, g.name = n := by
  simp only [List.any_eq_true, decide_eq_true_eq]

/-- Every name is kept. -/
theorem firsts_covers (h : f ∈ fs) : ∃ g ∈ firsts fs, g.name = f.name := by
  induction fs using List.reverseRecOn with
  | nil => cases h
  | append_singleton fs g ih =>
      rw [firsts_concat]
      split
      next there =>
        rcases List.mem_append.1 h with old | new
        · exact ih old
        · cases List.mem_singleton.1 new
          exact any_name.1 there
      · rcases List.mem_append.1 h with old | new
        · obtain ⟨g', hg, same⟩ := ih old
          exact ⟨g', List.mem_append_left _ hg, same⟩
        · cases List.mem_singleton.1 new
          exact ⟨f, List.mem_append_right _ List.mem_cons_self, rfl⟩

/-- No name is kept twice. -/
theorem firsts_nodup (fs : List Resolver.Found) : ((firsts fs).map fun g => g.name).Nodup := by
  induction fs using List.reverseRecOn with
  | nil => exact List.nodup_nil
  | append_singleton fs g ih =>
      rw [firsts_concat]
      split
      · exact ih
      next new =>
        rw [List.map_append, List.map_singleton]
        refine List.nodup_append.2 ⟨ih, List.nodup_singleton _, fun n hn m hm same => new ?_⟩
        obtain ⟨g', hg, rfl⟩ := List.mem_map.1 hn
        exact any_name.2 ⟨g', hg, same.trans (List.mem_singleton.1 hm)⟩

theorem firsts_inj {g : Resolver.Found} (hf : f ∈ firsts fs) (hg : g ∈ firsts fs)
    (same : f.name = g.name) : f = g :=
  List.inj_on_of_nodup_map (firsts_nodup fs) hf hg same

namespace Resolver

variable {R : Resolver} {user : Option UserBinding} {roots : List Root}
  {bundles : String → Option Bundle} {zs : List (Found × Found)} {e f g : Found}

/-! ## What resolving comes to

`zs` are the scanned packages, each with what its name was found to be. -/

/-- The packages that are resolved, in order. -/
def found (zs : List (Found × Found)) : List Found := firsts (zs.map Prod.snd)

/-- The package whose root is shown for a resolved one: the last that was scanned with its name
since it was resolved. -/
def shown (zs : List (Found × Found)) (f : Found) : Found :=
  (((zs.dropWhile fun z => z.2.name ≠ f.name).filter fun z => z.1.name = f.name).getLast?.map
    Prod.fst).getD f

section Outcome

variable (R) (user) (bundles)

def outcome (zs : List (Found × Found)) : Resolved where
  skills := (found zs).map fun f => (f.name, fromSource (R.ref user f) (shown zs f))
  bundles d := (bundles d).or (((found zs).find? fun f => f.digest R.sha256 = d).map (·.bundle))

end Outcome

theorem found_concat (zs : List (Found × Found)) (e f : Found) :
    found (zs ++ [(e, f)]) =
      if (found zs).any (·.name = f.name) then found zs else found zs ++ [f] := by
  rw [found, List.map_append]
  exact firsts_concat _ _

theorem shown_old (h : g ∈ found zs) :
    shown (zs ++ [(e, f)]) g = if e.name = g.name then e else shown zs g := by
  obtain ⟨z, hz, rfl⟩ := List.mem_map.1 (mem_of_firsts h)
  have since : zs.dropWhile (fun z' => z'.2.name ≠ z.2.name) ≠ [] := by
    intro none
    have all := List.dropWhile_eq_nil_iff.1 none z hz
    simp at all
  rw [shown, List.dropWhile_append, if_neg (by rwa [List.isEmpty_iff]), List.filter_append]
  by_cases named : e.name = z.2.name
  · rw [if_pos named, List.filter_cons_of_pos (by simpa using named), List.filter_nil,
      List.getLast?_concat]
    rfl
  · rw [if_neg named, List.filter_cons_of_neg (by simpa using named), List.filter_nil,
      List.append_nil]
    rfl

theorem shown_new (h : ∀ g ∈ found zs, g.name ≠ f.name) :
    shown (zs ++ [(e, f)]) f = if e.name = f.name then e else f := by
  have before : zs.dropWhile (fun z => z.2.name ≠ f.name) = [] := by
    refine List.dropWhile_eq_nil_iff.2 fun z hz => ?_
    obtain ⟨g, hg, same⟩ := firsts_covers (List.mem_map_of_mem hz)
    simpa using fun eq => h g hg (same.trans eq)
  rw [shown, List.dropWhile_append, before]
  by_cases named : e.name = f.name
  · simp [named]
  · simp [named]

/-- The name is resolved already. -/
theorem outcome_old (h : ∃ g ∈ found zs, g.name = f.name) :
    (outcome R user bundles zs).relabel e = outcome R user bundles (zs ++ [(e, f)]) := by
  have same : found (zs ++ [(e, f)]) = found zs := by
    rw [found_concat, if_pos (any_name.2 h)]
  unfold outcome Resolved.relabel
  rw [same, List.map_map]
  congr 1
  refine List.map_congr_left fun g hg => ?_
  rw [shown_old hg]
  by_cases named : e.name = g.name
  · simp [named, fromSource]
  · simp [named, Ne.symm named]

/-- The name is new. -/
theorem outcome_new (h : ∀ g ∈ found zs, g.name ≠ f.name) :
    (R.store user (outcome R user bundles zs) f).relabel e =
      outcome R user bundles (zs ++ [(e, f)]) := by
  have more : found (zs ++ [(e, f)]) = found zs ++ [f] := by
    rw [found_concat, if_neg fun there => ?_]
    obtain ⟨g, hg, same⟩ := any_name.1 there
    exact h g hg same
  unfold outcome Resolved.relabel store
  rw [more, List.map_append, List.map_append, List.map_map]
  congr 1
  · congr 1
    · refine List.map_congr_left fun g hg => ?_
      rw [shown_old hg]
      by_cases named : e.name = g.name
      · simp [named, fromSource]
      · simp [named, Ne.symm named]
    · rw [List.map_singleton, List.map_singleton, shown_new h]
      have self : fromSource (R.ref user f) f = R.ref user f := rfl
      by_cases named : e.name = f.name
      · simp [named, fromSource]
      · simp [named, Ne.symm named, self]
  · funext d
    rw [List.find?_append, List.find?_singleton]
    by_cases same : d = f.digest R.sha256
    · simp [same]
    · simp [same, Ne.symm same]

theorem lookup_map {α β : Type} (l : List α) (key : α → String) (val : α → β) (n : String) :
    (l.map fun a => (key a, val a)).lookup n = (l.find? fun a => key a = n).map val := by
  induction l with
  | nil => rfl
  | cons a l ih =>
      rw [List.map_cons, List.lookup_cons, List.find?_cons]
      by_cases same : key a = n
      · simp [same]
      · rw [ih, beq_eq_false_iff_ne.2 (Ne.symm same)]
        simp [same]

/-- A scanned package is resolved if its name leads to a package of its version, and to none of
another version than one of the same name before. -/
theorem resolveScanned_eq_ok {st : Resolved} (version : e.version ≠ "")
    (plain : ∀ f, R.lookup e.name roots = .ok f → f.requires = []) :
    R.resolveScanned user roots (outcome R user bundles zs) e = .ok st ↔
      ∃ f, R.lookup e.name roots = .ok f ∧ f.version = e.version ∧
        (∀ g ∈ found zs, g.name = f.name → g.version = f.version) ∧
        st = outcome R user bundles (zs ++ [(e, f)]) := by
  have asked : ∀ f : Found, ((some e.version).getD "" ≠ "" ∧ (some e.version).getD "" ≠ f.version) ↔
      f.version ≠ e.version := fun f => by simp [version, eq_comm]
  unfold resolveScanned resolveTree readBindingMeta
  cases looked : R.lookup e.name roots with
  | error err =>
      refine iff_of_false (fun h => by cases h) fun h => ?_
      obtain ⟨f, h, -⟩ := h
      cases h
  | ok f =>
      simp only [except_ok_bind, asked]
      by_cases same : f.version = e.version
      · rw [if_neg (not_not_intro same), pure_bind]
        have skills : (outcome R user bundles zs).skills.lookup f.name =
            ((found zs).find? fun g => g.name = f.name).map fun g =>
              fromSource (R.ref user g) (shown zs g) := lookup_map _ _ _ _
        rw [skills]
        cases there : (found zs).find? fun g => g.name = f.name with
        | none =>
            have new : ∀ g ∈ found zs, g.name ≠ f.name := fun g hg => by
              simpa using List.find?_eq_none.1 there g hg
            dsimp only [Option.map_none]
            rw [if_neg List.not_mem_nil, plain f looked, List.foldlM_nil, pure_bind, pure_bind,
              outcome_new new]
            constructor
            · intro h
              cases h
              exact ⟨f, rfl, same, fun g hg named => absurd named (new g hg), rfl⟩
            · rintro ⟨f', h, -, -, rfl⟩
              cases h
              rfl
        | some g =>
            have hg := List.mem_of_find?_eq_some there
            have named : g.name = f.name := by simpa using List.find?_some there
            dsimp only [Option.map_some]
            change ((if g.version ≠ f.version then _ else _) >>= _) = _ ↔ _
            by_cases version : g.version = f.version
            · rw [if_neg (not_not_intro version), pure_bind, outcome_old ⟨g, hg, named⟩]
              constructor
              · intro h
                cases h
                refine ⟨f, rfl, same, fun g' hg' named' => ?_, rfl⟩
                rw [firsts_inj hg' hg (named'.trans named.symm)]
                exact version
              · rintro ⟨f', h, -, -, rfl⟩
                cases h
                rfl
            · rw [if_pos version]
              refine iff_of_false (fun h => by cases h) fun h => ?_
              obtain ⟨f', h, -, all, -⟩ := h
              cases h
              exact version (all g hg named)
      · rw [if_pos same]
        refine iff_of_false (fun h => by cases h) fun h => ?_
        obtain ⟨f', h, other, -⟩ := h
        cases h
        exact same other

/-- All scanned packages are resolved if all their names lead to packages of their versions, and
no two of these have one name and two versions. -/
theorem resolveAll_eq_ok {es : List Found} {st : Resolved} (version : ∀ e ∈ es, e.version ≠ "")
    (plain : ∀ n f, R.lookup n roots = .ok f → f.requires = []) :
    es.foldlM (R.resolveScanned user roots) { bundles } = .ok st ↔
      ∃ zs : List (Found × Found), zs.map Prod.fst = es ∧
        (∀ z ∈ zs, R.lookup z.1.name roots = .ok z.2 ∧ z.2.version = z.1.version) ∧
        (∀ z ∈ zs, ∀ z' ∈ zs, z.2.name = z'.2.name → z.2.version = z'.2.version) ∧
        st = outcome R user bundles zs := by
  induction es using List.reverseRecOn generalizing st with
  | nil =>
      have start : ({ bundles } : Resolved) = outcome R user bundles [] := by
        unfold outcome
        congr 1
        funext d
        exact (Option.or_none).symm
      rw [List.foldlM_nil, start]
      constructor
      · intro h
        cases h
        exact ⟨[], rfl, fun z hz => absurd hz List.not_mem_nil,
          fun z hz => absurd hz List.not_mem_nil, rfl⟩
      · rintro ⟨zs, none, -, -, rfl⟩
        cases List.map_eq_nil_iff.1 none
        rfl
  | append_singleton es e ih =>
      have ih := fun st => @ih st fun e he => version e (List.mem_append_left _ he)
      have here := version e (List.mem_append_right _ List.mem_cons_self)
      rw [List.foldlM_append]
      simp only [List.foldlM_cons, List.foldlM_nil, bind_pure]
      constructor
      · intro h
        cases before : es.foldlM (R.resolveScanned user roots) { bundles } with
        | error err =>
            rw [before] at h
            cases h
        | ok st₁ =>
            rw [before] at h
            obtain ⟨zs, rfl, looked, one, rfl⟩ := (ih st₁).1 before
            obtain ⟨f, last, same, agree, rfl⟩ := (resolveScanned_eq_ok here fun f => plain _ f).1 h
            have agree : ∀ z ∈ zs, z.2.name = f.name → z.2.version = f.version := by
              intro z hz named
              obtain ⟨g, hg, same⟩ := firsts_covers (List.mem_map_of_mem (f := Prod.snd) hz)
              obtain ⟨z', hz', rfl⟩ := List.mem_map.1 (mem_of_firsts hg)
              rw [one z hz z' hz' same.symm]
              exact agree _ hg (same.trans named)
            refine ⟨zs ++ [(e, f)], by rw [List.map_append]; rfl, fun z hz => ?_,
              fun z hz z' hz' named => ?_, rfl⟩
            · rcases List.mem_append.1 hz with old | new
              · exact looked z old
              · cases List.mem_singleton.1 new
                exact ⟨last, same⟩
            · rcases List.mem_append.1 hz with old | new
              · rcases List.mem_append.1 hz' with old' | new'
                · exact one z old z' old' named
                · cases List.mem_singleton.1 new'
                  exact agree z old named
              · cases List.mem_singleton.1 new
                rcases List.mem_append.1 hz' with old' | new'
                · exact (agree z' old' named.symm).symm
                · cases List.mem_singleton.1 new'
                  rfl
      · rintro ⟨zs', split, looked, one, rfl⟩
        obtain ⟨zs, last, rfl, rfl, single⟩ := List.map_eq_append_iff.1 split
        obtain ⟨z, rfl, rfl⟩ := List.map_eq_singleton_iff.1 single
        have before := (ih _).2 ⟨zs, rfl, fun z hz => looked z (List.mem_append_left _ hz),
          fun z hz z' hz' => one z (List.mem_append_left _ hz) z' (List.mem_append_left _ hz'), rfl⟩
        obtain ⟨last, same⟩ := looked z (List.mem_append_right _ List.mem_cons_self)
        rw [before]
        refine (resolveScanned_eq_ok here fun f => plain _ f).2
          ⟨z.2, last, same, fun g hg named => ?_, rfl⟩
        obtain ⟨z', hz', rfl⟩ := List.mem_map.1 (mem_of_firsts hg)
        exact one z' (List.mem_append_left _ hz') z
          (List.mem_append_right _ List.mem_cons_self) named

/-! ## The bundles in the file system -/

/-- What is in the directories of a scope. -/
def Views (sha256 : List UInt8 → String) (scope : Option String) (t : FileTree String)
    (bundles : String → Option Bundle) : Prop :=
  ∀ d, match bundles d with
    | none => t.bare (destination sha256 scope d) = true
    | some m => t.bare (destination sha256 scope d) = false ∧
        Contains t (destination sha256 scope d) m

theorem destination_apart {sha256 : List UInt8 → String} {scope : Option String} {d d' : String}
    {p s : List String} (ne : d ≠ d')
    (near : p <+: destination sha256 scope d' ∨ destination sha256 scope d' <+: p) :
    destination sha256 scope d ++ s ≠ p := by
  rintro rfl
  have other : destination sha256 scope d ≠ destination sha256 scope d' := fun same => by
    have last := congrArg List.getLast? same
    unfold destination at last
    cases scope with
    | none | some _ => exact ne (Option.some.inj last)
  have length : (destination sha256 scope d).length = (destination sha256 scope d').length := by
    unfold destination
    cases scope with
    | none | some _ => rfl
  refine other (near.elim (fun above => ?_) fun below => ?_)
  · exact ((List.prefix_append _ _).trans above).eq_of_length length
  · exact (List.prefix_of_prefix_length_le (List.prefix_append _ s) below length.le).eq_of_length
      length

/-- A whole call of `_store_bundle` does to the file system what `store` does to its bundles. -/
theorem Views.store {t t' : FileTree String} {c : Call} {st : Resolved}
    (h : Views R.sha256 c.scope t st.bundles) (bundle : c.bundle = f.bundle)
    (done : Op.execAll (c.ops R.sha256 t) t = some t') :
    Views R.sha256 c.scope t' (R.store user st f).bundles := by
  have digest : c.destination R.sha256 = destination R.sha256 c.scope (f.digest R.sha256) := by
    rw [Call.destination, bundle]
    rfl
  intro d
  have here := h d
  by_cases same : d = f.digest R.sha256
  · subst same
    rw [← digest] at here ⊢
    change match (if _ = _ then _ else _ : Option Bundle) with | none => _ | some m => _
    rw [if_pos rfl]
    cases there : st.bundles (f.digest R.sha256) with
    | none =>
        rw [there] at here
        have ops : c.ops R.sha256 t = c.prepare R.sha256 t ++ c.fill R.sha256 :=
          if_pos (.inr here)
        rw [ops] at done
        have filled := Call.fill_contains here done
        rw [bundle] at filled
        exact ⟨filled.not_bare (bundle ▸ c.nonempty), filled⟩
    | some m =>
        rw [there] at here
        have some_there : t.get (c.destination R.sha256) ≠ none := fun none => by
          rw [bare_of_none none] at here
          cases here.1
        have ops : c.ops R.sha256 t = [] :=
          if_neg (not_or.2 ⟨some_there, by rw [here.1]; decide⟩)
        rw [ops] at done
        cases done
        exact here
  · have kept : ∀ s, t'.get (destination R.sha256 c.scope d ++ s) =
        t.get (destination R.sha256 c.scope d ++ s) := fun s => by
      refine Op.execAll_get done fun op hop => destination_apart same ?_
      rw [← digest]
      exact Call.ops_path hop
    have bare : t'.bare (destination R.sha256 c.scope d) =
        t.bare (destination R.sha256 c.scope d) := by
      rw [Bool.eq_iff_iff, FileTree.bare_iff, FileTree.bare_iff]
      simp only [kept]
    have unchanged : (R.store user st f).bundles d = st.bundles d := if_neg same
    rw [unchanged]
    cases there : st.bundles d with
    | none =>
        rw [there] at here
        exact bare.trans here
    | some m =>
        rw [there] at here
        refine ⟨bare.trans here.1, fun names content ne => ?_⟩
        rw [FileTree.fileAt_congr (kept names)]
        exact here.2 names content ne

/-! ## Listing and resolving -/

section Agreement

variable (R)

/-- The packages of all roots, in the order they are scanned. -/
def scan (roots : List Root) : Except ResolveError (List Found) :=
  (roots.flatMap fun root => (R.skillDirs root.path).map (root, ·)).mapM fun d => R.read d.1 d.2

/-- What a listed skill and a reference say alike. -/
def key (r : SkillRef) : String × String × String × String × String :=
  (r.name, r.version, r.digest, r.sourcePath, r.sourceKind)

/-- What a listed skill and a reference say alike. -/
def Item.key (i : Item) : String × String × String × String × String :=
  (i.name, i.version, i.digest, i.sourcePath, i.sourceKind)

/-- A request is resolved to the skills that are listed, and the bundle of each has the bytes of the
package that is listed. -/
def Agrees (request : RunRequest) (bundles : String → Option Bundle) (scanned : List Found) :
    Prop :=
  ∃ items bundles' snapshot,
    R.listSkills request.context.userBinding request.skillPaths = .ok items ∧
    R.resolveAndStore request bundles = .ok (bundles', snapshot) ∧
    (snapshot.skills.map key).Perm (items.map Item.key) ∧
    ∀ r ∈ snapshot.skills, r.bundleRef = R.bundlePlace request.context.userBinding r.digest ∧
      ∀ e ∈ firsts scanned, e.name = r.name → bundles' r.digest = some e.bundle

/-- Every scanned name leads to a package of its version, whose own name is listed with that
version.  And for every listed skill there is a package that was found, which is the first of that
name: it has the digest that is listed, the last package scanned with that name since it was found,
or else the package itself, is from the root that is listed, and the directory of the digest has the
bytes that are listed, or is new and first filled with them. -/
def Agreeing (roots : List Root) (bundles : String → Option Bundle) (scanned : List Found) : Prop :=
  ∃ zs : List (Found × Found), zs.map Prod.fst = scanned ∧
    (∀ z ∈ zs, R.lookup z.1.name roots = .ok z.2 ∧ z.2.version = z.1.version ∧
      ∃ g ∈ firsts scanned, g.name = z.2.name ∧ g.version = z.2.version) ∧
    ∀ g ∈ firsts scanned, ∃ f ∈ found zs, f.name = g.name ∧
      f.digest R.sha256 = g.digest R.sha256 ∧
      (shown zs f).sourcePath = g.sourcePath ∧ (shown zs f).sourceKind = g.sourceKind ∧
      (bundles (f.digest R.sha256)).or
        (((found zs).find? fun f' => f'.digest R.sha256 = f.digest R.sha256).map (·.bundle)) =
          some g.bundle

end Agreement

/-- The loops over the roots and their directories go over the scanned packages. -/
theorem foldlM_scan {es : List Found} (ok : R.scan roots = .ok es) (all : List Root)
    (st : Resolved) :
    roots.foldlM (fun st root => (R.skillDirs root.path).foldlM (fun st dir => do
      R.resolveScanned user all st (← R.read root dir)) st) st =
        es.foldlM (R.resolveScanned user all) st := by
  induction roots generalizing es st with
  | nil =>
      cases ok
      rfl
  | cons root roots ih =>
      obtain ⟨es₁, es₂, first, rest, rfl⟩ := except_mapM_append ok
      rw [List.mapM_map] at first
      have here : ((R.skillDirs root.path).foldlM (fun st dir => do
          R.resolveScanned user all st (← R.read root dir)) st) =
            es₁.foldlM (R.resolveScanned user all) st := foldlM_mapM first st
      rw [List.foldlM_cons, List.foldlM_append, here]
      cases es₁.foldlM (R.resolveScanned user all) st with
      | error e => rfl
      | ok st' => exact ih rest st'

/-- All packages that can be read are listed. -/
theorem listRoot_ok {root : Root} {es : List Found}
    (ok : (R.skillDirs root.path).mapM (R.read root) = .ok es) : R.listRoot root = .ok es := by
  have items : ∀ dirs : List SkillDir, ∀ es, dirs.mapM (R.read root) = .ok es →
      (dirs.mapM fun dir => match R.read root dir with
        | .ok f => .ok [f]
        | .error (.domain _ _) => .ok []
        | .error e => .error e) = (.ok (es.map fun f => [f]) : Except ResolveError _) := by
    intro dirs
    induction dirs with
    | nil =>
        intro es ok
        cases ok
        rfl
    | cons dir dirs ih =>
        intro es ok
        obtain ⟨f, fs, first, rest, rfl⟩ := except_mapM_cons ok
        rw [List.mapM_cons, first, ih fs rest]
        rfl
  rw [listRoot, items _ es ok, except_ok_bind, ← List.flatMap_def, List.flatMap_singleton']
  rfl

theorem listRoots_ok {es : List Found} (ok : R.scan roots = .ok es) :
    ∃ ess, roots.mapM R.listRoot = .ok ess ∧ ess.flatten = es := by
  induction roots generalizing es with
  | nil =>
      cases ok
      exact ⟨[], rfl, rfl⟩
  | cons root roots ih =>
      obtain ⟨es₁, es₂, first, rest, rfl⟩ := except_mapM_append ok
      rw [List.mapM_map] at first
      obtain ⟨ess, listed, rfl⟩ := ih rest
      refine ⟨es₁ :: ess, ?_, rfl⟩
      rw [List.mapM_cons, listRoot_ok first, listed]
      rfl

variable {request : RunRequest} {binding : UserBinding} {scanned : List Found}

theorem listSkills_ok {paths : Option (List String)}
    (ok : R.scan (R.skillRoots user paths) = .ok scanned) :
    R.listSkills user paths =
      .ok (((firsts scanned).map R.item).insertionSort fun a b => a.name ≤ b.name) := by
  obtain ⟨ess, listed, rfl⟩ := listRoots_ok ok
  rw [listSkills, listed]
  rfl

/-- A request without skills of its own goes over the scanned packages. -/
theorem resolveAndStore_scan (bound : request.context.userBinding = some binding)
    (implicit : request.skills = [])
    (ok : R.scan (R.skillRoots (some binding) request.skillPaths) = .ok scanned) :
    R.resolveAndStore request bundles =
      (scanned.foldlM (R.resolveScanned (some binding)
        (R.skillRoots (some binding) request.skillPaths)) { bundles }) >>= fun st =>
          .ok (st.bundles,
            { agentDigest := R.sha256 (utf8 request.agentRef)
              runtimeRef := "runtime@local"
              modelProfileRef := "deterministic@local"
              executionProfileRef := "local@1"
              skills := st.skills.map Prod.snd
              toolRefs := ["python", "command", "file_read", "file_write"]
              userBinding := some binding
              effectiveSkillPaths := (effectivePaths (some binding) request.skillPaths).1
              skillPathSource := (effectivePaths (some binding) request.skillPaths).2
              pathDigest := R.pathDigest (some binding)
                (effectivePaths (some binding) request.skillPaths).1 }) := by
  have loops := @foldlM_scan R (some binding) _ _ ok
    (R.skillRoots (some binding) request.skillPaths) { bundles }
  unfold resolveAndStore
  rw [bound, implicit]
  dsimp only
  rw [List.foldlM_nil, pure_bind]
  split
  · rw [loops]
    rfl
  next off =>
    have empty : request.skillPaths = some [] := by
      by_contra other
      exact off ⟨rfl, rfl, other⟩
    rw [empty] at ok ⊢
    cases ok
    rfl

/-! ## When they agree -/

theorem read_ok {root : Root} {dir : SkillDir} (h : R.read root dir = .ok f) :
    readSkill R.py R.tree dir.place dir.name = .ok f.toPackage := by
  obtain ⟨p, package, h⟩ := except_bind_eq_ok.1 h
  cases h
  exact package

theorem lookIn_read {name : String} {root : Root} (h : R.lookIn name root = .ok (some f)) :
    ∃ dir, R.read root dir = .ok f := by
  unfold lookIn at h
  split at h
  · obtain ⟨f', package, h⟩ := except_bind_eq_ok.1 h
    have h := Except.ok.inj h
    split at h
    · cases h
      exact ⟨_, package⟩
    · cases h
  · dsimp only at h
    split at h
    · obtain ⟨f', package, h⟩ := except_bind_eq_ok.1 h
      cases h
      exact ⟨_, package⟩
    · cases h

theorem lookup_read {name : String} (h : R.lookup name roots = .ok f) :
    ∃ root dir, R.read root dir = .ok f := by
  induction roots with
  | nil => cases h
  | cons root roots ih =>
      rw [lookup] at h
      obtain ⟨o, looked, h⟩ := except_bind_eq_ok.1 h
      cases o with
      | none => exact ih h
      | some f' =>
          cases h
          obtain ⟨dir, package⟩ := lookIn_read looked
          exact ⟨root, dir, package⟩

/-- What is shown of the resolved packages. -/
theorem outcome_key (zs : List (Found × Found)) :
    ((outcome R user bundles zs).skills.map Prod.snd).map key = (found zs).map fun f =>
      (f.name, f.version, f.digest R.sha256, (shown zs f).sourcePath, (shown zs f).sourceKind) := by
  rw [outcome, List.map_map, List.map_map]
  rfl

theorem listed_key (es : List Found) :
    ((((firsts es).map R.item).insertionSort fun a b => a.name ≤ b.name).map Item.key).Perm
      ((firsts es).map fun g =>
        (g.name, g.version, g.digest R.sha256, g.sourcePath, g.sourceKind)) := by
  refine ((List.perm_insertionSort _ _).map _).trans ?_
  rw [List.map_map]
  exact List.Perm.refl _

theorem firsts_eq_self {es : List Found} (once : (es.map fun e => e.name).Nodup) :
    firsts es = es := by
  induction es using List.reverseRecOn with
  | nil => rfl
  | append_singleton es e ih =>
      rw [List.map_append, List.nodup_append] at once
      obtain ⟨first, -, apart⟩ := once
      rw [firsts_concat, ih first, if_neg fun there => ?_]
      obtain ⟨g, hg, same⟩ := any_name.1 there
      exact apart _ (List.mem_map_of_mem hg) _ (List.mem_singleton_self _) same

/-- Where every scanned name is there once and leads to the package it is the name of, and no
bundle is in another's place, listing and resolving agree. -/
theorem Agreeing.of_own (once : (scanned.map fun e => e.name).Nodup)
    (own : ∀ e ∈ scanned, R.lookup e.name roots = .ok e)
    (fits : ∀ e ∈ scanned, (bundles (e.digest R.sha256)).or
      ((scanned.find? fun f => f.digest R.sha256 = e.digest R.sha256).map (·.bundle)) =
        some e.bundle) : R.Agreeing roots bundles scanned := by
  have all : found (scanned.map fun e => (e, e)) = scanned := by
    rw [found, List.map_map]
    exact (congrArg firsts (List.map_id scanned)).trans (firsts_eq_self once)
  have self : ∀ e ∈ scanned, shown (scanned.map fun e => (e, e)) e = e := by
    intro e he
    unfold shown
    cases last : (((scanned.map fun e => (e, e)).dropWhile fun z => z.2.name ≠ e.name).filter
        fun z => z.1.name = e.name).getLast? with
    | none => rfl
    | some z =>
        obtain ⟨there, named⟩ := List.mem_filter.1 (List.mem_of_getLast? last)
        obtain ⟨e', he', rfl⟩ := List.mem_map.1 ((List.dropWhile_sublist _).subset there)
        exact List.inj_on_of_nodup_map once he' he (of_decide_eq_true named)
  refine ⟨scanned.map fun e => (e, e), by rw [List.map_map]; exact List.map_id scanned,
    fun z hz => ?_, fun g hg => ?_⟩
  · obtain ⟨e, he, rfl⟩ := List.mem_map.1 hz
    exact ⟨own e he, rfl, e, by rw [firsts_eq_self once]; exact he, rfl, rfl⟩
  · have hg := mem_of_firsts hg
    rw [all]
    exact ⟨g, hg, rfl, rfl, by rw [self g hg], by rw [self g hg], fits g hg⟩

/-- **Listing and resolving agree** if and only if `Agreeing` holds. -/
theorem resolution_agrees_iff (bound : request.context.userBinding = some binding)
    (implicit : request.skills = [])
    (ok : R.scan (R.skillRoots (some binding) request.skillPaths) = .ok scanned)
    (plain : ∀ dir name p, readSkill R.py R.tree dir name = .ok p → p.requires = []) :
    R.Agrees request bundles scanned ↔
      R.Agreeing (R.skillRoots (some binding) request.skillPaths) bundles scanned := by
  have version : ∀ e ∈ scanned, e.version ≠ "" := by
    intro e he
    obtain ⟨d, -, package⟩ := mem_of_except_mapM ok he
    exact (readSkill_ok (read_ok package)).2.2.1
  have plain : ∀ n f, R.lookup n (R.skillRoots (some binding) request.skillPaths) = .ok f →
      f.requires = [] := by
    intro n f looked
    obtain ⟨root, dir, package⟩ := lookup_read looked
    exact plain _ _ _ (read_ok package)
  have run := fun st => @resolveAll_eq_ok R (some binding) _ bundles scanned st version plain
  constructor
  · rintro ⟨items, bundles', snapshot, listed, resolved, perm, bytes⟩
    rw [bound, listSkills_ok ok] at listed
    cases listed
    rw [resolveAndStore_scan bound implicit ok] at resolved
    cases fold : scanned.foldlM (R.resolveScanned (some binding)
        (R.skillRoots (some binding) request.skillPaths)) { bundles } with
    | error e =>
        rw [fold] at resolved
        cases resolved
    | ok st =>
        rw [fold, except_ok_bind] at resolved
        cases resolved
        obtain ⟨zs, split, looked, one, rfl⟩ := (run st).1 fold
        rw [outcome_key] at perm
        have perm := perm.trans (listed_key scanned)
        refine ⟨zs, split, fun z hz => ⟨(looked z hz).1, (looked z hz).2, ?_⟩, fun g hg => ?_⟩
        · obtain ⟨f, hf, same⟩ := firsts_covers (List.mem_map_of_mem (f := Prod.snd) hz)
          obtain ⟨z', hz', rfl⟩ := List.mem_map.1 (mem_of_firsts hf)
          obtain ⟨g, hg, eq⟩ := List.mem_map.1 (perm.mem_iff.1 (List.mem_map_of_mem hf))
          simp only [Prod.mk.injEq] at eq
          exact ⟨g, hg, eq.1.trans same, eq.2.1.trans (one z' hz' z hz same)⟩
        · obtain ⟨f, hf, eq⟩ := List.mem_map.1 (perm.mem_iff.2 (List.mem_map_of_mem hg))
          simp only [Prod.mk.injEq] at eq
          obtain ⟨name, -, digest, path, kind⟩ := eq
          refine ⟨f, hf, name, digest, path, kind, ?_⟩
          have ref := List.mem_map_of_mem (f := Prod.snd) (List.mem_map_of_mem (f := fun f =>
            (f.name, fromSource (R.ref (some binding) f) (shown zs f))) hf)
          exact (bytes _ ref).2 g hg name.symm
  · rintro ⟨zs, split, looked, listed⟩
    have one : ∀ z ∈ zs, ∀ z' ∈ zs, z.2.name = z'.2.name → z.2.version = z'.2.version := by
      intro z hz z' hz' same
      obtain ⟨-, -, g, hg, name, version⟩ := looked z hz
      obtain ⟨-, -, g', hg', name', version'⟩ := looked z' hz'
      rw [← version, ← version', firsts_inj hg hg' (name.trans (same.trans name'.symm))]
    have fold := (run _).2 ⟨zs, split, fun z hz => ⟨(looked z hz).1, (looked z hz).2.1⟩, one, rfl⟩
    have resolved := @resolveAndStore_scan R bundles _ _ _ bound implicit ok
    rw [fold, except_ok_bind] at resolved
    have match_found : ∀ f ∈ found zs, ∃ g ∈ firsts scanned, g.name = f.name ∧
        g.version = f.version := by
      intro f hf
      obtain ⟨z, hz, rfl⟩ := List.mem_map.1 (mem_of_firsts hf)
      exact (looked z hz).2.2
    have perm : ((found zs).map fun f => (f.name, f.version, f.digest R.sha256,
        (shown zs f).sourcePath, (shown zs f).sourceKind)).Perm ((firsts scanned).map fun g =>
          (g.name, g.version, g.digest R.sha256, g.sourcePath, g.sourceKind)) := by
      refine (List.perm_ext_iff_of_nodup ?_ ?_).2 fun k => ?_
      · refine List.Nodup.of_map Prod.fst ?_
        rw [List.map_map]
        exact firsts_nodup _
      · refine List.Nodup.of_map Prod.fst ?_
        rw [List.map_map]
        exact firsts_nodup _
      rw [List.mem_map, List.mem_map]
      constructor
      · rintro ⟨f, hf, rfl⟩
        obtain ⟨g, hg, name, version⟩ := match_found f hf
        obtain ⟨f', hf', name', digest, path, kind, -⟩ := listed g hg
        cases firsts_inj hf' hf (name'.trans name)
        exact ⟨g, hg, by rw [name, version, digest, path, kind]⟩
      · rintro ⟨g, hg, rfl⟩
        obtain ⟨f, hf, name, digest, path, kind, -⟩ := listed g hg
        obtain ⟨g', hg', name', version⟩ := match_found f hf
        cases firsts_inj hg' hg (name'.trans name)
        exact ⟨f, hf, by rw [name, version, digest, path, kind]⟩
    refine ⟨_, _, _, by rw [bound]; exact listSkills_ok ok, resolved, ?_, fun r hr => ?_⟩
    · exact (outcome_key zs ▸ perm).trans (listed_key scanned).symm
    · obtain ⟨s, hs, rfl⟩ := List.mem_map.1 hr
      obtain ⟨f, hf, rfl⟩ := List.mem_map.1 hs
      refine ⟨by rw [bound]; rfl, fun e he name => ?_⟩
      obtain ⟨f', hf', name', -, -, -, bytes⟩ := listed e he
      cases firsts_inj hf' hf (name'.trans name)
      exact bytes

private def skills : Name := .text "skills" (by decide)

private def notes : Name := .text "notes" (by decide)

private def plans : Name := .text "plans" (by decide)

private def ada : UserBinding where
  scopeId := "s"
  tenantRef := "t"
  userRef := "u"
  userPath := "/u"
  projectRef := "p"
  projectPath := "/u/workspace/projects/p"
  storageRoot := "/u"
  userRelPath := "."
  projectRelPath := "workspace/projects/p"

private def anyRequest : RunRequest where
  sessionId := ⟨0⟩
  input := ""
  context := { userBinding := some ada }
  skillPaths := some ["/skills"]

/-- Two packages, in directories of these names. -/
private def twoSkills (first second : String) : Resolver where
  py := ⟨.plain, fun _ => ""⟩
  sha256 := plainDigest
  le _ _ := true
  tree := .build [([skills], .dir), ([skills, notes], .dir), ([skills, plans], .dir),
    ([skills, notes, skillMd], .file (utf8 s!"---\nname: {first}\nversion: 1\n---\n")),
    ([skills, plans, skillMd], .file (utf8 s!"---\nname: {second}\nversion: 2\n---\n"))]
  skillsRoot := .parse "/skills"
  snapshotRoot := .parse "/snapshots"
  depth := 0

private theorem twoSkills_plain {first second : String}
    (none : ∀ f ∈ (twoSkills first second).tree.files,
      (decodeUtf8 f.2).bind (requiresOf (twoSkills first second).py) = some [])
    (dir : List Name) (name : Option String) (p : Package)
    (h : readSkill (twoSkills first second).py (twoSkills first second).tree dir name = .ok p) :
    p.requires = [] := by
  obtain ⟨-, -, -, bytes, file, required⟩ := readSkill_ok h
  exact Option.some.inj (required.symm.trans (none _ (FileTree.mem_files.2 file)))

theorem resolution_agrees_two : ∃ scanned,
    (twoSkills "notes" "plans").Agrees anyRequest (fun _ => none) scanned ∧ scanned.length = 2 := by
  have ok : (twoSkills "notes" "plans").scan
      ((twoSkills "notes" "plans").skillRoots (some ada) (some ["/skills"])) =
        .ok (((twoSkills "notes" "plans").scan
          ((twoSkills "notes" "plans").skillRoots (some ada) (some ["/skills"]))).toOption.getD
            []) := by decide +kernel
  refine ⟨_, (resolution_agrees_iff rfl rfl ok (twoSkills_plain (by decide +kernel))).2
    (Agreeing.of_own (by decide +kernel) (by decide +kernel) (by decide +kernel)),
    by decide +kernel⟩

/-- A package in a directory of another name is listed, and a request for all skills is refused. -/
theorem resolution_not_agrees : ∃ (R : Resolver) (scanned : List Found),
    R.scan (R.skillRoots (some ada) anyRequest.skillPaths) = .ok scanned ∧
    (∀ dir name p, readSkill R.py R.tree dir name = .ok p → p.requires = []) ∧
    ¬ R.Agrees anyRequest (fun _ => none) scanned := by
  have ok : (twoSkills "notes" "ideas").scan
      ((twoSkills "notes" "ideas").skillRoots (some ada) (some ["/skills"])) =
        .ok (((twoSkills "notes" "ideas").scan
          ((twoSkills "notes" "ideas").skillRoots (some ada) (some ["/skills"]))).toOption.getD
            []) := by decide +kernel
  refine ⟨_, _, ok, twoSkills_plain (by decide +kernel), fun h => ?_⟩
  obtain ⟨-, bundles', snapshot, -, resolved, -⟩ := h
  have refused : ((twoSkills "notes" "ideas").resolveAndStore anyRequest
      fun _ => none).toOption.isNone = true := by decide +kernel
  rw [resolved] at refused
  cases refused

end Resolver

end CodeForge.Skills
