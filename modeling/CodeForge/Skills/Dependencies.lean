import Mathlib.Data.List.Perm.Subperm
import CodeForge.Lib.DepthFirst
import CodeForge.Skills.Resolution

/-!
# What skills require

`resolve_and_store` looks up what a request asks for, and what the skills it
finds require.  `taken` is the same depth-first resolution with nothing stored:
the packages that are stored, in order, each with the name it was looked up by.
The references of a snapshot are to these (`resolveAndStore_taken`).

The resolution tells packages apart by the names their frontmatter declares, and
compares versions, but looks them up by the names of their directories.  A package
that declares the name and the version of one that is stored already is dropped,
and so is what it requires.  `resolution_orderly_iff` says that everything goes well
where no two packages that are reached declare one name and one version.
-/

namespace CodeForge.Skills

open Lib
open Files (Name)

namespace Resolver

/-! ## The packages that are taken -/

section Taken

variable (R : Resolver)

/-- How skills are found, and what they require. -/
def graph (roots : List Root) : DepGraph SkillBinding (String × Found) String ResolveError where
  find binding := (R.readBindingMeta binding roots).map (binding.name, ·)
  label t := t.2.name
  needs t := t.2.requires.map fun name => { name }
  clash t u :=
    if t.2.version ≠ u.2.version then
      some (.domain .skillIncompatible s!"Skill {u.2.name} is requested with conflicting versions")
    else none
  clash_self _ := if_neg (not_not_intro rfl)
  cycle t := .domain .skillIncompatible s!"Skill dependency cycle detected at {t.2.name}"
  deep := .recursion

@[simp] theorem graph_label (roots : List Root) (t : String × Found) :
    (R.graph roots).label t = t.2.name := rfl

@[simp] theorem graph_needs (roots : List Root) (t : String × Found) :
    (R.graph roots).needs t = t.2.requires.map fun name => { name } := rfl

theorem graph_clash (roots : List Root) (t u : String × Found) :
    (R.graph roots).clash t u =
      if t.2.version ≠ u.2.version then
        some (.domain .skillIncompatible
          s!"Skill {u.2.name} is requested with conflicting versions")
      else none := rfl

/-- The roots of a request. -/
def rootsOf (request : RunRequest) : List Root :=
  R.skillRoots request.context.userBinding request.skillPaths

/-- The directories that are scanned where a request has no skills of its own. -/
def dirs (request : RunRequest) : List (Root × SkillDir) :=
  if request.context.userBinding.isSome ∧ request.skills = [] ∧ request.skillPaths ≠ some [] then
    (R.rootsOf request).flatMap fun root => (R.skillDirs root.path).map (root, ·)
  else []

/-- What a request asks for, in order. -/
def asks (request : RunRequest) : List (Except ResolveError SkillBinding) :=
  request.skills.map .ok ++ (R.dirs request).map fun d =>
    (R.read d.1 d.2).map fun e => { name := e.name, version := some e.version }

/-- The packages `resolve_and_store` stores, each with the name it was looked up by. -/
def taken (request : RunRequest) : Except ResolveError (List (String × Found)) :=
  (R.graph (R.rootsOf request)).resolve (R.depth + 1) (R.asks request)

/-- A reference to a package, from whatever root it says. -/
def IsRef (user : Option UserBinding) (r : SkillRef) (f : Found) : Prop :=
  r = { R.ref user f with sourceKind := r.sourceKind, sourcePath := r.sourcePath }

/-- What is resolved is what is taken, and the only bundles that are new are of these packages. -/
structure Matches (user : Option UserBinding) (bundles : String → Option Bundle) (st : Resolved)
    (ts : List (String × Found)) : Prop where
  skills : List.Forall₂ (fun s t => s.1 = t.2.name ∧ R.IsRef user s.2 t.2) st.skills ts
  stored : ∀ d m, st.bundles d = some m → bundles d = some m ∨ ∃ t ∈ ts, t.2.bundle = m

/-- A snapshot has references to the packages that are taken, and the only bundles that are new
are of these packages. -/
structure Tells (request : RunRequest) (bundles : String → Option Bundle)
    (done : (String → Option Bundle) × RunSnapshot) (ts : List (String × Found)) : Prop where
  skills : List.Forall₂ (fun r t => R.IsRef request.context.userBinding r t.2) done.2.skills ts
  stored : ∀ d m, done.1 d = some m → bundles d = some m ∨ ∃ t ∈ ts, t.2.bundle = m

end Taken

variable {R : Resolver} {user : Option UserBinding} {bundles : String → Option Bundle}
  {st : Resolved} {ts : List (String × Found)} {t : String × Found} {f g : Found}
  {roots : List Root} {request : RunRequest}

theorem graph_find_ok {binding : SkillBinding} (h : R.readBindingMeta binding roots = .ok f) :
    (R.graph roots).find binding = .ok (binding.name, f) := by
  show (R.readBindingMeta binding roots).map _ = _
  rw [h]
  rfl

theorem graph_find_error {binding : SkillBinding} {e : ResolveError}
    (h : R.readBindingMeta binding roots = .error e) :
    (R.graph roots).find binding = .error e := by
  show (R.readBindingMeta binding roots).map _ = _
  rw [h]
  rfl

/-- A name is resolved if it is taken, in the same version. -/
theorem lookup_forall₂ {skills : List (String × SkillRef)}
    (h : List.Forall₂ (fun s t => s.1 = t.2.name ∧ R.IsRef user s.2 t.2) skills ts)
    (name : String) :
    (ts.find? (fun t => t.2.name = name) = none → skills.lookup name = none) ∧
      ∀ t, ts.find? (fun t => t.2.name = name) = some t →
        ∃ ref, skills.lookup name = some ref ∧ ref.version = t.2.version := by
  induction h with
  | nil => exact ⟨fun _ => rfl, fun t there => by cases there⟩
  | @cons s t skills ts first rest ih =>
      obtain ⟨key, ref⟩ := s
      by_cases same : t.2.name = name
      · have here : (name == key) = true := beq_iff_eq.2 (same.symm.trans first.1.symm)
        simp only [List.find?_cons, List.lookup_cons, here, same, decide_true]
        refine ⟨fun none => (by cases none), fun t' there => ?_⟩
        cases there
        have here : R.IsRef user ref t.2 := first.2
        exact ⟨ref, rfl, by rw [here]; rfl⟩
      · have other : (name == key) = false :=
          beq_eq_false_iff_ne.2 fun eq => same (first.1.symm.trans eq.symm)
        simpa only [List.find?_cons, List.lookup_cons, other, same, decide_false] using ih

theorem Matches.store (h : R.Matches user bundles st ts) (t : String × Found) :
    R.Matches user bundles (R.store user st t.2) (ts ++ [t]) where
  skills := List.rel_append h.skills (.cons ⟨rfl, rfl⟩ .nil)
  stored d m there := by
    have kept : ∀ m, st.bundles d = some m →
        bundles d = some m ∨ ∃ t' ∈ ts ++ [t], t'.2.bundle = m := by
      intro m there
      rcases h.stored d m there with old | ⟨t', ht, same⟩
      · exact .inl old
      · exact .inr ⟨t', List.mem_append_left _ ht, same⟩
    change (if d = t.2.digest R.sha256 then _ else _) = some m at there
    split at there
    · cases old : st.bundles d with
      | some m' =>
          rw [old] at there
          cases there
          exact kept m old
      | none =>
          rw [old] at there
          cases there
          exact .inr ⟨t, List.mem_append_right _ List.mem_cons_self, rfl⟩
    · exact kept m there

theorem Matches.relabel (h : R.Matches user bundles st ts) (e : Found) :
    R.Matches user bundles (st.relabel e) ts where
  skills := by
    refine List.forall₂_map_left_iff.2 (h.skills.imp fun s t both => ?_)
    split
    · exact ⟨both.1, by rw [both.2]; rfl⟩
    · exact both
  stored := h.stored

/-- Resolving a skill goes in step with visiting it. -/
theorem resolveTree_inStep {depth : Nat} {binding : SkillBinding} {visiting : List String}
    (h : R.Matches user bundles st ts) :
    InStep (R.Matches user bundles) (R.resolveTree user roots depth binding visiting st)
      ((R.graph roots).visit depth binding visiting ts) := by
  induction depth generalizing binding visiting st ts with
  | zero => exact .error _
  | succ depth ih =>
      rw [resolveTree, DepGraph.visit]
      cases looked : R.readBindingMeta binding roots with
      | error e =>
          rw [graph_find_error looked]
          exact .error e
      | ok f =>
          obtain ⟨gone, here⟩ := lookup_forall₂ h.skills f.name
          rw [graph_find_ok looked, except_ok_bind, except_ok_bind]
          cases there : ts.find? fun m =>
              (R.graph roots).label m = (R.graph roots).label (binding.name, f) with
          | some t =>
              obtain ⟨ref, found, version⟩ := here t there
              simp only [found, graph_clash, version]
              split
              · exact .error _
              · exact .ok h
          | none =>
              simp only [gone there, graph_label]
              by_cases again : f.name ∈ visiting
              · simp only [again, ↓reduceIte]
                exact .error _
              · simp only [again, ↓reduceIte, graph_needs, List.foldlM_map]
                refine InStep.bind (InStep.foldlM h fun name _ st ts h => ?_) fun st ts h => ?_
                · exact ih h
                · exact .ok (h.store (binding.name, f))

/-- Going over the roots and their directories is going over the directories of all roots. -/
theorem foldlM_dirs (step : Resolved → Root × SkillDir → Except ResolveError Resolved)
    (roots : List Root) (st : Resolved) :
    (roots.foldlM (fun st root =>
      (R.skillDirs root.path).foldlM (fun st dir => step st (root, dir)) st) st) =
        (roots.flatMap fun root => (R.skillDirs root.path).map (root, ·)).foldlM step st := by
  induction roots generalizing st with
  | nil => rfl
  | cons root roots ih =>
      rw [List.foldlM_cons, List.flatMap_cons, List.foldlM_append, List.foldlM_map]
      simp only [ih]

/-- Going over what a request asks for goes in step with resolving that. -/
theorem asks_inStep :
    InStep (R.Matches request.context.userBinding bundles)
      (request.skills.foldlM (fun st binding => R.resolveTree request.context.userBinding
          (R.rootsOf request) (R.depth + 1) binding [] st) { bundles } >>= fun st =>
        (R.dirs request).foldlM (fun st d => R.read d.1 d.2 >>= fun e =>
          R.resolveScanned request.context.userBinding (R.rootsOf request) st e) st)
      (R.taken request) := by
  have start : R.Matches request.context.userBinding bundles { bundles } [] :=
    ⟨.nil, fun d m there => .inl there⟩
  rw [taken, DepGraph.resolve, asks, List.foldlM_append]
  simp only [List.foldlM_map, except_ok_bind]
  refine InStep.bind (InStep.foldlM start fun binding _ st ts h => ?_)
    fun st ts h => InStep.foldlM h fun d _ st ts h => ?_
  · exact resolveTree_inStep h
  cases R.read d.1 d.2 with
  | error e => exact .error e
  | ok e =>
      simp only [Except.map, except_ok_bind, resolveScanned]
      exact (resolveTree_inStep h).map_left fun st ts h => h.relabel e

/-- **What is resolved is what is taken.** -/
theorem resolveAndStore_taken (R : Resolver) (request : RunRequest)
    (bundles : String → Option Bundle) :
    InStep (R.Tells request bundles) (R.resolveAndStore request bundles) (R.taken request) := by
  have loops : R.resolveAndStore request bundles =
      (request.skills.foldlM (fun st binding => R.resolveTree request.context.userBinding
          (R.rootsOf request) (R.depth + 1) binding [] st) { bundles } >>= fun st =>
        (R.dirs request).foldlM (fun st d => R.read d.1 d.2 >>= fun e =>
          R.resolveScanned request.context.userBinding (R.rootsOf request) st e) st) >>= fun st =>
      .ok (st.bundles,
        { agentDigest := R.sha256 (utf8 request.agentRef)
          runtimeRef := "runtime@local"
          modelProfileRef := "deterministic@local"
          executionProfileRef := "local@1"
          skills := st.skills.map Prod.snd
          toolRefs := ["python", "command", "file_read", "file_write"]
          userBinding := request.context.userBinding
          effectiveSkillPaths :=
            (effectivePaths request.context.userBinding request.skillPaths).1
          skillPathSource := (effectivePaths request.context.userBinding request.skillPaths).2
          pathDigest := R.pathDigest request.context.userBinding
            (effectivePaths request.context.userBinding request.skillPaths).1 }) := by
    rw [resolveAndStore, bind_assoc]
    refine congrArg _ (funext fun st => ?_)
    rw [dirs]
    split
    · rw [← foldlM_dirs]
      rfl
    · rfl
  rw [loops, ← bind_pure (R.taken request)]
  refine asks_inStep.bind fun st ts h => .ok ⟨List.forall₂_map_left_iff.2 ?_, h.stored⟩
  exact h.skills.imp fun s t both => both.2

/-! ## Requirements -/

section Requirements

variable (R : Resolver)

/-- The names a request reaches: what it asks for, and what the skills that are found require. -/
inductive Wants (request : RunRequest) : String → Prop where
  | asked {binding : SkillBinding} (there : .ok binding ∈ R.asks request) :
      Wants request binding.name
  | required {name name' : String} {f : Found} (wants : Wants request name)
      (found : R.lookup name (R.rootsOf request) = .ok f) (need : name' ∈ f.requires) :
      Wants request name'

/-- A package that a request reaches. -/
def Reached (request : RunRequest) (f : Found) : Prop :=
  ∃ name, R.Wants request name ∧ R.lookup name (R.rootsOf request) = .ok f

/-- A package requires another. -/
def Requires (roots : List Root) (f g : Found) : Prop :=
  ∃ name ∈ f.requires, R.lookup name roots = .ok g

/-- What a request reaches has a skill that is missing, a cycle, or two versions of one name. -/
def Broken (request : RunRequest) : Prop :=
  (∃ name, R.Wants request name ∧ ∀ f, R.lookup name (R.rootsOf request) ≠ .ok f) ∨
  (∃ f, R.Reached request f ∧ Relation.TransGen (R.Requires (R.rootsOf request)) f f) ∨
  ∃ f g, R.Reached request f ∧ R.Reached request g ∧ f.name = g.name ∧ f.version ≠ g.version

/-- The references a request comes to: to packages with distinct names, such that everything it
asks for is among them, in the version it says, and what each requires is before it. -/
structure Orderly (request : RunRequest) (skills : List SkillRef) (ts : List (String × Found)) :
    Prop where
  refs : List.Forall₂ (fun r t => R.IsRef request.context.userBinding r t.2) skills ts
  distinct : (skills.map fun r => r.name).Nodup
  asked : ∀ binding, .ok binding ∈ R.asks request →
    ∃ f, R.lookup binding.name (R.rootsOf request) = .ok f ∧
      (∃ t ∈ ts, t.2.toPackage = f.toPackage) ∧ ∀ v ∈ binding.version, f.version = v
  required : ∀ before t after, ts = before ++ t :: after → ∀ name ∈ t.2.requires,
    ∃ f, R.lookup name (R.rootsOf request) = .ok f ∧ ∃ t' ∈ before, t'.2.toPackage = f.toPackage

/-- A request that reaches something broken is refused with a `DomainError`, and any other request
that is not refused comes to its references. -/
def Resolves (request : RunRequest) (bundles : String → Option Bundle) : Prop :=
  match R.resolveAndStore request bundles with
  | .ok (_, snapshot) =>
      ¬R.Broken request ∧ ∃ ts, R.taken request = .ok ts ∧ R.Orderly request snapshot.skills ts
  | .error e => R.Broken request → ∃ code message, e = .domain code message

/-- What a request reaches can be read: only a `DomainError` is raised by reading it. -/
structure Readable (request : RunRequest) : Prop where
  wanted : ∀ name, R.Wants request name → ∀ e, R.lookup name (R.rootsOf request) = .error e →
    ∃ code message, e = .domain code message
  scanned : ∀ e, .error e ∈ R.asks request → ∃ code message, e = .domain code message

/-- No two packages that a request reaches declare one name and one version. -/
def Unambiguous (request : RunRequest) : Prop :=
  ∀ f g, R.Reached request f → R.Reached request g → f.name = g.name → f.version = g.version →
    f.toPackage = g.toPackage

/-- No skill is asked for in the empty version. -/
def Versioned (request : RunRequest) : Prop :=
  ∀ binding, .ok binding ∈ R.asks request → binding.version ≠ some ""

/-- No chain of requirements is too long for the interpreter. -/
def Fits (request : RunRequest) : Prop :=
  ∀ fs : List Found, (fs.IsChain fun f g => R.Requires (R.rootsOf request) g f) →
    (∀ f ∈ fs, R.Reached request f) → (fs.map fun f => f.name).Nodup → fs.length ≤ R.depth

/-- All names that can be reached. -/
def names (request : RunRequest) : List String :=
  (R.asks request).filterMap (fun ask => ask.toOption.map (·.name)) ++
    R.tree.files.flatMap fun f => ((decodeUtf8 f.2).bind (requiresOf R.py)).getD []

/-- All packages that can be reached. -/
def packages (request : RunRequest) : List Found :=
  (R.names request).filterMap fun name => (R.lookup name (R.rootsOf request)).toOption

end Requirements

/-! ## Lookups -/

theorem readBindingMeta_ok {binding : SkillBinding} :
    R.readBindingMeta binding roots = .ok f ↔ R.lookup binding.name roots = .ok f ∧
      (binding.version.getD "" = "" ∨ binding.version.getD "" = f.version) := by
  rw [readBindingMeta, except_bind_eq_ok]
  constructor
  · rintro ⟨f', looked, h⟩
    dsimp only at h
    split at h
    · cases h
    next fits =>
      cases h
      exact ⟨looked, by tauto⟩
  · rintro ⟨looked, fits⟩
    exact ⟨f, looked, if_neg fun both => fits.elim both.1 both.2⟩

theorem readBindingMeta_error {binding : SkillBinding} {e : ResolveError}
    (h : R.readBindingMeta binding roots = .error e) :
    R.lookup binding.name roots = .error e ∨ ∃ code message, e = .domain code message := by
  rcases except_bind_eq_error.1 h with missing | ⟨f, -, h⟩
  · exact .inl missing
  · dsimp only at h
    split at h
    · cases h
      exact .inr ⟨_, _, rfl⟩
    · cases h

theorem require_eq_error {α : Type} {value : Option α} {e e' : ResolveError}
    (h : require value e = .error e') : e' = e := by
  cases value with
  | none =>
      cases h
      rfl
  | some a => cases h

theorem read_error {root : Root} {dir : SkillDir} {e : ResolveError}
    (h : R.read root dir = .error e) : e ≠ .recursion := by
  rcases except_bind_eq_error.1 h with h | ⟨p, -, h⟩
  · rcases except_bind_eq_error.1 h with h | ⟨bytes, -, h⟩
    · exact require_eq_error h ▸ fun h => by cases h
    rcases except_bind_eq_error.1 h with h | ⟨text, -, h⟩
    · exact require_eq_error h ▸ fun h => by cases h
    rcases except_bind_eq_error.1 h with h | ⟨requires, -, h⟩
    · exact require_eq_error h ▸ fun h => by cases h
    rcases except_bind_eq_error.1 h with h | ⟨name, -, h⟩
    · exact require_eq_error h ▸ fun h => by cases h
    dsimp only at h
    split at h
    · cases h
      exact fun h => by cases h
    · rcases except_bind_eq_error.1 h with h | ⟨bundle, -, h⟩
      · exact require_eq_error h ▸ fun h => by cases h
      · cases h
  · cases h

theorem lookIn_error {name : String} {root : Root} {e : ResolveError}
    (h : R.lookIn name root = .error e) : e ≠ .recursion := by
  unfold lookIn at h
  split at h
  · rcases except_bind_eq_error.1 h with h | ⟨f, -, h⟩
    · exact read_error h
    · cases h
  · dsimp only at h
    split at h
    · rcases except_bind_eq_error.1 h with h | ⟨f, -, h⟩
      · exact read_error h
      · cases h
    · cases h

theorem lookup_error {name : String} {e : ResolveError} (h : R.lookup name roots = .error e) :
    e ≠ .recursion := by
  induction roots with
  | nil =>
      cases h
      exact fun h => by cases h
  | cons root roots ih =>
      rw [lookup] at h
      rcases except_bind_eq_error.1 h with h | ⟨o, -, h⟩
      · exact lookIn_error h
      · cases o with
        | none => exact ih h
        | some f => cases h

/-- A name that is reached is asked for, or in some `SKILL.md`. -/
theorem Wants.mem_names {name : String} (h : R.Wants request name) : name ∈ R.names request := by
  cases h with
  | asked there => exact List.mem_append_left _ (List.mem_filterMap.2 ⟨_, there, rfl⟩)
  | required wants found need =>
      obtain ⟨root, dir, package⟩ := lookup_read found
      obtain ⟨-, -, -, bytes, file, required⟩ := readSkill_ok (read_ok package)
      refine List.mem_append_right _ (List.mem_flatMap.2 ⟨_, FileTree.mem_files.2 file, ?_⟩)
      rw [required]
      exact need

theorem Reached.mem_packages (h : R.Reached request f) : f ∈ R.packages request := by
  obtain ⟨name, wants, looked⟩ := h
  refine List.mem_filterMap.2 ⟨name, wants.mem_names, ?_⟩
  rw [looked]
  rfl

/-! ## What resolving comes to -/

theorem graph_find {binding : SkillBinding} {t : String × Found} :
    (R.graph roots).find binding = .ok t ↔
      t.1 = binding.name ∧ R.readBindingMeta binding roots = .ok t.2 := by
  show (R.readBindingMeta binding roots).map _ = _ ↔ _
  rw [except_map_eq_ok]
  constructor
  · rintro ⟨f, found, rfl⟩
    exact ⟨rfl, found⟩
  · rintro ⟨name, found⟩
    exact ⟨t.2, found, Prod.ext name.symm rfl⟩

/-- A name is found by a binding without version where it is looked up. -/
theorem graph_find_name {name : String} {t : String × Found} :
    (R.graph roots).find { name } = .ok t ↔ t.1 = name ∧ R.lookup name roots = .ok t.2 := by
  rw [graph_find, readBindingMeta_ok]
  exact and_congr_right fun _ => and_iff_left (.inl rfl)

theorem Wants.of_reaches {binding : SkillBinding}
    (h : (R.graph (R.rootsOf request)).Reaches (R.asks request) binding) :
    R.Wants request binding.name := by
  induction h with
  | asked there => exact .asked there
  | @needed binding binding' t reached found need ih =>
      obtain ⟨name, there, rfl⟩ := List.mem_map.1 need
      exact .required ih (readBindingMeta_ok.1 (graph_find.1 found).2).1 there

theorem Reached.of_graph (h : (R.graph (R.rootsOf request)).Reached (R.asks request) t) :
    R.Reached request t.2 := by
  obtain ⟨binding, reaches, found⟩ := h
  exact ⟨_, .of_reaches reaches, (readBindingMeta_ok.1 (graph_find.1 found).2).1⟩

theorem Requires.of_graph {t' : String × Found} (h : (R.graph roots).Needs t t') :
    R.Requires roots t.2 t'.2 := by
  obtain ⟨binding, need, found⟩ := h
  obtain ⟨name, there, rfl⟩ := List.mem_map.1 need
  exact ⟨name, there, (graph_find_name.1 found).2⟩

/-- The name a package was looked up by does not matter to what it requires. -/
theorem Requires.to_graph (h : Relation.TransGen (R.Requires roots) f g) :
    ∃ name, ∀ name', Relation.TransGen (R.graph roots).Needs (name', f) (name, g) := by
  induction h with
  | single need =>
      obtain ⟨name, there, looked⟩ := need
      exact ⟨name, fun name' => .single
        ⟨{ name }, List.mem_map_of_mem there, graph_find_name.2 ⟨rfl, looked⟩⟩⟩
  | tail _ need ih =>
      obtain ⟨name, there, looked⟩ := need
      obtain ⟨middle, before⟩ := ih
      exact ⟨name, fun name' => (before name').tail
        ⟨{ name }, List.mem_map_of_mem there, graph_find_name.2 ⟨rfl, looked⟩⟩⟩

theorem needs_congr {t t' : String × Found} (same : t.2.toPackage = t'.2.toPackage) :
    (R.graph roots).needs t = (R.graph roots).needs t' :=
  congrArg (fun p : Package => p.requires.map fun name => ({ name } : SkillBinding)) same

/-- A name whose package another one stands for, where no two declare one name and version. -/
theorem Unambiguous.same (h : R.Unambiguous request)
    (there : (R.graph (R.rootsOf request)).Reached (R.asks request) t) {t' : String × Found}
    (reached : (R.graph (R.rootsOf request)).Reached (R.asks request) t')
    (name : t.2.name = t'.2.name) (apart : (R.graph (R.rootsOf request)).clash t t' = none) :
    t.2.toPackage = t'.2.toPackage := by
  refine h _ _ (.of_graph there) (.of_graph reached) name ?_
  rw [graph_clash] at apart
  split at apart
  · cases apart
  next same => exact not_not.1 same

theorem refs_names {skills : List SkillRef}
    (h : List.Forall₂ (fun r t => R.IsRef user r t.2) skills ts) :
    skills.map (fun r => r.name) = ts.map fun t => t.2.name := by
  induction h with
  | nil => rfl
  | @cons r t skills ts first rest ih =>
      have first : R.IsRef user r t.2 := first
      rw [List.map_cons, List.map_cons, ih, first]
      rfl

section Taken

variable (taken : R.taken request = .ok ts)
include taken

theorem Unambiguous.orderly (h : R.Unambiguous request) (versioned : R.Versioned request)
    {skills : List SkillRef}
    (refs : List.Forall₂ (fun r t => R.IsRef request.context.userBinding r t.2) skills ts) :
    R.Orderly request skills ts where
  refs := refs
  distinct := by
    rw [refs_names refs]
    exact (DepGraph.resolve_ok taken).1.nodup
  asked binding there := by
    obtain ⟨built, reached, all⟩ := DepGraph.resolve_ok taken
    obtain ⟨_, same, t, found, t', ht', name, apart⟩ := all _ there
    cases same
    obtain ⟨looked, version⟩ := readBindingMeta_ok.1 (graph_find.1 found).2
    refine ⟨t.2, looked, ⟨t', ht', ?_⟩, fun v hv => ?_⟩
    · exact h.same (reached t' ht') ⟨binding, .asked there, found⟩ name apart
    · have full := versioned binding there
      rw [hv] at version full
      exact (version.resolve_left fun empty => full (congrArg some empty)).symm
  required before t after split name need := by
    obtain ⟨built, reached, -⟩ := DepGraph.resolve_ok taken
    obtain ⟨t₁, found, t', ht', same, apart⟩ :=
      built.ready split { name } (List.mem_map_of_mem need)
    refine ⟨t₁.2, (graph_find_name.1 found).2, t', ht', ?_⟩
    have there : t ∈ ts := split ▸ List.mem_append_right _ List.mem_cons_self
    have there' : t' ∈ ts := split ▸ List.mem_append_left _ ht'
    exact h.same (reached t' there')
      ((reached t there).needs ⟨{ name }, List.mem_map_of_mem need, found⟩) same apart

/-- Where no two packages declare one name and version, one stands for each that is reached. -/
theorem Unambiguous.stands (h : R.Unambiguous request) {name : String}
    (wants : R.Wants request name) :
    ∃ f, R.lookup name (R.rootsOf request) = .ok f ∧
      (R.graph (R.rootsOf request)).Reached (R.asks request) (name, f) ∧
        ∃ t ∈ ts, t.2.name = f.name ∧ t.2.version = f.version := by
  obtain ⟨built, reached, all⟩ := DepGraph.resolve_ok taken
  have stands : ∀ {binding}, (R.graph (R.rootsOf request)).Reaches (R.asks request) binding →
      (R.graph (R.rootsOf request)).Stands ts binding := by
    intro binding reaches
    refine built.stands needs_congr (fun binding there => ?_)
      (fun m hm n hn same apart => h.same (reached m hm) hn same apart) reaches
    obtain ⟨_, same, stands⟩ := all _ there
    cases same
    exact stands
  have reaches : ∃ binding : SkillBinding, binding.name = name ∧
      (R.graph (R.rootsOf request)).Reaches (R.asks request) binding := by
    induction wants with
    | @asked binding there => exact ⟨binding, rfl, .asked there⟩
    | required wants found need ih =>
        obtain ⟨binding, rfl, reaches⟩ := ih
        obtain ⟨t, found', -⟩ := stands reaches
        have same := (readBindingMeta_ok.1 (graph_find.1 found').2).1.symm.trans found
        cases same
        exact ⟨_, rfl, .needed reaches found' (List.mem_map_of_mem need)⟩
  obtain ⟨binding, rfl, reaches⟩ := reaches
  obtain ⟨⟨_, f⟩, found, t, ht, same, apart⟩ := stands reaches
  obtain ⟨rfl, looked⟩ := graph_find.1 found
  refine ⟨f, (readBindingMeta_ok.1 looked).1, ⟨binding, reaches, found⟩, t, ht, same, ?_⟩
  rw [graph_clash] at apart
  split at apart
  · cases apart
  next same => exact not_not.1 same

theorem Unambiguous.not_broken (h : R.Unambiguous request) : ¬R.Broken request := by
  obtain ⟨built, reached, all⟩ := DepGraph.resolve_ok taken
  rintro (⟨name, wants, missing⟩ | ⟨f, ⟨name, wants, looked⟩, round⟩ |
    ⟨f, g, ⟨name, wants, looked⟩, ⟨name', wants', looked'⟩, same, other⟩)
  · obtain ⟨f, found, -⟩ := h.stands taken wants
    exact missing f found
  · obtain ⟨f', found, there, -⟩ := h.stands taken wants
    cases looked.symm.trans found
    obtain ⟨middle, walk⟩ := Requires.to_graph round
    refine built.not_cyclic needs_congr (fun binding there => ?_)
      (fun m hm n hn same apart => h.same (reached m hm) hn same apart)
      (there.all (walk name)) (walk middle)
    obtain ⟨_, same, stands⟩ := all _ there
    cases same
    exact stands
  · obtain ⟨f', found, -, t, ht, name, version⟩ := h.stands taken wants
    cases looked.symm.trans found
    obtain ⟨g', found', -, t', ht', name', version'⟩ := h.stands taken wants'
    cases looked'.symm.trans found'
    have one := List.inj_on_of_nodup_map built.nodup ht ht' (name.trans (same.trans name'.symm))
    exact other (version.symm.trans (one ▸ version'))

end Taken

/-- What is reached is among the references, where they are what the request comes to. -/
theorem Orderly.unambiguous {skills : List SkillRef} (h : R.Orderly request skills ts) :
    R.Unambiguous request := by
  have all : ∀ name, R.Wants request name → ∃ f, R.lookup name (R.rootsOf request) = .ok f ∧
      ∃ t ∈ ts, t.2.toPackage = f.toPackage := by
    intro name wants
    induction wants with
    | asked there =>
        obtain ⟨f, looked, there, -⟩ := h.asked _ there
        exact ⟨f, looked, there⟩
    | @required _ name' f wants found need ih =>
        obtain ⟨f', looked, t, ht, same⟩ := ih
        cases looked.symm.trans found
        obtain ⟨before, after, split⟩ := List.append_of_mem ht
        have need : name' ∈ t.2.requires := by
          rw [same]
          exact need
        obtain ⟨g, looked', t', ht', same'⟩ := h.required before t after split name' need
        exact ⟨g, looked', t', split ▸ List.mem_append_left _ ht', same'⟩
  intro f g ⟨name, wants, looked⟩ ⟨name', wants', looked'⟩ same version
  obtain ⟨f', found, t, ht, alike⟩ := all name wants
  cases looked.symm.trans found
  obtain ⟨g', found', t', ht', alike'⟩ := all name' wants'
  cases looked'.symm.trans found'
  have nodup := h.distinct
  rw [refs_names h.refs] at nodup
  have one : t = t' := by
    refine List.inj_on_of_nodup_map nodup ht ht' ?_
    rw [alike, alike', same]
  rw [← alike, ← alike', one]

theorem Orderly.versioned {skills : List SkillRef} (h : R.Orderly request skills ts) :
    R.Versioned request := by
  intro binding there empty
  obtain ⟨f, looked, -, version⟩ := h.asked binding there
  obtain ⟨root, dir, package⟩ := lookup_read looked
  obtain ⟨-, -, full, -⟩ := readSkill_ok (read_ok package)
  exact full (version "" empty)

/-! ## How resolving fails -/

theorem graph_find_eq_error {binding : SkillBinding} {e : ResolveError} :
    (R.graph roots).find binding = .error e ↔ R.readBindingMeta binding roots = .error e := by
  show (R.readBindingMeta binding roots).map _ = _ ↔ _
  cases R.readBindingMeta binding roots with
  | error e' =>
      show Except.error e' = _ ↔ _
      rw [Except.error.injEq, Except.error.injEq]
  | ok f => exact iff_of_false (fun h => by cases h) (fun h => by cases h)

/-- Resolving fails because something cannot be read, with a `DomainError`, or because a chain of
requirements is too long. -/
theorem taken_error {e : ResolveError} (h : R.taken request = .error e) :
    .error e ∈ R.asks request ∨
      (∃ name, R.Wants request name ∧ R.lookup name (R.rootsOf request) = .error e) ∨
        (∃ code message, e = .domain code message) ∨
          e = .recursion ∧ ∃ ns, (R.graph (R.rootsOf request)).Chain (R.asks request) ns ∧
            ns.length = R.depth + 1 := by
  rcases DepGraph.resolve_error h with
    scanned | ⟨binding, reaches, missing⟩ | ⟨t, t', clash⟩ | ⟨t, rfl⟩ | deep
  · exact .inl scanned
  · rcases readBindingMeta_error (graph_find_eq_error.1 missing) with missing | domain
    · exact .inr (.inl ⟨_, .of_reaches reaches, missing⟩)
    · exact .inr (.inr (.inl domain))
  · rw [graph_clash] at clash
    split at clash
    · cases clash
      exact .inr (.inr (.inl ⟨_, _, rfl⟩))
    · cases clash
  · exact .inr (.inr (.inl ⟨_, _, rfl⟩))
  · exact .inr (.inr (.inr deep))

theorem Fits.chain (fits : R.Fits request) {ns : List (String × Found)}
    (h : (R.graph (R.rootsOf request)).Chain (R.asks request) ns) : ns.length ≤ R.depth := by
  have linked : (ns.map Prod.snd).IsChain fun f g => R.Requires (R.rootsOf request) g f :=
    (List.isChain_map _).2 (h.linked.imp fun t t' need => .of_graph need)
  have nodup : ((ns.map Prod.snd).map fun f => f.name).Nodup := by
    rw [List.map_map]
    exact h.nodup
  have reached : ∀ f ∈ ns.map Prod.snd, R.Reached request f := by
    intro f hf
    obtain ⟨t, ht, rfl⟩ := List.mem_map.1 hf
    exact .of_graph (h.reached t ht)
  have short := fits _ linked reached nodup
  rwa [List.length_map] at short

/-- Where the calls may be nested as deep as there are names, every chain fits. -/
theorem Fits.of_names (h : (R.names request).length ≤ R.depth) : R.Fits request := by
  intro fs _ reached nodup
  have sub : fs.map (fun f => f.name) ⊆ (R.packages request).map fun f => f.name :=
    List.map_subset _ fun f hf => (reached f hf).mem_packages
  have le := (nodup.subperm sub).length_le
  rw [List.length_map, List.length_map] at le
  exact le.trans ((List.length_filterMap_le _ _).trans h)

theorem Readable.domain (h : R.Readable request) (fits : R.Fits request) {e : ResolveError}
    (failed : R.taken request = .error e) : ∃ code message, e = .domain code message := by
  rcases taken_error failed with scanned | ⟨name, wants, missing⟩ | domain | ⟨-, ns, chain, length⟩
  · exact h.scanned e scanned
  · exact h.wanted name wants e missing
  · exact domain
  · have short := fits.chain chain
    omega

/-- The recursion ends: it is nested no deeper than there are names. -/
theorem taken_ends (h : (R.names request).length ≤ R.depth) :
    R.taken request ≠ .error .recursion := by
  intro failed
  rcases taken_error failed with scanned | ⟨name, -, missing⟩ | ⟨_, _, same⟩ |
    ⟨-, ns, chain, length⟩
  · rcases List.mem_append.1 scanned with explicit | scanned
    · obtain ⟨binding, -, same⟩ := List.mem_map.1 explicit
      cases same
    · obtain ⟨d, -, same⟩ := List.mem_map.1 scanned
      cases found : R.read d.1 d.2 with
      | ok f =>
          rw [found] at same
          cases same
      | error e =>
          rw [found] at same
          cases same
          exact read_error found rfl
  · exact lookup_error missing rfl
  · cases same
  · have short := (Fits.of_names h).chain chain
    omega

/-- **Resolving is well-founded.**  It ends.  Where no two packages that are reached declare one
name and one version, no skill is asked for in the empty version and no chain of requirements is
too long, a request that reaches something broken is refused with a `DomainError`, and any other
comes to its references if it is not refused.  For a request that is not refused, the first two
conditions are necessary. -/
theorem resolution_orderly_iff {R : Resolver} {request : RunRequest}
    {bundles : String → Option Bundle} (readable : R.Readable request) :
    (∃ bound, ∀ depth, bound ≤ depth →
      Resolver.resolveAndStore { R with depth } request bundles ≠ .error .recursion) ∧
    (R.Unambiguous request ∧ R.Versioned request ∧ R.Fits request → R.Resolves request bundles) ∧
    ∀ done, R.resolveAndStore request bundles = .ok done →
      (R.Resolves request bundles ↔ R.Unambiguous request ∧ R.Versioned request) := by
  refine ⟨⟨(R.names request).length, fun depth le failed => ?_⟩, ?_, fun done ok => ?_⟩
  · have steps := resolveAndStore_taken { R with depth } request bundles
    rw [failed] at steps
    cases taken : Resolver.taken { R with depth } request with
    | ok ts =>
        rw [taken] at steps
        cases steps
    | error e =>
        rw [taken] at steps
        cases steps
        exact taken_ends (R := { R with depth }) le taken
  · rintro ⟨one, versioned, fits⟩
    rw [Resolves]
    have steps := resolveAndStore_taken R request bundles
    cases taken : R.taken request with
    | ok ts =>
        rw [taken] at steps
        cases resolved : R.resolveAndStore request bundles with
        | error e =>
            rw [resolved] at steps
            cases steps
        | ok done =>
            rw [resolved] at steps
            cases steps with
            | ok tells => exact ⟨one.not_broken taken, ts, rfl,
                one.orderly taken versioned tells.skills⟩
    | error e =>
        rw [taken] at steps
        cases resolved : R.resolveAndStore request bundles with
        | ok done =>
            rw [resolved] at steps
            cases steps
        | error e' =>
            rw [resolved] at steps
            cases steps
            exact fun _ => readable.domain fits taken
  · have steps := resolveAndStore_taken R request bundles
    rw [ok] at steps
    cases taken : R.taken request with
    | error e =>
        rw [taken] at steps
        cases steps
    | ok ts =>
        rw [taken] at steps
        cases steps with
        | ok tells =>
            rw [Resolves, ok]
            constructor
            · rintro ⟨-, ts', same, orderly⟩
              exact ⟨orderly.unambiguous, orderly.versioned⟩
            · rintro ⟨one, versioned⟩
              exact ⟨one.not_broken taken, ts, taken, one.orderly taken versioned tells.skills⟩

private theorem notesDir_isComponent : IsComponent "notes" := by decide

private def notesDir : Name := .text "notes" notesDir_isComponent

private theorem plansDir_isComponent : IsComponent "plans" := by decide

private def plansDir : Name := .text "plans" plansDir_isComponent

private theorem skillsDir_isComponent : IsComponent "skills" := by decide

private def skillsDir : Name := .text "skills" skillsDir_isComponent

/-- Two packages with these `SKILL.md` files. -/
private def twoPackages (first second : String) : Resolver where
  py := ⟨.plain, fun _ => ""⟩
  sha256 := plainDigest
  le _ _ := true
  tree := .build [([skillsDir], .dir), ([skillsDir, notesDir], .dir), ([skillsDir, plansDir], .dir),
    ([skillsDir, notesDir, skillMd], .file (utf8 first)),
    ([skillsDir, plansDir, skillMd], .file (utf8 second))]
  skillsRoot := .parse "/skills"
  snapshotRoot := .parse "/snapshots"
  depth := 9

private def nested : Resolver :=
  twoPackages "---\nname: notes\nversion: 1\nrequires: plans\n---\n"
    "---\nname: plans\nversion: 2\n---\n"

private def shadowed : Resolver :=
  twoPackages "---\nname: notes\nversion: 1\n---\n"
    "---\nname: notes\nversion: 1\nrequires: ideas\n---\n"

private def asking (skills : List SkillBinding) : RunRequest where
  sessionId := ⟨0⟩
  input := ""
  context := {}
  skills := skills

/-- Only a `DomainError` is raised for any name. -/
private theorem Readable.of_names {R : Resolver} {request : RunRequest}
    (wanted : ∀ name ∈ R.names request,
      (match R.lookup name (R.rootsOf request) with
        | .ok _ | .error (.domain _ _) => true
        | .error _ => false) = true)
    (scanned : R.dirs request = []) : R.Readable request where
  wanted name wants e failed := by
    have here := wanted name wants.mem_names
    rw [failed] at here
    cases e with
    | domain code message => exact ⟨code, message, rfl⟩
    | undecodable | unencodable | recursion => cases here
  scanned e there := by
    rw [asks, scanned, List.map_nil, List.append_nil] at there
    obtain ⟨binding, -, same⟩ := List.mem_map.1 there
    cases same

theorem resolution_orderly_nested :
    nested.Resolves (asking [⟨"notes", some "1"⟩]) fun _ => none := by
  have readable : nested.Readable (asking [⟨"notes", some "1"⟩]) :=
    .of_names (by decide +kernel) rfl
  have one : ∀ f ∈ nested.packages (asking [⟨"notes", some "1"⟩]),
      ∀ g ∈ nested.packages (asking [⟨"notes", some "1"⟩]), f.name = g.name →
        f.version = g.version → f.toPackage = g.toPackage := by decide +kernel
  refine (resolution_orderly_iff readable).2.1
    ⟨fun f g hf hg => one f hf.mem_packages g hg.mem_packages, fun binding there => ?_,
      Fits.of_names (by decide +kernel)⟩
  cases there with
  | head => decide
  | tail _ there => cases there

/-- A package that declares the name and version of another is dropped, and the skill it requires,
which there is not, is not missed. -/
theorem resolution_not_orderly : ∃ (R : Resolver) (request : RunRequest),
    R.Readable request ∧ R.Versioned request ∧ R.Fits request ∧
      ¬R.Resolves request fun _ => none := by
  refine ⟨shadowed, asking [⟨"notes", none⟩, ⟨"plans", none⟩],
    .of_names (by decide +kernel) rfl, fun binding there => ?_,
    Fits.of_names (by decide +kernel), fun resolves => ?_⟩
  · cases there with
    | head => decide
    | tail _ there =>
        cases there with
        | head => decide
        | tail _ there => cases there
  · have accepted : (shadowed.resolveAndStore (asking [⟨"notes", none⟩, ⟨"plans", none⟩])
        fun _ => none).toOption.isSome = true := by decide +kernel
    rw [Resolves] at resolves
    cases resolved : shadowed.resolveAndStore (asking [⟨"notes", none⟩, ⟨"plans", none⟩])
        fun _ => none with
    | error e =>
        rw [resolved] at accepted
        cases accepted
    | ok done =>
        rw [resolved] at resolves
        have requiring : (shadowed.lookup "plans" (shadowed.rootsOf (asking []))).toOption.any
            (fun f => decide ("ideas" ∈ f.requires)) = true := by decide +kernel
        refine resolves.1 (.inl ⟨"ideas", ?_, fun f found => ?_⟩)
        · cases looked : shadowed.lookup "plans" (shadowed.rootsOf (asking [])) with
          | error e =>
              rw [looked] at requiring
              cases requiring
          | ok f =>
              rw [looked] at requiring
              have there : .ok ⟨"plans", none⟩ ∈
                  shadowed.asks (asking [⟨"notes", none⟩, ⟨"plans", none⟩]) := .tail _ (.head _)
              exact .required (.asked there) looked (of_decide_eq_true requiring)
        · have missing : (shadowed.lookup "ideas"
              (shadowed.rootsOf (asking []))).toOption.isNone = true := by decide +kernel
          rw [show shadowed.lookup "ideas" (shadowed.rootsOf (asking [])) = _ from found] at missing
          cases missing

end Resolver

end CodeForge.Skills
