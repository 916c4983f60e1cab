import CodeForge.Contracts
import CodeForge.Lib.Fallible

/-!
# The layout of a binding

A binding with a storage root is three paths below one another: the root, the
user directory relative to it, the project directory relative to that.
`Layout` is such a triple, clean and with no part empty, and `Layout.binding` its
binding.  On a host without links the constructor `UserBinding.new` accepts
nothing else (`Layout.of_new`), and accepts every layout again (`Layout.new`), so
a binding that is taken apart and put together again is the same.
-/

namespace CodeForge

open Lib

/-! ## Canonical paths -/

section Canonical

variable {home : String → Option PurePath} {field : String}

theorem not_isBlank_render {p : PurePath} (h : p.absolute = true) : isBlank p.render = false := by
  simp [isBlank, PurePath.render, h, isSpace]

theorem canonicalPath_eq_ok {value s : String}
    (h : canonicalPath (.withoutLinks home) value field = .ok s) :
    ∃ p : PurePath, p.absolute = true ∧ p.Clean ∧ s = p.render := by
  unfold canonicalPath at h
  split at h
  · cases h
  split at h
  · cases h
  split at h
  · cases h
  next path _ =>
    split at h
    · cases h
    next habs =>
      split at h
      · cases h
      next q hq =>
        obtain ⟨rfl, hclean⟩ := FileSystem.withoutLinks_eq_some hq
        cases h
        exact ⟨_, by simpa using habs, hclean, rfl⟩

/-- A clean absolute path is canonical. -/
theorem canonicalPath_render {p : PurePath} (habs : p.absolute = true) (h : p.Clean) :
    canonicalPath (.withoutLinks home) p.render field = .ok p.render := by
  have hexpand : (Host.withoutLinks home).expandUser p = some p := by
    obtain ⟨a, parts, valid⟩ := p
    cases habs
    rfl
  have hresolve : (Host.withoutLinks home).resolve p = some p :=
    FileSystem.withoutLinks_resolve h
  unfold canonicalPath
  rw [not_isBlank_render habs, if_neg (by simp), if_neg (by simpa using h.nul_render),
    PurePath.parse_render, hexpand]
  simp [habs, hresolve]

theorem canonicalRelativePath_eq_ok {value s : String} :
    canonicalRelativePath value field = .ok s →
      isBlank value = false ∧ (PurePath.parse value).absolute = false ∧
        (PurePath.parse value).parts ≠ [] ∧ (PurePath.parse value).Normal ∧
          s = (PurePath.parse value).render := by
  unfold canonicalRelativePath
  intro h
  split at h
  · cases h
  next hblank =>
    split at h
    · cases h
    dsimp only at h
    split at h
    · cases h
    next habs =>
      split at h
      · cases h
      next hparts =>
        rw [not_or] at hparts
        cases h
        exact ⟨by simpa using hblank, by simpa using habs, hparts.1, hparts.2, rfl⟩

/-- A clean relative path is canonical, unless its text is blank. -/
theorem canonicalRelativePath_render {p : PurePath} (habs : p.absolute = false)
    (hne : p.parts ≠ []) (h : p.Clean) (hblank : isBlank p.render = false) :
    canonicalRelativePath p.render field = .ok p.render := by
  unfold canonicalRelativePath
  rw [hblank, if_neg (by simp), if_neg (by simpa using h.nul_render)]
  dsimp only
  rw [PurePath.parse_render, if_neg (by simp [habs]), if_neg]
  rintro (e | e)
  · exact hne e
  · exact h.normal e

end Canonical

/-! ## Layouts -/

/-- A root, a user directory below it and a project directory below that. -/
structure Layout where
  root : PurePath
  /-- Relative to the root. -/
  user : PurePath
  /-- Relative to the user directory. -/
  project : PurePath
  root_absolute : root.absolute = true
  user_relative : user.absolute = false
  user_parts : user.parts ≠ []
  project_relative : project.absolute = false
  project_parts : project.parts ≠ []
  root_clean : root.Clean
  user_clean : user.Clean
  project_clean : project.Clean

namespace Layout

/-- The user directory. -/
def userPath (l : Layout) : PurePath := l.root.join l.user

/-- The project directory. -/
def projectPath (l : Layout) : PurePath := l.userPath.join l.project

/-- The binding of a user to the layout. -/
def binding (l : Layout) (tenantRef userRef projectRef : String) : UserBinding where
  scopeId := userRef
  tenantRef := tenantRef
  userRef := userRef
  userPath := l.userPath.render
  projectRef := projectRef
  projectPath := l.projectPath.render
  storageRoot := l.root.render
  userRelPath := l.user.render
  projectRelPath := l.project.render

theorem userPath_absolute (l : Layout) : l.userPath.absolute = true :=
  (PurePath.join_parts l.user_relative).1.trans l.root_absolute

theorem userPath_clean (l : Layout) : l.userPath.Clean :=
  l.root_clean.join l.user_clean l.user_relative

theorem projectPath_absolute (l : Layout) : l.projectPath.absolute = true :=
  (PurePath.join_parts l.project_relative).1.trans l.userPath_absolute

theorem projectPath_clean (l : Layout) : l.projectPath.Clean :=
  l.userPath_clean.join l.project_clean l.project_relative

theorem relativeTo (l : Layout) : l.projectPath.relativeTo l.userPath = some l.project :=
  PurePath.relativeTo_join l.project_relative

theorem projectPath_ne (l : Layout) : l.projectPath.render ≠ l.userPath.render := by
  intro e
  have := congrArg PurePath.parts (PurePath.render_injective e)
  rw [projectPath, (PurePath.join_parts l.project_relative).2] at this
  exact l.project_parts (by simpa using this)

end Layout

/-- The references of a binding are well formed. -/
def RefsValid (scopeId tenantRef userRef projectRef : String) : Prop :=
  isReference scopeId = true ∧ isReference tenantRef = true ∧ isReference userRef = true ∧
    isReference projectRef = true

theorem UserBinding.checkReferences_eq_ok {fields : List (String × String)} {u : Unit} :
    checkReferences fields = .ok u ↔ ∀ f ∈ fields, isReference f.2 = true := by
  induction fields with
  | nil => simp [checkReferences]
  | cons f fields ih =>
      obtain ⟨field, value⟩ := f
      unfold checkReferences
      by_cases h : isReference value = true
      · simp [h, ih]
      · simp [h]

section New

variable {home : String → Option PurePath}

theorem Layout.storagePaths (l : Layout) (user : isBlank l.user.render = false) :
    UserBinding.storagePaths (.withoutLinks home) l.userPath.render l.root.render l.user.render =
      .ok (l.root.render, l.user.render) := by
  have hresolve : (Host.withoutLinks home).resolve l.userPath = some l.userPath :=
    FileSystem.withoutLinks_resolve l.userPath_clean
  unfold UserBinding.storagePaths
  rw [if_pos (PurePath.render_ne_empty l.root_absolute)]
  refine except_bind_eq_ok.2 ⟨_, canonicalPath_render l.root_absolute l.root_clean, ?_⟩
  refine except_bind_eq_ok.2 ⟨_, canonicalRelativePath_render l.user_relative l.user_parts
    l.user_clean user, ?_⟩
  rw [PurePath.parse_render, PurePath.parse_render, ← Layout.userPath, hresolve]
  simp

theorem Layout.projectRelPathOf (l : Layout) {projectRelPath : String}
    (rel : projectRelPath = "" ∨
      projectRelPath = l.project.render ∧ isBlank l.project.render = false) :
    UserBinding.projectRelPathOf (.withoutLinks home) l.userPath.render l.projectPath.render
      projectRelPath l.project = .ok l.project.render := by
  have hresolve : (Host.withoutLinks home).resolve l.projectPath = some l.projectPath :=
    FileSystem.withoutLinks_resolve l.projectPath_clean
  unfold UserBinding.projectRelPathOf
  rcases rel with rfl | ⟨rfl, blank⟩
  · rw [if_neg (by simp)]
  · split
    · refine except_bind_eq_ok.2 ⟨_, canonicalRelativePath_render l.project_relative
        l.project_parts l.project_clean blank, ?_⟩
      rw [PurePath.parse_render, PurePath.parse_render, ← Layout.projectPath, hresolve]
      simp
    · rfl

/-- On a host without links, a layout is accepted as it is. -/
theorem Layout.new (l : Layout) {tenantRef userRef projectRef projectRelPath : String}
    (refs : RefsValid userRef tenantRef userRef projectRef) (user : isBlank l.user.render = false)
    (rel : projectRelPath = "" ∨
      projectRelPath = l.project.render ∧ isBlank l.project.render = false) :
    UserBinding.new (.withoutLinks home) userRef tenantRef userRef l.userPath.render projectRef
      (some l.projectPath.render) l.root.render l.user.render projectRelPath =
        .ok (l.binding tenantRef userRef projectRef) := by
  have hrefs : UserBinding.checkReferences [("scope_id", userRef), ("tenant_ref", tenantRef),
      ("user_ref", userRef), ("project_ref", projectRef)] = .ok () := by
    rw [UserBinding.checkReferences_eq_ok]
    obtain ⟨h₁, h₂, h₃, h₄⟩ := refs
    simp [h₁, h₂, h₄]
  unfold UserBinding.new
  refine except_bind_eq_ok.2 ⟨_, hrefs, ?_⟩
  rw [if_neg (by simp)]
  refine except_bind_eq_ok.2 ⟨_, canonicalPath_render l.userPath_absolute l.userPath_clean, ?_⟩
  refine except_bind_eq_ok.2 ⟨_, l.storagePaths user, ?_⟩
  refine except_bind_eq_ok.2 ⟨_, canonicalPath_render l.projectPath_absolute
    l.projectPath_clean, ?_⟩
  rw [PurePath.parse_render, PurePath.parse_render, l.relativeTo]
  dsimp only
  rw [if_neg l.projectPath_ne]
  exact except_bind_eq_ok.2 ⟨_, l.projectRelPathOf rel, rfl⟩

/-- What a resolved join of normal paths is. -/
theorem resolve_join {p q r : PurePath} (hp : p.Normal) (hq : q.Normal)
    (hrel : q.absolute = false) (h : (Host.withoutLinks home).resolve (p.join q) = some r) :
    r = p.join q ∧ (p.join q).Clean := by
  obtain ⟨hr, hclean⟩ := FileSystem.withoutLinks_eq_some h
  rw [PurePath.normalize_of_normal (PurePath.normal_join hrel hp hq)] at hr
  exact ⟨hr, hr ▸ hclean⟩

theorem UserBinding.storagePaths_eq_ok {userPath storageRoot userRelPath : String}
    {paths : String × String} (hroot : storageRoot ≠ "")
    (h : storagePaths (.withoutLinks home) userPath storageRoot userRelPath = .ok paths) :
    ∃ root user : PurePath, root.absolute = true ∧ root.Clean ∧ user = .parse userRelPath ∧
      user.absolute = false ∧ user.parts ≠ [] ∧ user.Clean ∧ isBlank userRelPath = false ∧
        paths = (root.render, user.render) ∧ userPath = (root.join user).render := by
  unfold storagePaths at h
  rw [if_pos hroot] at h
  obtain ⟨r, hr, h⟩ := except_bind_eq_ok.1 h
  obtain ⟨u, hu, h⟩ := except_bind_eq_ok.1 h
  obtain ⟨root, rabs, rclean, rfl⟩ := canonicalPath_eq_ok hr
  obtain ⟨ublank, urel, uparts, unormal, rfl⟩ := canonicalRelativePath_eq_ok hu
  rw [PurePath.parse_render, PurePath.parse_render] at h
  split at h
  · cases h
  next expected he =>
    obtain ⟨rfl, clean⟩ := resolve_join rclean.normal unormal urel he
    split at h
    · cases h
    next hpath =>
      cases h
      exact ⟨root, _, rabs, rclean, rfl, urel, uparts, (clean.of_join urel).2, ublank, rfl,
        by simpa using hpath⟩

theorem UserBinding.projectRelPathOf_eq_ok {user derived : PurePath} {projectRelPath s : String}
    (huser : user.Normal) (hderived : derived.absolute = false)
    (h : projectRelPathOf (.withoutLinks home) user.render (user.join derived).render
      projectRelPath derived = .ok s) :
    s = derived.render ∧ (projectRelPath ≠ "" →
      isBlank projectRelPath = false ∧ PurePath.parse projectRelPath = derived) := by
  unfold projectRelPathOf at h
  split at h
  next hne =>
    obtain ⟨p, hp, h⟩ := except_bind_eq_ok.1 h
    obtain ⟨blank, rel, -, normal, rfl⟩ := canonicalRelativePath_eq_ok hp
    rw [PurePath.parse_render, PurePath.parse_render] at h
    split at h
    · cases h
    next expected he =>
      obtain ⟨rfl, -⟩ := resolve_join huser normal rel he
      split at h
      · cases h
      next hpath =>
        cases h
        have heq := PurePath.join_right_inj hderived rel
          (PurePath.render_injective (by simpa using hpath))
        exact ⟨by rw [heq], fun _ => ⟨blank, heq.symm⟩⟩
  next hne =>
    cases h
    exact ⟨rfl, fun c => absurd c hne⟩

/-- On a host without links, what is accepted is a layout. -/
theorem Layout.of_new {scopeId tenantRef userRef userPath projectRef projectPath storageRoot
    userRelPath projectRelPath : String} {b : UserBinding} (hroot : storageRoot ≠ "")
    (h : UserBinding.new (.withoutLinks home) scopeId tenantRef userRef userPath projectRef
      (some projectPath) storageRoot userRelPath projectRelPath = .ok b) :
    ∃ l : Layout, b = l.binding tenantRef userRef projectRef ∧ scopeId = userRef ∧
      RefsValid userRef tenantRef userRef projectRef ∧
      canonicalPath (.withoutLinks home) userPath "user_path" = .ok l.userPath.render ∧
      canonicalPath (.withoutLinks home) projectPath "project_path" = .ok l.projectPath.render ∧
      (l.user = .parse userRelPath ∧ isBlank userRelPath = false) ∧
      (projectRelPath ≠ "" →
        isBlank projectRelPath = false ∧ PurePath.parse projectRelPath = l.project) := by
  unfold UserBinding.new at h
  obtain ⟨_, hrefs, h⟩ := except_bind_eq_ok.1 h
  have refs := UserBinding.checkReferences_eq_ok.1 hrefs
  simp only [List.mem_cons, List.not_mem_nil, or_false, forall_eq_or_imp, forall_eq] at refs
  split at h
  · cases h
  next hscope =>
    have hscope : scopeId = userRef := by simpa using hscope
    subst hscope
    obtain ⟨_, huser, h⟩ := except_bind_eq_ok.1 h
    obtain ⟨up, -, upclean, rfl⟩ := canonicalPath_eq_ok huser
    obtain ⟨paths, hpaths, h⟩ := except_bind_eq_ok.1 h
    obtain ⟨root, user, rabs, rclean, uparse, urel, uparts, uclean, ublank, rfl, hup⟩ :=
      UserBinding.storagePaths_eq_ok hroot hpaths
    obtain ⟨_, hproject, h⟩ := except_bind_eq_ok.1 h
    obtain ⟨pp, -, ppclean, rfl⟩ := canonicalPath_eq_ok hproject
    rw [PurePath.parse_render, PurePath.parse_render] at h
    split at h
    · cases h
    next derived hderived =>
      have drel : derived.absolute = false := (PurePath.relativeTo_eq_some.1 hderived).2.2
      have hjoin := PurePath.join_of_relativeTo hderived
      subst hjoin
      split at h
      · cases h
      next hne =>
        obtain ⟨_, hrel, h⟩ := except_bind_eq_ok.1 h
        obtain ⟨rfl, given⟩ := UserBinding.projectRelPathOf_eq_ok upclean.normal drel hrel
        have hup' := PurePath.render_injective hup
        subst hup'
        have dparts : derived.parts ≠ [] := by
          intro e
          apply hne
          congr 1
          ext1
          · exact (PurePath.join_parts drel).1
          · rw [(PurePath.join_parts drel).2, e, List.append_nil]
        refine ⟨⟨root, user, derived, rabs, urel, uparts, drel, dparts, rclean, uclean,
          (ppclean.of_join drel).2⟩, ?_, rfl, ⟨refs.1, refs.2.1, refs.1, refs.2.2.2⟩,
          huser, hproject, ⟨uparse, ublank⟩, given⟩
        cases h
        rfl

end New

end CodeForge
