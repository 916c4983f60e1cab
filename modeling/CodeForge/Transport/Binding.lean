import CodeForge.BindingLayout
import CodeForge.Persistence.Bindings

/-!
# Bindings of requests and of sessions

The server makes a binding twice: from the payload of `create-session`, and for
every message again from the row of the session.  A project without a public
reference is stored under an internal one, which starts with two underscores, and
the way back takes any such reference for an internal one and derives it anew.

So a binding survives the way exactly when its stored reference is public, or
the one derived from its directory (`UserBinding.Rederivable`).  The default
project and public references that look internal are lost.
-/

namespace CodeForge

open Lib

/-! ## Reading a payload -/

/-- `_absolute_path` -/
def absolutePath (host : Host) (value : Json) (field : String) : Except StoreError String :=
  match value with
  | .str s =>
      if isBlank s then .error (.domain .invalidRequest s!"{field} is required")
      else if (PurePath.parse s).absolute = false then
        .error (.domain .invalidRequest s!"{field} must be an absolute path")
      else match host.resolve (.parse s) with
        | none => .error (.unresolvable field)
        | some path => .ok path.render
  | _ => .error (.domain .invalidRequest s!"{field} is required")

/-- `_relative_path` -/
def relativePath (value : Json) (field : String) : Except StoreError String :=
  match value with
  | .str s =>
      let path := PurePath.parse s
      if isBlank s then .error (.domain .invalidRequest s!"{field} is required")
      else if path.absolute then .error (.domain .invalidRequest s!"{field} must be relative")
      else if path.parts = [] ∨ ".." ∈ path.parts then
        .error (.domain .invalidRequest s!"{field} escapes its logical root")
      else .ok path.render
  | _ => .error (.domain .invalidRequest s!"{field} is required")

/-- The value is absent: `value in (None, "")`. -/
def isAbsent : Json → Bool
  | .null => true
  | .str s => s = ""
  | _ => false

/-- `_reference(..., allow_empty=True)` -/
def optReference (value : Json) (field : String) : Except StoreError String :=
  if isAbsent value then .ok ""
  else match value with
    | .str s =>
        if isReference s then .ok s else .error (.domain .invalidRequest s!"{field} is invalid")
    | _ => .error (.domain .invalidRequest s!"{field} is invalid")

/-- The first characters of the digest of a text. -/
def digestOf (d : Deployment) (n : Nat) (text : String) : String :=
  String.ofList ((d.sha256 (utf8 text)).toList.take n)

/-- `_user_ref` -/
def userRefOf (d : Deployment) (userRelPath : String) : String :=
  "u-" ++ digestOf d 32 userRelPath

/-- `_derived_project_ref` -/
def derivedProjectRef (d : Deployment) : Option String → String
  | none => "__default__"
  | some projectRelPath => "__derived_" ++ digestOf d 24 projectRelPath

/-- The relative project path of a payload, where it has one. -/
def optRelativePath (value : Json) (field : String) : Except StoreError (Option String) :=
  if isAbsent value then .ok none else (relativePath value field).map some

/-- `path.resolve(strict=False)` -/
def resolvePath (host : Host) (path : PurePath) (field : String) : Except StoreError PurePath :=
  match host.resolve path with
  | none => .error (.unresolvable field)
  | some path => .ok path

/-- The project directory of a payload. -/
def projectDir (host : Host) (userPath : PurePath) (publicRef : String) :
    Option String → Except StoreError PurePath
  | some rel => resolvePath host (userPath.join (.parse rel)) "project_path"
  | none =>
      if publicRef ≠ "" then
        .ok (((userPath.join (.parse "workspace")).join (.parse "projects")).join
          (.parse publicRef))
      else .ok (userPath.join (.parse "workspace"))

/-- `_binding_from_payload` -/
def bindingFromPayload (d : Deployment) (storageRoot userRelPath projectRef projectRelPath : Json) :
    Except StoreError UserBinding := do
  let root ← absolutePath d.host storageRoot "storage_root"
  let userRelative ← relativePath userRelPath "user_rel_path"
  let projectRelative ← optRelativePath projectRelPath "project_rel_path"
  let publicRef ← optReference projectRef "project_ref"
  let internalRef := if publicRef ≠ "" then publicRef else derivedProjectRef d projectRelative
  let userPath ← resolvePath d.host ((PurePath.parse root).join (.parse userRelative)) "user_path"
  let projectPath ← projectDir d.host userPath publicRef projectRelative
  let userRef := userRefOf d userRelative
  let projectPath ← resolvePath d.host projectPath "project_path"
  UserBinding.new d.host userRef "platform" userRef userPath.render internalRef
    (some projectPath.render) root userRelative (projectRelative.getD "")

/-- The reference is an internal one: `startswith("__")`. -/
def isInternalRef (ref : String) : Bool := "__".toList.isPrefixOf ref.toList

/-- `_binding_from_session`, which sees the columns of the workspace in the row of
the session. -/
def bindingFromSession (d : Deployment) (w : WorkspaceRow) :
    Except StoreError (Option UserBinding) :=
  if w.projectPath = "" ∨ w.userPath = "" then .ok none
  else match (PurePath.parse w.projectPath).relativeTo (.parse w.userPath) with
    | none => .ok none
    | some projectRelPath =>
        if w.storageRoot = "" then .ok none
        else (bindingFromPayload d (.str w.storageRoot) (.str w.userRelPath)
          (if isInternalRef w.projectRef then .null else .str w.projectRef)
          (.str projectRelPath.render)).map some

/-! ## Default directories -/

/-- A text with a character that is no space. -/
theorem not_isBlank_of_mem {s : String} {c : Char} (hc : c ∈ s.toList) (hs : isSpace c = false) :
    isBlank s = false := by
  rw [isBlank, Bool.eq_false_iff]
  intro e
  rw [List.all_eq_true.1 e c hc] at hs
  cases hs

/-- A directory below the user directory that was given no name of its own is in
`workspace`. -/
theorem workspace_mem_parts {userPath project : PurePath} {parts : List String}
    (normal : userPath.Normal) {publicRef : String} (hslash : '/' ∉ publicRef.toList)
    (hparts : parts = userPath.parts ++ ["workspace"] ∨
      parts = userPath.parts ++ ["workspace", "projects"] ++ (PurePath.parse publicRef).parts)
    (h : userPath.parts ++ project.parts = (PurePath.collapse parts).reverse) :
    "workspace" ∈ project.parts := by
  have hpush : ∀ cs, PurePath.collapse (userPath.parts ++ cs) =
      cs.foldl PurePath.push userPath.parts.reverse := by
    intro cs
    rw [PurePath.collapse, List.foldl_append, PurePath.foldl_push_of_normal normal,
      List.append_nil]
  have hmem : ∃ rest, (PurePath.collapse parts).reverse =
      userPath.parts ++ "workspace" :: rest := by
    rcases hparts with rfl | rfl
    · exact ⟨[], by rw [hpush]; simp [PurePath.push]⟩
    · rw [List.append_assoc, hpush]
      rcases PurePath.parse_parts_of_not_mem hslash with e | e
      · exact ⟨["projects"], by rw [e]; simp [PurePath.push]⟩
      · rw [e]
        by_cases hup : publicRef = ".."
        · exact ⟨[], by simp [PurePath.push, hup]⟩
        · exact ⟨["projects", publicRef], by simp [PurePath.push, hup]⟩
  obtain ⟨rest, hrest⟩ := hmem
  rw [hrest] at h
  rw [List.append_cancel_left h]
  exact List.mem_cons_self

/-- The default project directory, component by component. -/
theorem projectDir_default {host : Host} {userPath dir : PurePath} {publicRef : String}
    (relative : (PurePath.parse publicRef).absolute = false)
    (h : projectDir host userPath publicRef none = .ok dir) :
    dir.absolute = userPath.absolute ∧ (dir.parts = userPath.parts ++ ["workspace"] ∨
      dir.parts = userPath.parts ++ ["workspace", "projects"] ++
        (PurePath.parse publicRef).parts) := by
  have workspace : (PurePath.parse "workspace").absolute = false ∧
      (PurePath.parse "workspace").parts = ["workspace"] := by decide
  have projects : (PurePath.parse "projects").absolute = false ∧
      (PurePath.parse "projects").parts = ["projects"] := by decide
  have below := PurePath.join_parts (p := userPath) workspace.1
  rw [workspace.2] at below
  simp only [projectDir] at h
  split at h
  · cases h
    have deeper := PurePath.join_parts (p := userPath.join (.parse "workspace")) projects.1
    rw [projects.2, below.1, below.2] at deeper
    have last := PurePath.join_parts
      (p := (userPath.join (.parse "workspace")).join (.parse "projects")) relative
    rw [deeper.1, deeper.2] at last
    exact ⟨last.1, .inr (by rw [last.2]; simp)⟩
  · cases h
    exact ⟨below.1, .inl below.2⟩

theorem isReference_not_mem_slash {s : String} (h : isReference s = true) : '/' ∉ s.toList := by
  intro hmem
  simp only [isReference, Bool.and_eq_true, List.all_eq_true] at h
  exact absurd (h.2 _ hmem) (by decide)

theorem optReference_eq_ok {value : Json} {field s : String}
    (h : optReference value field = .ok s) :
    (isAbsent value = true ∧ s = "") ∨
      (isAbsent value = false ∧ value = .str s ∧ s ≠ "" ∧ isReference s = true) := by
  unfold optReference at h
  split at h
  next habsent =>
    cases h
    exact .inl ⟨habsent, rfl⟩
  next habsent =>
    right
    split at h
    next v =>
      split at h
      next href =>
        cases h
        exact ⟨by simpa using habsent, rfl, by simpa [isAbsent] using habsent, href⟩
      next => cases h
    next => cases h

theorem optReference_of {s field : String} (h : isReference s = true) (hne : s ≠ "") :
    optReference (.str s) field = .ok s := by
  simp [optReference, isAbsent, hne, h]

/-- The reference of the default project is derived from no directory. -/
theorem derivedProjectRef_ne_default {d : Deployment} {rel : String} :
    derivedProjectRef d (some rel) ≠ derivedProjectRef d none := by
  intro h
  have := congrArg (fun s => s.toList.take 5) h
  simp [derivedProjectRef] at this

/-! ## Layouts of payloads -/

section WithoutLinks

variable {d : Deployment} {home : String → Option PurePath} (hd : d.host = .withoutLinks home)
  {field : String}

theorem relativePath_eq_ok {value : Json} {s : String} (h : relativePath value field = .ok s) :
    ∃ p : PurePath, p.absolute = false ∧ p.parts ≠ [] ∧ p.Normal ∧ s = p.render := by
  unfold relativePath at h
  split at h
  next v =>
    dsimp only at h
    split at h
    · cases h
    split at h
    · cases h
    next habs =>
      split at h
      · cases h
      next hparts =>
        rw [not_or] at hparts
        cases h
        exact ⟨_, by simpa using habs, hparts.1, hparts.2, rfl⟩
  next => cases h

theorem relativePath_render {p : PurePath} (habs : p.absolute = false) (hne : p.parts ≠ [])
    (normal : p.Normal) (hblank : isBlank p.render = false) :
    relativePath (.str p.render) field = .ok p.render := by
  simp only [relativePath, hblank, PurePath.parse_render, habs, Bool.false_eq_true, if_false]
  rw [if_neg]
  rintro (e | e)
  · exact hne e
  · exact normal e

theorem optRelativePath_eq_ok {value : Json} {o : Option String}
    (h : optRelativePath value field = .ok o) :
    (isAbsent value = true ∧ o = none) ∨ (isAbsent value = false ∧ ∃ p : PurePath,
      p.absolute = false ∧ p.parts ≠ [] ∧ p.Normal ∧ o = some p.render) := by
  unfold optRelativePath at h
  split at h
  next habsent =>
    cases h
    exact .inl ⟨habsent, rfl⟩
  next habsent =>
    right
    cases hr : relativePath value field with
    | error e => simp [hr, Except.map] at h
    | ok s =>
        obtain ⟨p, hp, hne, hn, rfl⟩ := relativePath_eq_ok hr
        rw [hr] at h
        cases h
        exact ⟨by simpa using habsent, p, hp, hne, hn, rfl⟩

include hd

theorem absolutePath_eq_ok {value : Json} {s : String}
    (h : absolutePath d.host value field = .ok s) :
    ∃ p : PurePath, p.absolute = true ∧ p.Clean ∧ s = p.render := by
  rw [hd] at h
  unfold absolutePath at h
  split at h
  next v =>
    split at h
    · cases h
    split at h
    · cases h
    next habs =>
      split at h
      · cases h
      next q hq =>
        obtain ⟨rfl, clean⟩ := FileSystem.withoutLinks_eq_some hq
        cases h
        exact ⟨_, by simpa using habs, clean, rfl⟩
  next => cases h

theorem absolutePath_render {p : PurePath} (habs : p.absolute = true) (clean : p.Clean) :
    absolutePath d.host (.str p.render) field = .ok p.render := by
  have hresolve : (Host.withoutLinks home).resolve p = some p :=
    FileSystem.withoutLinks_resolve clean
  simp [absolutePath, hd, not_isBlank_render habs, PurePath.parse_render, habs, hresolve]

theorem resolvePath_eq_ok {p q : PurePath} (h : resolvePath d.host p field = .ok q) :
    q = p.normalize ∧ q.Clean := by
  rw [hd] at h
  unfold resolvePath at h
  split at h
  · cases h
  next r hr =>
    cases h
    exact FileSystem.withoutLinks_eq_some hr

theorem resolvePath_clean {p : PurePath} (clean : p.Clean) :
    resolvePath d.host p field = .ok p := by
  have hresolve : (Host.withoutLinks home).resolve p = some p :=
    FileSystem.withoutLinks_resolve clean
  rw [hd, resolvePath, hresolve]

/-- The payload of a layout makes its binding, with the reference that is given or
derived. -/
theorem Layout.payload (l : Layout) (user : isBlank l.user.render = false)
    (project : isBlank l.project.render = false) {ref : Json} {publicRef : String}
    (hpublic : optReference ref "project_ref" = .ok publicRef) :
    bindingFromPayload d (.str l.root.render) (.str l.user.render) ref (.str l.project.render) =
      UserBinding.new d.host (userRefOf d l.user.render) "platform" (userRefOf d l.user.render)
        l.userPath.render
        (if publicRef ≠ "" then publicRef else derivedProjectRef d (some l.project.render))
        (some l.projectPath.render) l.root.render l.user.render l.project.render := by
  have hrel : optRelativePath (.str l.project.render) "project_rel_path" =
      .ok (some l.project.render) := by
    have hne : l.project.render ≠ "" := by
      intro e
      rw [e] at project
      cases project
    simp [optRelativePath, isAbsent, hne, Except.map, relativePath_render l.project_relative
      l.project_parts l.project_clean.normal project]
  have hdir : projectDir d.host l.userPath publicRef (some l.project.render) =
      .ok l.projectPath := by
    rw [projectDir, PurePath.parse_render]
    exact resolvePath_clean hd l.projectPath_clean
  unfold bindingFromPayload
  rw [absolutePath_render hd l.root_absolute l.root_clean, except_ok_bind,
    relativePath_render l.user_relative l.user_parts l.user_clean.normal user, except_ok_bind,
    hrel, except_ok_bind, hpublic, except_ok_bind]
  dsimp only
  rw [PurePath.parse_render, PurePath.parse_render, ← Layout.userPath,
    resolvePath_clean hd l.userPath_clean, except_ok_bind, hdir, except_ok_bind,
    resolvePath_clean hd l.projectPath_clean, except_ok_bind, Option.getD_some]

/-- What a payload is accepted as. -/
theorem bindingFromPayload_eq_ok {storageRoot userRelPath projectRef projectRelPath : Json}
    {b : UserBinding}
    (h : bindingFromPayload d storageRoot userRelPath projectRef projectRelPath = .ok b) :
    ∃ (l : Layout) (publicRef : String), optReference projectRef "project_ref" = .ok publicRef ∧
      b = l.binding "platform" (userRefOf d l.user.render) b.projectRef ∧
      b.projectRef = (if publicRef ≠ "" then publicRef else derivedProjectRef d
        (if isAbsent projectRelPath then none else some l.project.render)) ∧
      RefsValid (userRefOf d l.user.render) "platform" (userRefOf d l.user.render) b.projectRef ∧
      isBlank l.user.render = false ∧ isBlank l.project.render = false := by
  unfold bindingFromPayload at h
  obtain ⟨_, hroot, h⟩ := except_bind_eq_ok.1 h
  obtain ⟨root, rabs, -, rfl⟩ := absolutePath_eq_ok hd hroot
  obtain ⟨_, huser, h⟩ := except_bind_eq_ok.1 h
  obtain ⟨user, urel, -, -, rfl⟩ := relativePath_eq_ok huser
  obtain ⟨rel, hrel, h⟩ := except_bind_eq_ok.1 h
  obtain ⟨publicRef, hpublic, h⟩ := except_bind_eq_ok.1 h
  obtain ⟨up, hup, h⟩ := except_bind_eq_ok.1 h
  obtain ⟨dir, hdir, h⟩ := except_bind_eq_ok.1 h
  obtain ⟨pp, hpp, h⟩ := except_bind_eq_ok.1 h
  rw [hd] at h
  obtain ⟨l, hb, -, refs, cup, cpp, ⟨hluser, ublank⟩, given⟩ :=
    Layout.of_new (PurePath.render_ne_empty rabs) h
  rw [PurePath.parse_render] at hluser hup
  subst hluser
  refine ⟨l, publicRef, hpublic, ?_⟩
  rcases optRelativePath_eq_ok hrel with ⟨absent, rfl⟩ | ⟨present, p, -, pparts, -, rfl⟩
  · -- the directory is a default one, below `workspace`
    obtain ⟨hup', upclean⟩ := resolvePath_eq_ok hd hup
    obtain ⟨hpp', ppclean⟩ := resolvePath_eq_ok hd hpp
    have upabs : up.absolute = true := by
      rw [hup', PurePath.normalize_absolute, PurePath.parse_render]
      exact (PurePath.join_parts urel).1.trans rabs
    have hslash : '/' ∉ publicRef.toList := by
      rcases optReference_eq_ok hpublic with ⟨-, rfl⟩ | ⟨-, -, -, valid⟩
      · decide
      · exact isReference_not_mem_slash valid
    have hdirs := projectDir_default (PurePath.parse_absolute_of_not_mem hslash) hdir
    have hl : l.userPath = up := by
      rw [canonicalPath_render upabs upclean] at cup
      exact (PurePath.render_injective (Except.ok.inj cup)).symm
    have hlp : l.projectPath = pp := by
      rw [canonicalPath_render (by rw [hpp']; exact hdirs.1.trans upabs) ppclean] at cpp
      exact (PurePath.render_injective (Except.ok.inj cpp)).symm
    have hmem : "workspace" ∈ l.project.parts := by
      refine workspace_mem_parts upclean.normal hslash hdirs.2 ?_
      rw [← hl, ← (PurePath.join_parts l.project_relative).2, ← Layout.projectPath, hlp, hpp']
      rfl
    refine ⟨by rw [hb]; rfl, ?_, by rw [hb]; exact refs, ublank, ?_⟩
    · rw [if_pos absent, hb]
      rfl
    · exact not_isBlank_of_mem (PurePath.mem_render hmem (c := 'w') (by decide)) (by decide)
  · have hne : p.render ≠ "" := by
      intro e
      have := PurePath.parse_render p
      rw [e] at this
      rw [← this] at pparts
      exact pparts (by decide)
    obtain ⟨pblank, hp⟩ := given hne
    simp only [Option.getD_some, PurePath.parse_render] at pblank hp
    subst hp
    refine ⟨by rw [hb]; rfl, ?_, by rw [hb]; exact refs, ublank, pblank⟩
    simp only [present, Bool.false_eq_true, if_false]
    rw [hb]
    rfl

end WithoutLinks

/-! ## The way back -/

/-- Some payload is accepted as the binding. -/
def UserBinding.Accepted (d : Deployment) (b : UserBinding) : Prop :=
  ∃ storageRoot userRelPath projectRef projectRelPath,
    bindingFromPayload d storageRoot userRelPath projectRef projectRelPath = .ok b

/-- The reference of the binding is public, or the one derived from its directory. -/
def UserBinding.Rederivable (d : Deployment) (b : UserBinding) : Prop :=
  isInternalRef b.projectRef = false ∨
    b.projectRef = derivedProjectRef d (some b.projectRelPath)

/-- A message to a session of the workspace passes the check of its binding. -/
def WorkspaceRow.SendPasses (d : Deployment) (w : WorkspaceRow) : Prop :=
  ∃ b, bindingFromSession d w = .ok (some b) ∧
    requireSessionBinding d.host w (some b) = .ok ()

theorem requireSessionBinding_eq_ok {host : Host} {w : WorkspaceRow} {stored : Option UserBinding}
    (h : w.storedBinding host = .ok stored) {b : UserBinding} {u : Unit} :
    requireSessionBinding host w (some b) = .ok u ↔ stored = some b := by
  unfold requireSessionBinding
  rw [h, except_ok_bind]
  by_cases e : stored = some b
  · simp [e, pure, Except.pure]
  · simp [e]

section WithoutLinks

variable {d : Deployment} {home : String → Option PurePath} (hd : d.host = .withoutLinks home)
  {w : WorkspaceRow} {b : UserBinding}

include hd

/-- An accepted binding is read back from the columns of its workspace. -/
theorem WorkspaceRow.Bound.storedBinding (bound : w.Bound b) (accepted : b.Accepted d) :
    w.storedBinding d.host = .ok (some b) := by
  obtain ⟨_, _, _, _, h⟩ := accepted
  obtain ⟨l, publicRef, -, hb, -, refs, user, -⟩ := bindingFromPayload_eq_ok hd h
  generalize b.projectRef = ref at hb refs
  subst hb
  have hne : w.projectPath ≠ "" := by
    rw [bound.projectPath]
    exact PurePath.render_ne_empty l.projectPath_absolute
  unfold WorkspaceRow.storedBinding
  rw [if_pos hne, hd, bound.tenantRef, bound.userRef, bound.userPath, bound.projectRef,
    bound.projectPath, bound.storageRoot, bound.userRelPath]
  exact congrArg (Except.map some) (l.new refs user (.inl rfl))

/-- The way back finds the binding exactly when it can be derived again. -/
theorem WorkspaceRow.Bound.fromSession_iff (bound : w.Bound b) (accepted : b.Accepted d) :
    bindingFromSession d w = .ok (some b) ↔ b.Rederivable d := by
  obtain ⟨_, _, _, _, h⟩ := accepted
  obtain ⟨l, _, -, hb, -, refs, user, project⟩ := bindingFromPayload_eq_ok hd h
  generalize href : b.projectRef = ref at hb refs
  subst hb
  have hproject : w.projectPath ≠ "" := by
    rw [bound.projectPath]
    exact PurePath.render_ne_empty l.projectPath_absolute
  have huser : w.userPath ≠ "" := by
    rw [bound.userPath]
    exact PurePath.render_ne_empty l.userPath_absolute
  have hroot : w.storageRoot ≠ "" := by
    rw [bound.storageRoot]
    exact PurePath.render_ne_empty l.root_absolute
  have hrel : (PurePath.parse w.projectPath).relativeTo (.parse w.userPath) = some l.project := by
    rw [bound.projectPath, bound.userPath]
    simp only [Layout.binding, PurePath.parse_render]
    exact l.relativeTo
  -- the reference the way back ends with
  let found := if isInternalRef ref then derivedProjectRef d (some l.project.render) else ref
  have hback : bindingFromSession d w = Except.map some
      (UserBinding.new d.host (userRefOf d l.user.render) "platform" (userRefOf d l.user.render)
        l.userPath.render found (some l.projectPath.render) l.root.render l.user.render
          l.project.render) := by
    have hne : ref ≠ "" := by
      rintro rfl
      exact absurd refs.2.2.2 (by decide)
    unfold bindingFromSession
    rw [if_neg (by simp [hproject, huser]), hrel]
    dsimp only
    rw [if_neg hroot, bound.storageRoot, bound.userRelPath, bound.projectRef]
    by_cases hi : isInternalRef ref = true
    · simp only [Layout.binding, hi, if_true, found]
      have absent : optReference .null "project_ref" = .ok "" := rfl
      rw [l.payload hd user project absent, if_neg (by simp)]
    · simp only [Layout.binding, hi, found]
      rw [if_neg (by simp), l.payload hd user project (optReference_of refs.2.2.2 hne), if_pos hne]
      simp
  have hfound : ref = found ↔ (l.binding "platform" (userRefOf d l.user.render) ref).Rederivable d := by
    unfold UserBinding.Rederivable
    simp only [Layout.binding, found]
    cases isInternalRef ref <;> simp
  rw [hback, ← hfound, hd]
  constructor
  · intro hmap
    cases hnew : UserBinding.new (.withoutLinks home) (userRefOf d l.user.render) "platform"
        (userRefOf d l.user.render) l.userPath.render found (some l.projectPath.render)
        l.root.render l.user.render l.project.render with
    | error e =>
        rw [hnew] at hmap
        cases hmap
    | ok b' =>
        rw [hnew] at hmap
        obtain ⟨l', hb', -⟩ := Layout.of_new (PurePath.render_ne_empty l.root_absolute) hnew
        have := congrArg UserBinding.projectRef (Option.some.inj (Except.ok.inj hmap))
        rw [hb'] at this
        exact this.symm
  · intro hr
    rw [← hr, l.new refs user (.inr ⟨rfl, project⟩)]
    rfl

/-- So does the check of a message. -/
theorem WorkspaceRow.Bound.sendPasses_iff (bound : w.Bound b) (accepted : b.Accepted d) :
    w.SendPasses d ↔ b.Rederivable d := by
  have stored := bound.storedBinding hd accepted
  rw [← bound.fromSession_iff hd accepted]
  constructor
  · rintro ⟨b', hback, hcheck⟩
    rw [requireSessionBinding_eq_ok stored] at hcheck
    rwa [hcheck]
  · intro hback
    exact ⟨b, hback, (requireSessionBinding_eq_ok stored).2 rfl⟩

/-- The payload names its project by a public reference, by the derived one, or by
its directory alone. -/
def RefStable (d : Deployment) (projectRef projectRelPath : Json) (directory : String) : Prop :=
  (isAbsent projectRef = true ∧ isAbsent projectRelPath = false) ∨
    ∃ r, projectRef = .str r ∧ r ≠ "" ∧
      (isInternalRef r = false ∨ r = derivedProjectRef d (some directory))

theorem rederivable_iff_refStable {storageRoot userRelPath projectRef projectRelPath : Json}
    (h : bindingFromPayload d storageRoot userRelPath projectRef projectRelPath = .ok b) :
    b.Rederivable d ↔ RefStable d projectRef projectRelPath b.projectRelPath := by
  obtain ⟨l, publicRef, hpublic, hb, href, -, -, -⟩ := bindingFromPayload_eq_ok hd h
  have hdir : b.projectRelPath = l.project.render := by rw [hb]; rfl
  rw [UserBinding.Rederivable, hdir]
  rcases optReference_eq_ok hpublic with ⟨absent, rfl⟩ | ⟨present, rfl, hne, -⟩
  · rw [if_neg (by simp)] at href
    have noRef : ∀ r, projectRef = .str r → r = "" := by
      rintro r rfl
      simpa [isAbsent] using absent
    constructor
    · intro hr
      refine .inl ⟨absent, ?_⟩
      cases hrel : isAbsent projectRelPath with
      | false => rfl
      | true =>
          -- the default project has a reference nobody derives
          exfalso
          rw [hrel, if_pos rfl] at href
          rw [href] at hr
          rcases hr with hr | hr
          · change isInternalRef "__default__" = false at hr
            exact absurd hr (by decide)
          · exact derivedProjectRef_ne_default hr.symm
    · rintro (⟨-, hrel⟩ | ⟨r, hr, hne, -⟩)
      · rw [hrel, if_neg (by simp)] at href
        exact .inr href
      · exact absurd (noRef r hr) hne
  · rw [if_pos hne] at href
    rw [href]
    constructor
    · intro hr
      exact .inr ⟨_, rfl, hne, hr⟩
    · rintro (⟨absent, -⟩ | ⟨r, hr, -, hstable⟩)
      · rw [present] at absent
        cases absent
      · cases hr
        exact hstable

/-- A workspace gives a binding back, and lets messages pass, exactly when it stands for
the binding and the binding can be derived again. -/
theorem WorkspaceRow.roundTrip_iff
    (origin : w.projectPath = "" ∨ ∃ b' : UserBinding, b'.Accepted d ∧ w.Bound b')
    (accepted : b.Accepted d) :
    bindingFromSession d w = .ok (some b) ∧ w.SendPasses d ↔ w.Bound b ∧ b.Rederivable d := by
  constructor
  · rintro ⟨hback, b₂, hback₂, hcheck⟩
    rw [hback] at hback₂
    cases hback₂
    rcases origin with empty | ⟨b', accepted', bound'⟩
    · rw [bindingFromSession, if_pos (.inl empty)] at hback
      cases hback
    · rw [requireSessionBinding_eq_ok (bound'.storedBinding hd accepted')] at hcheck
      cases hcheck
      exact ⟨bound', (bound'.fromSession_iff hd accepted).1 hback⟩
  · rintro ⟨bound, stable⟩
    exact ⟨(bound.fromSession_iff hd accepted).2 stable,
      (bound.sendPasses_iff hd accepted).2 stable⟩

/-- Where the bindings of a project can be derived again, a session of the project
takes messages for good. -/
theorem Steps.sendPasses {π : Discipline} {scopeId : String}
    (hπ : ∀ b', π.binding scopeId b' → b'.projectRef = b.projectRef →
      b'.Accepted d ∧ b'.Rederivable d) {s t : Store}
    (st : Steps d π s t) {id : Uuid} {view : SessionView}
    (hview : s.db.getSession scopeId id = some view) (bound : view.workspace.Bound b)
    (accepted : b.Accepted d) (stable : b.Rederivable d) :
    ∃ view', t.db.getSession scopeId id = some view' ∧ view'.workspace.SendPasses d := by
  have inv := st.preserves
    (I := fun _ _ db => db.sessions.view SessionRow.workspaceId (scopeId, id) =
        some view.session.workspaceId ∧ ∃ b' : UserBinding, b'.projectRef = b.projectRef ∧
      b'.Accepted d ∧ b'.Rederivable d ∧
      db.bindings (scopeId, view.session.workspaceId) = some b'.storedColumns)
    (fun _ _ h => h) ?_ ?_
  · obtain ⟨hs, b', -, haccepted, hstable, hw⟩ := inv
    obtain ⟨s', hs', hk, hwid⟩ := Table.view_eq_some.1 hs
    obtain ⟨w', hw', hwk, hcolumns⟩ := Table.view_eq_some.1 hw
    have hsk : s'.scopeId = scopeId ∧ s'.id = id := Prod.mk.inj hk
    refine ⟨⟨s', w'⟩, Db.getSession_eq_some.2 ⟨Db.session_eq_some.2 ⟨hs', hsk⟩, ?_⟩, ?_⟩
    · refine Db.workspace_eq_some.2 ⟨hw', ?_⟩
      rw [hsk.1, hwid]
      exact Prod.mk.inj hwk
    · exact ((WorkspaceRow.bound_iff.2 hcolumns).sendPasses_iff hd haccepted).2 hstable
  · rintro f n db db' c ⟨hs, b', project, haccepted, hstable, hw⟩
    refine ⟨c.session_workspace hs, ?_⟩
    rcases c.workspace_binding hw with hw | ⟨b'', hbound, hproject, hw⟩
    · exact ⟨b', project, haccepted, hstable, hw⟩
    · have same : b''.projectRef = b.projectRef := hproject.trans project
      exact ⟨b'', same, (hπ _ hbound same).1, (hπ _ hbound same).2, hw⟩
  · obtain ⟨hs, hw⟩ := Db.getSession_eq_some.1 hview
    have hscope : view.session.scopeId = scopeId := (Db.session_eq_some.1 hs).2.1
    rw [hscope] at hw
    refine ⟨Table.view_of_getIn hs _, b, rfl, accepted, stable, ?_⟩
    rw [Db.bindings, Table.view_of_getIn hw, WorkspaceRow.bound_iff.1 bound]

end WithoutLinks

/-- Where the key was used before, the workspace of its session stands for the binding. -/
def Db.SessionStands (db : Db) (scopeId idempotencyKey : String) (b : UserBinding) : Prop :=
  ∀ row, db.sessionRequests.get? (scopeId, idempotencyKey) = some row →
    ∀ view, db.getSession scopeId row.sessionId = some view → view.workspace.Bound b

/-- The session `create_session` gives, a new one or the one made before. -/
theorem createSession_stands {d : Deployment} {scopeId idempotencyKey title : String}
    {externalRef : Option String} {context : ExecutionContext} {s t : Store} {view : SessionView}
    {b : UserBinding} (hb : context.userBinding = some b)
    (h : createSession d scopeId idempotencyKey title externalRef context s = .ok (some view) t) :
    t.db.getSession scopeId view.session.id = some view ∧
      (view.workspace.Bound b ↔ s.db.SessionStands scopeId idempotencyKey b) ∧
      (view.workspace.Bound b ∨ view.workspace ∈ s.db.workspaces) := by
  cases hreq : s.db.sessionRequests.get? (scopeId, idempotencyKey) with
  | none =>
      obtain ⟨hview, bound⟩ := createSession_bound h hreq hb
      refine ⟨hview, iff_of_true bound ?_, .inl bound⟩
      intro row hrow
      rw [hreq] at hrow
      cases hrow
  | some row =>
      obtain ⟨hdb, hview⟩ := createSession_replay h hreq
      obtain ⟨hsession, hworkspace⟩ := Db.getSession_eq_some.1 hview
      have hid : view.session.id = row.sessionId := (Db.session_eq_some.1 hsession).2.2
      refine ⟨by rw [hdb, hid, hview], ?_, .inr (Db.workspace_eq_some.1 hworkspace).1⟩
      constructor
      · intro bound row' hrow' view' hview'
        rw [hreq] at hrow'
        cases hrow'
        rw [hview] at hview'
        cases hview'
        exact bound
      · intro stands
        exact stands row hreq view hview

/-- The payload with this reference opens a session in an empty store. -/
def opensSession (projectRef : Json) : Bool :=
  match bindingFromPayload .plain (.str "/srv") (.str "ada") projectRef .null with
  | .error _ => false
  | .ok b =>
      match createSession .plain b.scopeId "s" "Session" none (.bound b) {} with
      | .ok (some _) _ => true
      | _ => false

theorem opensSession_eq_true {projectRef : Json} (h : opensSession projectRef = true) : ∃ b,
    bindingFromPayload .plain (.str "/srv") (.str "ada") projectRef .null = .ok b ∧ ∃ view t,
    createSession .plain b.scopeId "s" "Session" none (.bound b) {} = .ok (some view) t := by
  unfold opensSession at h
  split at h
  · cases h
  next b hb =>
    split at h
    next view t hs => exact ⟨b, hb, view, t, hs⟩
    next => cases h

/-- A session made for a payload gets its binding back, and takes messages, exactly
when the payload names its project in a way that can be found again, and the session
was not made before for a directory the project has left.  As long as the payloads
of the project do so too, it takes messages for good. -/
theorem createSession_roundTrip {d : Deployment} {home : String → Option PurePath}
    (hd : d.host = .withoutLinks home) {π : Discipline}
    (hπ : ∀ scopeId b, π.binding scopeId b → b.Accepted d)
    {storageRoot userRelPath projectRef projectRelPath : Json} {b : UserBinding}
    (accepted : bindingFromPayload d storageRoot userRelPath projectRef projectRelPath = .ok b)
    {scopeId idempotencyKey title : String} {externalRef : Option String}
    {context : ExecutionContext} (hb : context.userBinding = some b) {s t : Store}
    {view : SessionView} (reach : Reachable d π s)
    (created : createSession d scopeId idempotencyKey title externalRef context s =
      .ok (some view) t) :
    (bindingFromSession d view.workspace = .ok (some b) ∧ view.workspace.SendPasses d ↔
      RefStable d projectRef projectRelPath b.projectRelPath ∧
        s.db.SessionStands scopeId idempotencyKey b) ∧
    (RefStable d projectRef projectRelPath b.projectRelPath →
      s.db.SessionStands scopeId idempotencyKey b →
      ∀ π' : Discipline, (∀ b', π'.binding scopeId b' → b'.projectRef = b.projectRef →
          b'.Accepted d ∧ b'.Rederivable d) →
        ∀ t', Steps d π' t t' → ∃ view',
          t'.db.getSession scopeId view.session.id = some view' ∧
            view'.workspace.SendPasses d) := by
  have haccepted : b.Accepted d := ⟨_, _, _, _, accepted⟩
  obtain ⟨hview, hstands, known⟩ := createSession_stands hb created
  have origin : view.workspace.projectPath = "" ∨
      ∃ b' : UserBinding, b'.Accepted d ∧ view.workspace.Bound b' := by
    rcases known with bound | hmem
    · exact .inr ⟨b, haccepted, bound⟩
    · rcases reach.boundBy.workspace hmem with empty | ⟨b', hb', bound⟩
      · exact .inl empty
      · exact .inr ⟨b', hπ _ _ hb', bound⟩
  rw [← rederivable_iff_refStable hd accepted, ← hstands]
  constructor
  · rw [WorkspaceRow.roundTrip_iff hd origin haccepted, and_comm]
  · intro stable bound π' hπ' t' st
    exact st.sendPasses hd hπ' hview bound haccepted stable

/-- A session of the project `p`. -/
theorem createSession_roundTrip_public : ∃ b view t,
    bindingFromPayload .plain (.str "/srv") (.str "ada") (.str "p") .null = .ok b ∧
    createSession .plain b.scopeId "s" "Session" none (.bound b) {} = .ok (some view) t ∧
    bindingFromSession .plain view.workspace = .ok (some b) ∧
    view.workspace.SendPasses .plain := by
  obtain ⟨b, accepted, view, t, created⟩ :=
    opensSession_eq_true (show opensSession (.str "p") = true by decide +kernel)
  refine ⟨b, view, t, accepted, created, ?_⟩
  refine (createSession_roundTrip (π := { binding := fun _ b => b.Accepted .plain }) rfl
    (fun _ _ h => h) accepted rfl .refl created).1.2 ⟨.inr ⟨"p", rfl, by decide, ?_⟩, ?_⟩
  · exact .inl (by decide)
  · rintro row ⟨⟩

/-- A session of the default project is made, and takes no message. -/
theorem createSession_fails_default : ∃ b view t,
    bindingFromPayload .plain (.str "/srv") (.str "ada") .null .null = .ok b ∧
    createSession .plain b.scopeId "s" "Session" none (.bound b) {} = .ok (some view) t ∧
    bindingFromSession .plain view.workspace ≠ .ok (some b) ∧
    ¬ view.workspace.SendPasses .plain := by
  obtain ⟨b, accepted, view, t, created⟩ :=
    opensSession_eq_true (show opensSession .null = true by decide +kernel)
  have haccepted : b.Accepted .plain := ⟨_, _, _, _, accepted⟩
  have lost : ¬ b.Rederivable .plain := by
    rw [rederivable_iff_refStable rfl accepted]
    rintro (⟨-, ⟨⟩⟩ | ⟨r, ⟨⟩, -⟩)
  have bound := (createSession_bound created rfl rfl).2
  refine ⟨b, view, t, accepted, created, ?_, ?_⟩
  · rwa [ne_eq, bound.fromSession_iff rfl haccepted]
  · rwa [bound.sendPasses_iff rfl haccepted]

end CodeForge
