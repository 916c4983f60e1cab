import Mathlib.Data.List.Basic
import Mathlib.Data.String.Basic

/-!
# POSIX paths

A path is a list of components, from the root or relative.  Reading a text drops
empty components and `.`, so a path carries the proof that it has none, nor one
with a slash inside.  The text of a path reads back as the path (`parse_render`).

`normalize` removes every `..` together with the component before it.  This is
what resolving a path comes to on a file system without symbolic links.
-/

namespace Lib

/-- A text that can be one component of a path. -/
def IsComponent (c : String) : Prop := c ≠ "" ∧ c ≠ "." ∧ '/' ∉ c.toList

instance (c : String) : Decidable (IsComponent c) :=
  inferInstanceAs (Decidable (c ≠ "" ∧ c ≠ "." ∧ '/' ∉ c.toList))

/-- A path: where it starts and its components. -/
@[ext] structure PurePath where
  /-- It starts at the root. -/
  absolute : Bool
  /-- The components, without empty ones and `.`. -/
  parts : List String
  valid : ∀ c ∈ parts, IsComponent c
deriving DecidableEq

namespace PurePath

/-! ## Texts of paths -/

/-- The text of a path.  The relative path without components is `.`. -/
def render (p : PurePath) : String :=
  if p.absolute then String.ofList ('/' :: ['/'].intercalate (p.parts.map String.toList))
  else if p.parts = [] then "."
  else String.ofList (['/'].intercalate (p.parts.map String.toList))

/-- The components of a text. -/
def componentsOf (s : List Char) : List String :=
  ((s.splitOn '/').map String.ofList).filter fun c => decide (IsComponent c)

/-- Read a path. -/
def parse (s : String) : PurePath where
  absolute := s.toList.head? = some '/'
  parts := componentsOf s.toList
  valid := by
    intro c hc
    simpa using (List.mem_filter.1 hc).2

theorem filter_valid {cs : List String} (h : ∀ c ∈ cs, IsComponent c) :
    cs.filter (fun c => decide (IsComponent c)) = cs := by
  rw [List.filter_eq_self]
  intro c hc
  simpa using h c hc

theorem splitOn_intercalate_parts {cs : List String} (h : ∀ c ∈ cs, IsComponent c)
    (hne : cs ≠ []) :
    (['/'].intercalate (cs.map String.toList)).splitOn '/' = cs.map String.toList := by
  apply List.splitOn_intercalate
  · intro l hl
    obtain ⟨c, hc, rfl⟩ := List.mem_map.1 hl
    exact (h c hc).2.2
  · simpa using hne

theorem componentsOf_intercalate {cs : List String} (h : ∀ c ∈ cs, IsComponent c) :
    componentsOf (['/'].intercalate (cs.map String.toList)) = cs := by
  by_cases hne : cs = []
  · subst hne; decide
  · rw [componentsOf, splitOn_intercalate_parts h hne, List.map_map]
    have : String.ofList ∘ String.toList = id := by
      funext c; simp
    rw [this, List.map_id, filter_valid h]

theorem splitOn_cons_slash (l : List Char) :
    ('/' :: l).splitOn '/' = [] :: l.splitOn '/' := by
  simp [List.splitOn, List.splitOnP_cons_eq_if_modifyHead]

theorem componentsOf_cons_slash (l : List Char) : componentsOf ('/' :: l) = componentsOf l := by
  rw [componentsOf, splitOn_cons_slash]
  simp [componentsOf, IsComponent]

/-- The first character of a relative path's text is not a slash. -/
theorem head?_intercalate {cs : List String} (h : ∀ c ∈ cs, IsComponent c) :
    (['/'].intercalate (cs.map String.toList)).head? ≠ some '/' := by
  cases cs with
  | nil => simp
  | cons c cs =>
      have hc := h c (by simp)
      have hne : c.toList ≠ [] := by
        intro e
        exact hc.1 (by rw [← String.ofList_toList (s := c), e])
      obtain ⟨x, xs, hx⟩ := List.exists_cons_of_ne_nil hne
      have hslash : x ≠ '/' := by
        rintro rfl
        exact hc.2.2 (by rw [hx]; simp)
      cases cs with
      | nil => simpa [hx] using hslash
      | cons d ds => simpa [hx, List.intercalate] using hslash

theorem parse_dot : parse "." = ⟨false, [], by simp⟩ := by decide

/-- The text of a path reads back as the path. -/
theorem parse_render (p : PurePath) : parse p.render = p := by
  obtain ⟨abs, parts, valid⟩ := p
  cases abs with
  | true =>
      ext1
      · simp [parse, render]
      · simp [parse, render, componentsOf_cons_slash, componentsOf_intercalate valid]
  | false =>
      by_cases hne : parts = []
      · subst hne
        exact parse_dot
      · ext1
        · simpa [parse, render, hne] using head?_intercalate valid
        · simp [parse, render, hne, componentsOf_intercalate valid]

theorem render_injective : Function.Injective render :=
  Function.LeftInverse.injective parse_render

/-! ## Joining and taking apart -/

/-- `p / q`: an absolute `q` replaces `p`. -/
def join (p q : PurePath) : PurePath :=
  if q.absolute then q
  else ⟨p.absolute, p.parts ++ q.parts, by
    intro c hc
    rcases List.mem_append.1 hc with h | h
    · exact p.valid c h
    · exact q.valid c h⟩

/-- The path from `base` to `p`, where `p` is below `base` or equal to it. -/
def relativeTo (p base : PurePath) : Option PurePath :=
  if p.absolute = base.absolute ∧ base.parts <+: p.parts then
    some ⟨false, p.parts.drop base.parts.length, fun c hc => p.valid c (List.mem_of_mem_drop hc)⟩
  else none

theorem join_parts {p q : PurePath} (h : q.absolute = false) :
    (p.join q).absolute = p.absolute ∧ (p.join q).parts = p.parts ++ q.parts := by
  simp [join, h]

theorem relativeTo_eq_some {p base r : PurePath} :
    p.relativeTo base = some r ↔
      p.absolute = base.absolute ∧ p.parts = base.parts ++ r.parts ∧ r.absolute = false := by
  unfold relativeTo
  constructor
  · intro h
    split at h
    next hp =>
      obtain ⟨habs, t, ht⟩ := hp
      cases h
      refine ⟨habs, ?_, rfl⟩
      simp [← ht]
    next => cases h
  · rintro ⟨habs, hparts, hr⟩
    rw [if_pos ⟨habs, r.parts, hparts.symm⟩]
    congr 1
    ext1
    · exact hr.symm
    · simp [hparts]

/-- Going down a relative path and taking the way back. -/
theorem relativeTo_join {p q : PurePath} (h : q.absolute = false) :
    (p.join q).relativeTo p = some q :=
  relativeTo_eq_some.2 ⟨(join_parts h).1, (join_parts h).2, h⟩

theorem join_right_inj {p q r : PurePath} (hq : q.absolute = false) (hr : r.absolute = false)
    (h : p.join q = p.join r) : q = r := by
  have := congrArg (relativeTo · p) h
  rw [relativeTo_join hq, relativeTo_join hr] at this
  exact Option.some.inj this

/-- Taking the way to a path and going down it. -/
theorem join_of_relativeTo {p base r : PurePath} (h : p.relativeTo base = some r) :
    base.join r = p := by
  obtain ⟨habs, hparts, hr⟩ := relativeTo_eq_some.1 h
  ext1
  · rw [(join_parts hr).1, habs]
  · rw [(join_parts hr).2, hparts]

/-! ## Normal forms -/

/-- One component on top of the components so far, the last one first. -/
def push (stack : List String) (c : String) : List String :=
  if c = ".." then stack.tail else c :: stack

/-- The components with every `..` carried out, the last one first. -/
def collapse (cs : List String) : List String := cs.foldl push []

theorem mem_of_mem_foldl_push {cs : List String} :
    ∀ {stack : List String} {c : String}, c ∈ cs.foldl push stack → c ∈ stack ∨ c ∈ cs := by
  induction cs with
  | nil => intro stack c h; exact .inl h
  | cons d ds ih =>
      intro stack c h
      rcases ih h with h | h
      · unfold push at h
        split at h
        · exact .inl (List.mem_of_mem_tail h)
        · rcases List.mem_cons.1 h with rfl | h
          · exact .inr (by simp)
          · exact .inl h
      · exact .inr (by simp [h])

/-- The path with every `..` carried out. -/
def normalize (p : PurePath) : PurePath where
  absolute := p.absolute
  parts := (collapse p.parts).reverse
  valid := by
    intro c hc
    rcases mem_of_mem_foldl_push (List.mem_reverse.1 hc) with h | h
    · cases h
    · exact p.valid c h

/-- No component leads upwards. -/
def Normal (p : PurePath) : Prop := ".." ∉ p.parts

instance (p : PurePath) : Decidable p.Normal := inferInstanceAs (Decidable (".." ∉ p.parts))

theorem foldl_push_of_normal {cs : List String} (h : ".." ∉ cs) :
    ∀ stack : List String, cs.foldl push stack = cs.reverse ++ stack := by
  induction cs with
  | nil => intro stack; rfl
  | cons c cs ih =>
      intro stack
      have hc : c ≠ ".." := fun e => h (by simp [e])
      rw [List.foldl_cons, ih (fun e => h (by simp [e])), push, if_neg hc]
      simp

theorem normalize_of_normal {p : PurePath} (h : p.Normal) : p.normalize = p := by
  ext1
  · rfl
  · simp [normalize, collapse, foldl_push_of_normal h]

theorem not_mem_foldl_push {cs : List String} :
    ∀ {s : List String}, ".." ∉ s → ".." ∉ cs.foldl push s := by
  induction cs with
  | nil => intro s h; exact h
  | cons c cs ih =>
      intro s h
      apply ih
      unfold push
      split
      · exact fun e => h (List.mem_of_mem_tail e)
      next hc => simp [h, Ne.symm hc]

theorem normalize_normal (p : PurePath) : p.normalize.Normal := by
  intro h
  exact not_mem_foldl_push (s := []) (by simp) (List.mem_reverse.1 h)

@[simp] theorem normalize_absolute (p : PurePath) : p.normalize.absolute = p.absolute := rfl

theorem normal_join {p q : PurePath} (hq : q.absolute = false) (hp : p.Normal) (h : q.Normal) :
    (p.join q).Normal := by
  unfold Normal at *
  rw [(join_parts hq).2]
  simp [hp, h]

/-- The path has a character the kernel refuses in a name. -/
def hasNul (p : PurePath) : Bool := p.parts.any fun c => c.toList.contains '\x00'

/-! ## Clean paths -/

/-- Resolving the path changes nothing. -/
structure Clean (p : PurePath) : Prop where
  normal : p.Normal
  noNul : ∀ c ∈ p.parts, '\x00' ∉ c.toList

theorem hasNul_eq_false {p : PurePath} :
    p.hasNul = false ↔ ∀ c ∈ p.parts, '\x00' ∉ c.toList := by
  simp [hasNul]

theorem clean_normalize {p : PurePath} (h : p.hasNul = false) : p.normalize.Clean where
  normal := normalize_normal p
  noNul c hc := by
    rcases mem_of_mem_foldl_push (List.mem_reverse.1 hc) with hc | hc
    · cases hc
    · exact hasNul_eq_false.1 h c hc

theorem Clean.join {p q : PurePath} (hp : p.Clean) (hq : q.Clean) (h : q.absolute = false) :
    (p.join q).Clean where
  normal := normal_join h hp.normal hq.normal
  noNul c hc := by
    rw [(join_parts h).2, List.mem_append] at hc
    exact hc.elim (hp.noNul c) (hq.noNul c)

theorem Clean.of_join {p q : PurePath} (h : (p.join q).Clean) (hq : q.absolute = false) :
    p.Clean ∧ q.Clean := by
  have hparts := (join_parts (p := p) hq).2
  refine ⟨⟨fun e => h.normal ?_, fun c hc => h.noNul c ?_⟩,
    ⟨fun e => h.normal ?_, fun c hc => h.noNul c ?_⟩⟩ <;> simp_all

theorem mem_of_mem_intercalate {x c : Char} {ls : List (List Char)} :
    c ∈ [x].intercalate ls → c = x ∨ ∃ l ∈ ls, c ∈ l := by
  induction ls with
  | nil => simp
  | cons l ls ih =>
      cases ls with
      | nil =>
          intro h
          exact .inr ⟨l, by simp, by simpa using h⟩
      | cons l' ls =>
          intro h
          rw [List.intercalate_cons_cons] at h
          simp only [List.mem_append, List.mem_singleton] at h
          rcases h with (h | h) | h
          · exact .inr ⟨l, by simp, h⟩
          · exact .inl h
          · rcases ih h with h | ⟨m, hm, h⟩
            · exact .inl h
            · exact .inr ⟨m, List.mem_cons_of_mem _ hm, h⟩

theorem mem_intercalate_of_mem {x c : Char} {l : List Char} {ls : List (List Char)}
    (hl : l ∈ ls) (hc : c ∈ l) : c ∈ [x].intercalate ls := by
  induction ls with
  | nil => cases hl
  | cons l' ls ih =>
      cases ls with
      | nil =>
          rw [List.mem_singleton] at hl
          simpa [← hl] using hc
      | cons l'' ls =>
          rw [List.intercalate_cons_cons]
          rcases List.mem_cons.1 hl with rfl | hl
          · simp [hc]
          · simp only [List.mem_append]
            exact .inr (ih hl)

/-- The characters of the components are characters of the text. -/
theorem mem_render {p : PurePath} {s : String} {c : Char} (hs : s ∈ p.parts) (hc : c ∈ s.toList) :
    c ∈ p.render.toList := by
  have hmem : c ∈ ['/'].intercalate (p.parts.map String.toList) :=
    mem_intercalate_of_mem (List.mem_map_of_mem hs) hc
  have hne : p.parts ≠ [] := List.ne_nil_of_mem hs
  rw [render, if_neg hne]
  split
  · simp [hmem]
  · simpa using hmem

/-- A text without slashes is at most one component. -/
theorem parse_parts_of_not_mem {s : String} (h : '/' ∉ s.toList) :
    (parse s).parts = [] ∨ (parse s).parts = [s] := by
  simp only [parse, componentsOf, List.splitOn_eq_singleton h, List.map_cons, List.map_nil,
    String.ofList_toList]
  by_cases hc : IsComponent s <;> simp [hc]

theorem parse_absolute_of_not_mem {s : String} (h : '/' ∉ s.toList) :
    (parse s).absolute = false := by
  simp only [parse, decide_eq_false_iff_not]
  intro e
  exact h (List.mem_of_mem_head? e)

/-- The text of a clean path has no NUL either. -/
theorem Clean.nul_render {p : PurePath} (h : p.Clean) : '\x00' ∉ p.render.toList := by
  have hparts : '\x00' ∉ ['/'].intercalate (p.parts.map String.toList) := by
    intro e
    rcases mem_of_mem_intercalate e with e | ⟨l, hl, e⟩
    · cases e
    · obtain ⟨c, hc, rfl⟩ := List.mem_map.1 hl
      exact h.noNul c hc e
  unfold render
  split
  · simpa using hparts
  · split
    · decide
    · simpa using hparts

theorem render_ne_empty {p : PurePath} (h : p.absolute = true) : p.render ≠ "" := by
  rw [render, if_pos h]
  intro e
  simpa using congrArg String.toList e

end PurePath

/-- How a file system resolves paths.  No answer stands for an error. -/
structure FileSystem where
  resolve : PurePath → Option PurePath

/-- A file system without symbolic links: resolving is normalizing. -/
def FileSystem.withoutLinks : FileSystem where
  resolve p := if p.hasNul then none else some p.normalize

theorem FileSystem.withoutLinks_eq_some {p q : PurePath}
    (h : withoutLinks.resolve p = some q) : q = p.normalize ∧ q.Clean := by
  simp only [withoutLinks] at h
  split at h
  · cases h
  next hp =>
    cases h
    exact ⟨rfl, PurePath.clean_normalize (by simpa using hp)⟩

theorem FileSystem.withoutLinks_resolve {p : PurePath} (h : p.Clean) :
    withoutLinks.resolve p = some p := by
  simp only [withoutLinks]
  rw [if_neg (by simpa using PurePath.hasNul_eq_false.2 h.noNul),
    PurePath.normalize_of_normal h.normal]

end Lib
