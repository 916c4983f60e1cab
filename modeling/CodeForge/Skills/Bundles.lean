import CodeForge.Contracts
import CodeForge.Lib.FileTree
import CodeForge.Lib.Sha256
import CodeForge.Skills.Digest

/-!
# Stored bundles

`_store_bundle` copies a skill to a directory named after its digest, below one
for the scope.  It fills that directory in place, file by file.  A later call
that finds something in it takes it for the whole bundle.

What it does to the file system is a list of `Op`s, and a call may be cut short
after any number of them.  If that happens while the bundle is being filled,
what is there stays, and the next call returns it (`store_cut_incomplete`).  As
long as no call is cut short then, every bundle that was ever returned is
complete, in every run (`Reachable.bundles_intact`).
-/

namespace CodeForge.Skills

open Lib

variable {sha256 : List UInt8 → String}

/-! ## Operations -/

/-- A step of the file system. -/
inductive Op where
  | rmdir (path : List String)
  | mkdir (path : List String)
  /-- Open a file for writing. -/
  | create (path : List String)
  | append (path : List String) (chunk : List UInt8)
  /-- Set the times and the mode of a file. -/
  | copystat (path : List String)

/-- What an operation is about. -/
def Op.path : Op → List String
  | .rmdir path | .mkdir path | .create path | .append path _ | .copystat path => path

def Op.exec (t : FileTree String) : Op → Option (FileTree String)
  | .rmdir path => t.rmdir path
  | .mkdir path => t.mkdir path
  | .create path => t.put path (.file [])
  | .append path chunk => (t.fileAt path).bind fun content => t.put path (.file (content ++ chunk))
  | .copystat _ => some t

def Op.execAll (ops : List Op) (t : FileTree String) : Option (FileTree String) :=
  ops.foldlM Op.exec t

/-! ## `_store_bundle` -/

/-- A file as it is copied: its path, and its content in the chunks it is written in. -/
structure Part where
  path : FilePath
  chunks : List (List UInt8)

/-- A call of `_store_bundle`: the scope, and a skill with its files in the order they are found. -/
structure Call where
  scope : Option String
  bundle : Bundle
  parts : List Part
  stable : ∀ id ∈ scope, isReference id = true
  same : (parts.map fun p => (p.path, p.chunks.flatten)).Perm bundle.files
  /-- There is a `SKILL.md`. -/
  nonempty : bundle.files ≠ []

/-- What a call returns, as far as it is about the bundle. -/
structure Ref where
  bundleRef : List String
  digest : String

section Store

variable (sha256)

/-- The place of a bundle in the snapshot root. -/
def destination (scope : Option String) (digest : String) : List String :=
  match scope with
  | none => [digest]
  | some id => [sha256 (utf8 id), digest]

def Call.destination (c : Call) : List String :=
  Skills.destination sha256 c.scope (bundleDigest sha256 c.bundle)

def Call.ref (c : Call) : Ref := ⟨c.destination sha256, bundleDigest sha256 c.bundle⟩

/-- Copy a file. -/
def Part.ops (place : List String) (p : Part) : List Op :=
  p.path.names.dropLast.inits.tail.map (fun dirs => .mkdir (place ++ dirs)) ++
    .create (place ++ p.path.names) ::
      (p.chunks.map (.append (place ++ p.path.names)) ++ [.copystat (place ++ p.path.names)])

/-- Make the directory of the bundle, anew if it is empty. -/
def Call.prepare (c : Call) (t : FileTree String) : List Op :=
  (if t.get (c.destination sha256) = none then [] else [.rmdir (c.destination sha256)]) ++
    (c.destination sha256).inits.map .mkdir

/-- Copy all files. -/
def Call.fill (c : Call) : List Op := c.parts.flatMap (Part.ops (c.destination sha256))

/-- `_store_bundle` -/
def Call.ops (c : Call) (t : FileTree String) : List Op :=
  if t.get (c.destination sha256) = none ∨ t.bare (c.destination sha256) = true then
    c.prepare sha256 t ++ c.fill sha256
  else []

end Store

/-! ## Runs -/

/-- The snapshot root, with the references that were returned. -/
structure System where
  tree : FileTree String := .empty
  refs : List Ref := []

/-- A call is not cut short while the bundle is filled: either nothing is in it yet, or everything
is, and only the times and the mode of the last file are not set. -/
def Harmless (sha256 : List UInt8 → String) (c : Call) (t : FileTree String) (n : Nat) : Prop :=
  n ≤ (c.prepare sha256 t).length ∨ n + 1 = (c.ops sha256 t).length

/-- A call goes through, or is cut short after some operations.  In a careful run that is
harmless. -/
inductive Step (sha256 : List UInt8 → String) (careful : Bool) : System → System → Prop where
  | store {s : System} (c : Call) {t : FileTree String}
      (done : Op.execAll (c.ops sha256 s.tree) s.tree = some t) :
      Step sha256 careful s ⟨t, s.refs ++ [c.ref sha256]⟩
  | cut {s : System} (c : Call) {t : FileTree String} (n : Nat)
      (short : n < (c.ops sha256 s.tree).length)
      (done : Op.execAll ((c.ops sha256 s.tree).take n) s.tree = some t)
      (care : careful = true → Harmless sha256 c s.tree n) :
      Step sha256 careful s ⟨t, s.refs⟩

/-- A state of some run. -/
abbrev Reachable (sha256 : List UInt8 → String) (careful : Bool) (s : System) : Prop :=
  Relation.ReflTransGen (Step sha256 careful) {} s

/-- A directory has the files of a bundle and no others. -/
def Contains (t : FileTree String) (place : List String) (m : Bundle) : Prop :=
  ∀ names content, names ≠ [] → (t.fileAt (place ++ names) = some content ↔
    ∃ f ∈ m.files, f.1.names = names ∧ f.2 = content)

/-- The content of a directory has a digest. -/
def HasDigest (sha256 : List UInt8 → String) (t : FileTree String) (place : List String)
    (digest : String) : Prop :=
  ∃ m : Bundle, Contains t place m ∧ bundleDigest sha256 m = digest

/-! ## What operations change -/

theorem Op.exec_get {t t' : FileTree String} {op : Op} (h : op.exec t = some t')
    {q : List String} (other : q ≠ op.path) : t'.get q = t.get q := by
  cases op with
  | rmdir path => exact (FileTree.get_rmdir h q).trans (if_neg other)
  | mkdir path => exact (FileTree.get_mkdir h q).trans (if_neg other)
  | create path => exact (FileTree.get_put h q).trans (if_neg other)
  | append path chunk =>
      obtain ⟨content, -, put⟩ := Option.bind_eq_some_iff.1 h
      exact (FileTree.get_put put q).trans (if_neg other)
  | copystat path =>
      cases h
      rfl

theorem Op.execAll_cons {op : Op} {ops : List Op} {t : FileTree String} :
    execAll (op :: ops) t = (op.exec t).bind (execAll ops) := rfl

theorem Op.execAll_append {ops ops' : List Op} {t : FileTree String} :
    execAll (ops ++ ops') t = (execAll ops t).bind (execAll ops') := by
  rw [execAll, List.foldlM_append]
  rfl

theorem Op.execAll_get {ops : List Op} {t t' : FileTree String} (h : execAll ops t = some t')
    {q : List String} (other : ∀ op ∈ ops, q ≠ op.path) : t'.get q = t.get q := by
  induction ops generalizing t with
  | nil =>
      cases h
      rfl
  | cons op ops ih =>
      rw [execAll_cons] at h
      obtain ⟨t₁, first, rest⟩ := Option.bind_eq_some_iff.1 h
      rw [ih rest fun op' hop => other op' (List.mem_cons_of_mem _ hop),
        exec_get first (other op List.mem_cons_self)]

/-! ## Places -/

/-- A stream has a zero byte, and a scope has none. -/
theorem stream_zero {files : List (FilePath × List UInt8)} (ne : files ≠ []) :
    (0 : UInt8) ∈ stream files := by
  cases files with
  | nil => exact absurd rfl ne
  | cons f files => exact List.mem_append_right _ List.mem_cons_self

theorem isReference_zero {id : String} (h : isReference id = true) : (0 : UInt8) ∉ utf8 id := by
  intro there
  obtain ⟨c, hc, zero⟩ := mem_utf8 there
  rw [zero_mem_utf8EncodeChar zero] at hc
  rw [isReference, Bool.and_eq_true] at h
  exact absurd (List.all_eq_true.1 h.2 _ hc) (by decide)

/-- No bundle lies in another. -/
theorem Call.destination_prefix (collisionFree : Function.Injective sha256) {c c' : Call}
    (h : c.destination sha256 <+: c'.destination sha256) :
    c.destination sha256 = c'.destination sha256 := by
  have apart : ∀ (c c' : Call) (id : String), c'.scope = some id →
      bundleDigest sha256 c.bundle ≠ sha256 (utf8 id) := by
    intro c c' id scope same
    have bytes : stream c.bundle.files = utf8 id := collisionFree same
    exact isReference_zero (c'.stable id scope) (bytes ▸ stream_zero c.nonempty)
  unfold Call.destination Skills.destination at h ⊢
  cases scope : c.scope with
  | none =>
      cases scope' : c'.scope with
      | none =>
          rw [scope, scope'] at h
          exact List.IsPrefix.eq_of_length h rfl
      | some id =>
          rw [scope, scope'] at h
          exact absurd (List.cons_prefix_cons.1 h).1 (apart c c' id scope')
  | some id =>
      cases scope' : c'.scope with
      | none =>
          rw [scope, scope'] at h
          have := h.length_le
          simp at this
      | some id' =>
          rw [scope, scope'] at h
          exact List.IsPrefix.eq_of_length h rfl

/-! ## Copying -/

theorem Op.mkdirs_fileAt {paths : List (List String)} {t t' : FileTree String}
    (h : execAll (paths.map .mkdir) t = some t') (q : List String) : t'.fileAt q = t.fileAt q := by
  induction paths generalizing t with
  | nil =>
      cases h
      rfl
  | cons path paths ih =>
      rw [List.map_cons, execAll_cons] at h
      obtain ⟨t₁, first, rest⟩ := Option.bind_eq_some_iff.1 h
      rw [ih rest, FileTree.fileAt_mkdir first]

/-- The chunks are written one after the other. -/
theorem Op.appends_fileAt {path : List String} {chunks : List (List UInt8)}
    {t t' : FileTree String} {content : List UInt8} (there : t.fileAt path = some content)
    (h : execAll (chunks.map (.append path)) t = some t') (q : List String) :
    t'.fileAt q = if q = path then some (content ++ chunks.flatten) else t.fileAt q := by
  induction chunks generalizing t content with
  | nil =>
      cases h
      split
      next same => rw [same, there, List.flatten_nil, List.append_nil]
      · rfl
  | cons chunk chunks ih =>
      rw [List.map_cons, execAll_cons] at h
      obtain ⟨t₁, first, rest⟩ := Option.bind_eq_some_iff.1 h
      obtain ⟨content', file, put⟩ := Option.bind_eq_some_iff.1 first
      cases there.symm.trans file
      have after := FileTree.fileAt_put put
      rw [ih (by rw [after, if_pos rfl]) rest, after]
      split
      · rw [List.flatten_cons, List.append_assoc]
      · rfl

/-- A file is copied, and no other is touched. -/
theorem Part.ops_fileAt {place : List String} {p : Part} {t t' : FileTree String}
    (h : Op.execAll (p.ops place) t = some t') (q : List String) :
    t'.fileAt q =
      if q = place ++ p.path.names then some p.chunks.flatten else t.fileAt q := by
  have split : p.ops place =
      (p.path.names.dropLast.inits.tail.map (place ++ ·)).map .mkdir ++
        .create (place ++ p.path.names) ::
          (p.chunks.map (.append (place ++ p.path.names)) ++
            [.copystat (place ++ p.path.names)]) := by
    rw [List.map_map]
    rfl
  rw [split, Op.execAll_append] at h
  obtain ⟨t₁, dirs, h⟩ := Option.bind_eq_some_iff.1 h
  rw [Op.execAll_cons] at h
  obtain ⟨t₂, made, h⟩ := Option.bind_eq_some_iff.1 h
  rw [Op.execAll_append] at h
  obtain ⟨t₃, written, stat⟩ := Option.bind_eq_some_iff.1 h
  cases stat
  have created := FileTree.fileAt_put made
  rw [Op.appends_fileAt (by rw [created, if_pos rfl]) written, created, Op.mkdirs_fileAt dirs]
  split
  · rfl
  · rfl

/-- All files are copied. -/
theorem parts_fileAt {place : List String} {parts : List Part} {t t' : FileTree String}
    (distinct : (parts.map fun p => p.path.names).Nodup)
    (h : Op.execAll (parts.flatMap (Part.ops place)) t = some t') (q : List String) :
    (∀ p ∈ parts, q = place ++ p.path.names → t'.fileAt q = some p.chunks.flatten) ∧
      ((∀ p ∈ parts, q ≠ place ++ p.path.names) → t'.fileAt q = t.fileAt q) := by
  induction parts generalizing t with
  | nil =>
      cases h
      exact ⟨fun p hp => absurd hp List.not_mem_nil, fun _ => rfl⟩
  | cons p parts ih =>
      rw [List.flatMap_cons, Op.execAll_append] at h
      obtain ⟨t₁, first, rest⟩ := Option.bind_eq_some_iff.1 h
      obtain ⟨fresh, distinct⟩ := List.nodup_cons.1 distinct
      obtain ⟨copied, kept⟩ := ih distinct rest
      have after := Part.ops_fileAt first q
      refine ⟨fun p' hp same => ?_, fun other => ?_⟩
      · rcases List.mem_cons.1 hp with rfl | later
        · rw [kept, after, if_pos same]
          intro p'' hp' again
          have names := List.append_cancel_left (same.symm.trans again)
          exact fresh (List.mem_map.2 ⟨p'', hp', names.symm⟩)
        · exact copied p' later same
      · rw [kept fun p' hp => other p' (List.mem_cons_of_mem _ hp), after,
          if_neg (other p List.mem_cons_self)]

/-! ## What a call changes -/

theorem Call.prepare_path {c : Call} {t : FileTree String} {op : Op}
    (h : op ∈ c.prepare sha256 t) : op.path <+: c.destination sha256 := by
  rcases List.mem_append.1 h with first | dirs
  · split at first
    · exact absurd first List.not_mem_nil
    · rw [List.mem_singleton.1 first]
      exact List.prefix_refl _
  · obtain ⟨path, hp, rfl⟩ := List.mem_map.1 dirs
    exact (List.mem_inits path _).1 hp

theorem Part.ops_path {place : List String} {p : Part} {op : Op} (h : op ∈ p.ops place) :
    place <+: op.path := by
  rcases List.mem_append.1 h with dirs | h
  · obtain ⟨d, -, rfl⟩ := List.mem_map.1 dirs
    exact List.prefix_append _ _
  rcases List.mem_cons.1 h with rfl | h
  · exact List.prefix_append _ _
  rcases List.mem_append.1 h with chunks | stat
  · obtain ⟨chunk, -, rfl⟩ := List.mem_map.1 chunks
    exact List.prefix_append _ _
  · rw [List.mem_singleton.1 stat]
    exact List.prefix_append _ _

theorem Call.ops_path {c : Call} {t : FileTree String} {op : Op} (h : op ∈ c.ops sha256 t) :
    op.path <+: c.destination sha256 ∨ c.destination sha256 <+: op.path := by
  unfold Call.ops at h
  split at h
  · rcases List.mem_append.1 h with prepare | fill
    · exact .inl (Call.prepare_path prepare)
    · obtain ⟨p, -, hop⟩ := List.mem_flatMap.1 fill
      exact .inr (Part.ops_path hop)
  · exact absurd h List.not_mem_nil

/-- Nothing is changed in other bundles. -/
theorem Call.frame (collisionFree : Function.Injective sha256) {c c' : Call}
    {t t' : FileTree String} {n : Nat} (other : c'.destination sha256 ≠ c.destination sha256)
    (h : Op.execAll ((c.ops sha256 t).take n) t = some t') {s : List String} :
    t'.get (c'.destination sha256 ++ s) = t.get (c'.destination sha256 ++ s) := by
  refine Op.execAll_get h fun op hop same => other ?_
  have below : c'.destination sha256 <+: op.path := same ▸ List.prefix_append _ _
  rcases Call.ops_path (List.mem_of_mem_take hop) with up | down
  · exact Call.destination_prefix collisionFree (below.trans up)
  · rcases List.prefix_or_prefix_of_prefix below down with one | two
    · exact Call.destination_prefix collisionFree one
    · exact (Call.destination_prefix collisionFree two).symm

/-- Before the bundle is filled, nothing is in it. -/
theorem Call.prepare_bare {c : Call} {t t' : FileTree String} {n : Nat}
    (bare : t.bare (c.destination sha256) = true)
    (h : Op.execAll ((c.prepare sha256 t).take n) t = some t') :
    t'.bare (c.destination sha256) = true := by
  refine FileTree.bare_iff.2 fun s ne => ?_
  rw [Op.execAll_get h fun op hop same => ?_]
  · exact FileTree.bare_iff.1 bare s ne
  · have short := (Call.prepare_path (List.mem_of_mem_take hop)).length_le
    rw [← same, List.length_append] at short
    exact ne (List.eq_nil_of_length_eq_zero (by omega))

theorem Bundle.names_nodup (m : Bundle) : (m.files.map fun f => f.1.names).Nodup := by
  refine List.pairwise_map.2 (m.sorted.imp fun less same => ?_)
  rw [same] at less
  exact List.lt_irrefl _ less

theorem Call.names_nodup (c : Call) : (c.parts.map fun p => p.path.names).Nodup := by
  have perm := c.same.map fun f => f.1.names
  rw [List.map_map] at perm
  exact perm.nodup_iff.2 c.bundle.names_nodup

/-- A call that goes through leaves the whole bundle. -/
theorem Call.fill_contains {c : Call} {t t' : FileTree String}
    (bare : t.bare (c.destination sha256) = true)
    (h : Op.execAll (c.prepare sha256 t ++ c.fill sha256) t = some t') :
    Contains t' (c.destination sha256) c.bundle := by
  rw [Op.execAll_append] at h
  obtain ⟨t₁, prepared, filled⟩ := Option.bind_eq_some_iff.1 h
  have empty : t₁.bare (c.destination sha256) = true := by
    refine Call.prepare_bare bare (n := (c.prepare sha256 t).length) ?_
    rw [List.take_length]
    exact prepared
  intro names content ne
  obtain ⟨copied, kept⟩ := parts_fileAt c.names_nodup filled (c.destination sha256 ++ names)
  have nothing : t₁.fileAt (c.destination sha256 ++ names) = none := by
    rw [FileTree.fileAt, FileTree.bare_iff.1 empty names ne]
  have parts : ∀ f, f ∈ c.bundle.files ↔ ∃ p ∈ c.parts, (p.path, p.chunks.flatten) = f :=
    fun f => (c.same.mem_iff).symm.trans List.mem_map
  constructor
  · intro there
    by_contra none
    have others : ∀ p ∈ c.parts, c.destination sha256 ++ names ≠
        c.destination sha256 ++ p.path.names := by
      intro p hp same
      have eq := List.append_cancel_left same
      rw [copied p hp same, Option.some.injEq] at there
      exact none ⟨_, (parts _).2 ⟨p, hp, rfl⟩, eq.symm, there⟩
    rw [kept others, nothing] at there
    cases there
  · rintro ⟨f, hf, rfl, rfl⟩
    obtain ⟨p, hp, rfl⟩ := (parts f).1 hf
    exact copied p hp rfl

/-! ## Every run -/

theorem Call.destination_digest {c c' : Call}
    (h : c.destination sha256 = c'.destination sha256) :
    bundleDigest sha256 c.bundle = bundleDigest sha256 c'.bundle := by
  have last : ∀ c : Call,
      (c.destination sha256).getLast? = some (bundleDigest sha256 c.bundle) := by
    intro c
    unfold Call.destination Skills.destination
    cases c.scope with
    | none | some id => rfl
  exact Option.some.inj ((last c).symm.trans ((congrArg List.getLast? h).trans (last c')))

theorem HasDigest.congr {t t' : FileTree String} {place : List String} {digest : String}
    (h : HasDigest sha256 t place digest)
    (same : ∀ s, t'.get (place ++ s) = t.get (place ++ s)) : HasDigest sha256 t' place digest := by
  obtain ⟨m, contains, rfl⟩ := h
  refine ⟨m, fun names content ne => ?_, rfl⟩
  rw [FileTree.fileAt_congr (same names)]
  exact contains names content ne

/-- What is in the place of a bundle is all of it, and what was returned is there. -/
structure Sound (sha256 : List UInt8 → String) (s : System) : Prop where
  whole : ∀ c : Call, s.tree.bare (c.destination sha256) = false →
    HasDigest sha256 s.tree (c.destination sha256) (bundleDigest sha256 c.bundle)
  returned : ∀ ref ∈ s.refs, ∃ c : Call, ref = c.ref sha256 ∧
    s.tree.bare (c.destination sha256) = false

theorem bare_of_none {t : FileTree String} {p : List String} (h : t.get p = none) :
    t.bare p = true := by
  refine FileTree.bare_iff.2 fun s ne => ?_
  by_contra there
  have dir := FileTree.get_above ne there
  rw [h] at dir
  cases dir

/-- A call that has made nothing but directories above the bundle, or all of it. -/
theorem Sound.call (collisionFree : Function.Injective sha256) {s : System} {c : Call}
    {t : FileTree String} {n : Nat} {refs : List Ref} (h : Sound sha256 s)
    (done : Op.execAll ((c.ops sha256 s.tree).take n) s.tree = some t)
    (self : t.bare (c.destination sha256) = false →
      HasDigest sha256 t (c.destination sha256) (bundleDigest sha256 c.bundle))
    (kept : s.tree.bare (c.destination sha256) = false → t.bare (c.destination sha256) = false)
    (returned : ∀ ref ∈ refs, ref ∈ s.refs ∨
      ref = c.ref sha256 ∧ t.bare (c.destination sha256) = false) :
    Sound sha256 ⟨t, refs⟩ := by
  have bare : ∀ c' : Call, c'.destination sha256 ≠ c.destination sha256 →
      t.bare (c'.destination sha256) = s.tree.bare (c'.destination sha256) := by
    intro c' other
    rw [Bool.eq_iff_iff, FileTree.bare_iff, FileTree.bare_iff]
    simp only [Call.frame collisionFree other done]
  refine ⟨fun c' full => ?_, fun ref hr => ?_⟩
  · by_cases same : c'.destination sha256 = c.destination sha256
    · rw [same] at full ⊢
      rw [Call.destination_digest same]
      exact self full
    · refine (h.whole c' ?_).congr fun _ => Call.frame collisionFree same done
      exact (bare c' same).symm.trans full
  · rcases returned ref hr with old | ⟨rfl, full⟩
    · obtain ⟨c', rfl, full⟩ := h.returned ref old
      refine ⟨c', rfl, ?_⟩
      by_cases same : c'.destination sha256 = c.destination sha256
      · rw [same] at full ⊢
        exact kept full
      · exact (bare c' same).trans full
    · exact ⟨c, rfl, full⟩

/-- The last operation of a call sets the times and the mode of a file. -/
theorem Call.ops_concat {c : Call} {t : FileTree String}
    (bare : t.get (c.destination sha256) = none ∨ t.bare (c.destination sha256) = true) :
    ∃ ops path, c.ops sha256 t = ops ++ [.copystat path] := by
  have parts : c.parts ≠ [] := by
    intro none
    have perm := c.same
    rw [none] at perm
    exact c.nonempty (List.nil_perm.1 perm)
  obtain ⟨init, p, split⟩ : ∃ init p, c.parts = init ++ [p] :=
    ⟨_, _, (List.dropLast_append_getLast parts).symm⟩
  refine ⟨c.prepare sha256 t ++ (init.flatMap (Part.ops (c.destination sha256)) ++
    (p.path.names.dropLast.inits.tail.map (fun dirs => .mkdir (c.destination sha256 ++ dirs)) ++
      .create (c.destination sha256 ++ p.path.names) ::
        p.chunks.map (.append (c.destination sha256 ++ p.path.names)))),
    c.destination sha256 ++ p.path.names, ?_⟩
  rw [ops, if_pos bare, fill, split, List.flatMap_append, List.flatMap_singleton, Part.ops]
  simp only [List.append_assoc, List.cons_append]

theorem Contains.not_bare {t : FileTree String} {place : List String} {m : Bundle}
    (h : Contains t place m) (nonempty : m.files ≠ []) : t.bare place = false := by
  obtain ⟨f, hf⟩ := List.exists_mem_of_ne_nil _ nonempty
  have there := (h f.1.names f.2 f.1.nonempty).2 ⟨f, hf, rfl, rfl⟩
  rw [Bool.eq_false_iff]
  intro bare
  rw [FileTree.fileAt, FileTree.bare_iff.1 bare _ f.1.nonempty] at there
  cases there

/-- A call into an empty or missing directory that goes through. -/
theorem Sound.filled (collisionFree : Function.Injective sha256) {s : System} {c : Call}
    {t : FileTree String} {n : Nat} {refs : List Ref} (h : Sound sha256 s)
    (bare : s.tree.bare (c.destination sha256) = true)
    (done : Op.execAll ((c.ops sha256 s.tree).take n) s.tree = some t)
    (all : Op.execAll (c.prepare sha256 s.tree ++ c.fill sha256) s.tree = some t)
    (returned : ∀ ref ∈ refs, ref ∈ s.refs ∨ ref = c.ref sha256) : Sound sha256 ⟨t, refs⟩ := by
  have contains := Call.fill_contains bare all
  have full := contains.not_bare c.nonempty
  refine h.call collisionFree done (fun _ => ⟨c.bundle, contains, rfl⟩) (fun _ => full) ?_
  intro ref hr
  rcases returned ref hr with old | new
  · exact .inl old
  · exact .inr ⟨new, full⟩

theorem Sound.step (collisionFree : Function.Injective sha256) {s s' : System}
    (h : Sound sha256 s) (st : Step sha256 true s s') : Sound sha256 s' := by
  have returned : ∀ c : Call, ∀ ref ∈ s.refs ++ [c.ref sha256],
      ref ∈ s.refs ∨ ref = c.ref sha256 := by
    intro c ref hr
    rcases List.mem_append.1 hr with old | new
    · exact .inl old
    · exact .inr (List.mem_singleton.1 new)
  have empty : ∀ c : Call, s.tree.get (c.destination sha256) = none ∨
      s.tree.bare (c.destination sha256) = true → s.tree.bare (c.destination sha256) = true :=
    fun c made => made.elim bare_of_none id
  cases st with
  | @store c t done =>
      have taken : Op.execAll ((c.ops sha256 s.tree).take (c.ops sha256 s.tree).length) s.tree =
          some t := by
        rw [List.take_length]
        exact done
      by_cases made : s.tree.get (c.destination sha256) = none ∨
          s.tree.bare (c.destination sha256) = true
      · have all := done
        rw [Call.ops, if_pos made] at all
        exact h.filled collisionFree (empty c made) taken all (returned c)
      · have full : s.tree.bare (c.destination sha256) = false :=
          Bool.eq_false_iff.2 fun bare => made (.inr bare)
        have same : s.tree = t := by
          rw [Call.ops, if_neg made] at done
          exact Option.some.inj done
        subst same
        refine h.call collisionFree taken (h.whole c) id fun ref hr => ?_
        exact (returned c ref hr).imp_right fun new => ⟨new, full⟩
  | @cut c t n short done care =>
      by_cases made : s.tree.get (c.destination sha256) = none ∨
          s.tree.bare (c.destination sha256) = true
      · rcases care rfl with early | late
        · have prepared := done
          rw [Call.ops, if_pos made, List.take_append_of_le_length early] at prepared
          have bare := Call.prepare_bare (empty c made) prepared
          refine h.call collisionFree done (fun full => ?_) (fun full => ?_) fun ref => .inl
          · rw [bare] at full
            cases full
          · rw [empty c made] at full
            cases full
        · obtain ⟨ops, path, concat⟩ := Call.ops_concat made
          have all : Op.execAll (c.ops sha256 s.tree) s.tree = some t := by
            have length : n = ops.length := by
              rw [concat, List.length_append, List.length_singleton] at late
              omega
            rw [concat, length, List.take_left] at done
            rw [concat, Op.execAll_append, done]
            rfl
          rw [Call.ops, if_pos made] at all
          exact h.filled collisionFree (empty c made) done all fun ref => .inl
      · rw [Call.ops, if_neg made] at short
        exact absurd short (Nat.not_lt_zero n)

/-- In every run in which no call is cut short while a bundle is filled, every reference that was
returned names a directory whose content has the digest of the reference. -/
theorem Reachable.bundles_intact (collisionFree : Function.Injective sha256) {s : System}
    (h : Reachable sha256 true s) :
    ∀ ref ∈ s.refs, HasDigest sha256 s.tree ref.bundleRef ref.digest := by
  have sound : Sound sha256 s := by
    induction h with
    | refl =>
        refine ⟨fun c full => ?_, fun ref hr => absurd hr List.not_mem_nil⟩
        have bare : (FileTree.empty : FileTree String).bare (c.destination sha256) = true :=
          FileTree.bare_iff.2 fun s ne =>
            FileTree.get_empty (List.append_ne_nil_of_right_ne_nil _ ne)
        exact absurd (full.symm.trans bare) Bool.false_ne_true
    | tail _ st ih => exact ih.step collisionFree st
  intro ref hr
  obtain ⟨c, rfl, full⟩ := sound.returned ref hr
  exact sound.whole c full

/-- A skill with only its package file. -/
def Bundle.single : Bundle where
  files := [skillFile]
  sorted := List.pairwise_singleton _ _
  apart := List.pairwise_singleton _ _

/-- A call without a scope. -/
def Call.plain : Call where
  scope := none
  bundle := .single
  parts := [⟨skillFile.1, [skillFile.2]⟩]
  stable id h := by cases h
  same := by
    rw [List.map_singleton, List.flatten_singleton]
    exact .refl _
  nonempty := List.cons_ne_nil _ _

/-- The call goes through. -/
theorem Reachable.bundles_intact_plain : ∃ s : System, Reachable plainDigest true s ∧
    s.refs = [Call.plain.ref plainDigest] ∧
    HasDigest plainDigest s.tree (Call.plain.destination plainDigest)
      (bundleDigest plainDigest .single) := by
  have goes : (Op.execAll (Call.plain.ops plainDigest .empty) .empty).isSome = true := by
    decide +kernel
  obtain ⟨t, done⟩ := Option.isSome_iff_exists.1 goes
  have reached : Reachable plainDigest true ⟨t, [Call.plain.ref plainDigest]⟩ :=
    .single (.store Call.plain done)
  exact ⟨_, reached, rfl, Reachable.bundles_intact plainDigest_injective reached
    (Call.plain.ref plainDigest) List.mem_cons_self⟩

/-- A call that is cut short when it has opened the first file, and then the same call again. -/
theorem store_cut_incomplete : ∃ s : System, Reachable plainDigest false s ∧
    ∃ ref ∈ s.refs, ¬HasDigest plainDigest s.tree ref.bundleRef ref.digest := by
  have goes : (Op.execAll ((Call.plain.ops plainDigest .empty).take 3) .empty).isSome = true := by
    decide +kernel
  have opened : ((Op.execAll ((Call.plain.ops plainDigest .empty).take 3) .empty).map fun t =>
      t.fileAt (Call.plain.destination plainDigest ++ skillFile.1.names)) = some (some []) := by
    decide +kernel
  obtain ⟨t, done⟩ := Option.isSome_iff_exists.1 goes
  have empty : t.fileAt (Call.plain.destination plainDigest ++ skillFile.1.names) = some [] := by
    rw [done] at opened
    exact Option.some.inj opened
  have full : t.bare (Call.plain.destination plainDigest) = false := by
    rw [Bool.eq_false_iff]
    intro bare
    rw [FileTree.fileAt, FileTree.bare_iff.1 bare _ skillFile.1.nonempty] at empty
    cases empty
  have made : ¬(t.get (Call.plain.destination plainDigest) = none ∨
      t.bare (Call.plain.destination plainDigest) = true) := by
    rintro (none | bare)
    · exact absurd (full.symm.trans (bare_of_none none)) Bool.false_ne_true
    · exact absurd (full.symm.trans bare) Bool.false_ne_true
  have again : Op.execAll (Call.plain.ops plainDigest t) t = some t := by
    rw [Call.ops, if_neg made]
    rfl
  have cut : Step plainDigest false {} ⟨t, []⟩ :=
    .cut Call.plain 3 (by decide +kernel) done fun careful => by cases careful
  have stored : Step plainDigest false ⟨t, []⟩ ⟨t, [Call.plain.ref plainDigest]⟩ :=
    .store Call.plain again
  refine ⟨_, (Relation.ReflTransGen.single cut).tail stored, Call.plain.ref plainDigest,
    List.mem_cons_self, ?_⟩
  rintro ⟨m, contains, digest⟩
  have honest : ¬Imitates skillFile.1 skillFile.2 := by
    rintro ⟨a, q, b, content, -, -⟩
    have zero : (0 : UInt8) ∈ skillFile.2 := content ▸ List.mem_append_right _ List.mem_cons_self
    exact absurd zero (by decide +kernel)
  have same : m = .single := Bundle.alone_single rfl honest (plainDigest_injective digest)
  subst same
  have there := (contains skillFile.1.names skillFile.2 skillFile.1.nonempty).2
    ⟨skillFile, List.mem_cons_self, rfl, rfl⟩
  exact absurd (Option.some.inj (empty.symm.trans there)) (by decide +kernel)

end CodeForge.Skills
