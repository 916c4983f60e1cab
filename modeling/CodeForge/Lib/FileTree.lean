import Mathlib.Data.List.AList
import Mathlib.Data.List.Infix
import Mathlib.Tactic.ByContra

/-!
# File trees

A `FileTree` is a directory with everything below it: a map from paths, which
are lists of names, to files and directories.  It carries the proof that
everything in it lies in a directory.  Links are not in it.

Operations are partial, as those of a file system are.  For each of them there
is one lemma that says what is where afterwards, and one that says when it goes
through.
-/

namespace Lib

/-- What can be at a path. -/
inductive Entry where
  | file (content : List UInt8)
  | dir
deriving DecidableEq

/-- A directory, by the paths of what is below it. -/
structure FileTree (N : Type) [DecidableEq N] where
  entries : AList fun _ : List N => Entry
  root : entries.lookup [] = some .dir
  closed : ∀ p n, entries.lookup (p ++ [n]) ≠ none → entries.lookup p = some .dir

namespace FileTree

variable {N : Type} [DecidableEq N] {t t' : FileTree N} {p q : List N} {e : Entry}
  {c : List UInt8}

/-- What is at a path. -/
def get (t : FileTree N) (p : List N) : Option Entry := t.entries.lookup p

@[simp] theorem get_nil (t : FileTree N) : t.get [] = some .dir := t.root

theorem get_parent {n : N} (h : t.get (p ++ [n]) ≠ none) : t.get p = some .dir := t.closed p n h

/-- Everything above an entry is a directory. -/
theorem get_above {s : List N} (ne : s ≠ []) (h : t.get (p ++ s) ≠ none) :
    t.get p = some .dir := by
  induction s generalizing p with
  | nil => exact absurd rfl ne
  | cons n s ih =>
      rw [← List.singleton_append, ← List.append_assoc] at h
      by_cases last : s = []
      · rw [last, List.append_nil] at h
        exact get_parent h
      · exact get_parent (by rw [ih last h]; exact Option.some_ne_none _)

theorem get_prefix (h : t.get q ≠ none) (pre : p <+: q) (ne : p ≠ q) : t.get p = some .dir := by
  obtain ⟨s, rfl⟩ := pre
  refine get_above (fun none => ne ?_) h
  rw [none, List.append_nil]

/-- The directory with nothing in it. -/
def empty : FileTree N where
  entries := .singleton [] .dir
  root := rfl
  closed p n h := by
    refine absurd (AList.lookup_eq_none.2 fun there => ?_) h
    have := List.mem_singleton.1 (AList.mem_keys.1 there)
    simp at this

instance : Inhabited (FileTree N) := ⟨empty⟩

@[simp] theorem get_empty (ne : p ≠ []) : (empty : FileTree N).get p = none :=
  AList.lookup_eq_none.2 fun there => ne (List.mem_singleton.1 (AList.mem_keys.1 there))

/-! ## Writing -/

/-- Where something can be put: in a directory, and not over one. -/
def Free (t : FileTree N) (p : List N) : Prop :=
  p ≠ [] ∧ t.get p.dropLast = some .dir ∧ t.get p ≠ some .dir

instance (t : FileTree N) (p : List N) : Decidable (t.Free p) :=
  inferInstanceAs (Decidable (_ ∧ _ ∧ _))

/-- Put a file or a directory at a path, over a file if there is one. -/
def put (t : FileTree N) (p : List N) (e : Entry) : Option (FileTree N) :=
  if h : t.Free p then
    some
      { entries := t.entries.insert p e
        root := by rw [AList.lookup_insert_ne (Ne.symm h.1)]; exact t.root
        closed := by
          intro q n there
          by_cases same : q ++ [n] = p
          · have other : q ≠ p := fun eq => by simp [eq] at same
            rw [AList.lookup_insert_ne other]
            have parent := h.2.1
            rw [← same, List.dropLast_concat] at parent
            exact parent
          · rw [AList.lookup_insert_ne same] at there
            have parent := t.closed q n there
            have other : q ≠ p := fun eq => h.2.2 (eq ▸ parent)
            rw [AList.lookup_insert_ne other]
            exact parent }
  else none

theorem put_isSome (h : t.Free p) (e : Entry) : ∃ t', t.put p e = some t' :=
  ⟨_, dif_pos h⟩

theorem get_put (h : t.put p e = some t') (q : List N) :
    t'.get q = if q = p then some e else t.get q := by
  unfold put at h
  split at h
  next free =>
    cases h
    by_cases same : q = p
    · rw [if_pos same, same]
      exact AList.lookup_insert _
    · rw [if_neg same]
      exact AList.lookup_insert_ne same
  · cases h

theorem put_free (h : t.put p e = some t') : t.Free p := by
  unfold put at h
  split at h
  next free => exact free
  · cases h

/-- A tree with these entries, put one after the other; what cannot be put is left out. -/
def build (entries : List (List N × Entry)) : FileTree N :=
  entries.foldl (fun t f => (t.put f.1 f.2).getD t) empty

/-- Make a directory, if there is none (`exist_ok`). -/
def mkdir (t : FileTree N) (p : List N) : Option (FileTree N) :=
  if t.get p = some .dir then some t
  else if t.get p = none then t.put p .dir
  else none

theorem get_mkdir (h : t.mkdir p = some t') (q : List N) :
    t'.get q = if q = p then some .dir else t.get q := by
  unfold mkdir at h
  split at h
  next there =>
    cases h
    split
    next same => rw [same, there]
    · rfl
  · split at h
    · exact get_put h q
    · cases h

/-- Make a directory and those above it. -/
def mkdirs (t : FileTree N) (p : List N) : Option (FileTree N) := p.inits.foldlM mkdir t

theorem mkdirs_concat (t : FileTree N) (p : List N) (n : N) :
    t.mkdirs (p ++ [n]) = (t.mkdirs p).bind (·.mkdir (p ++ [n])) := by
  have inits : (p ++ [n]).inits = p.inits ++ [p ++ [n]] := by
    rw [List.inits_append]
    rfl
  rw [mkdirs, inits, List.foldlM_append, mkdirs]
  simp only [List.foldlM_cons, List.foldlM_nil, bind_pure]
  rfl

theorem mkdirs_nil (t : FileTree N) : t.mkdirs [] = some t := by
  change (t.mkdir []).bind some = some t
  rw [mkdir, if_pos t.get_nil]
  rfl

theorem get_mkdirs (h : t.mkdirs p = some t') (q : List N) :
    t'.get q = if q <+: p then some .dir else t.get q := by
  induction p using List.reverseRecOn generalizing t' with
  | nil =>
      rw [mkdirs_nil] at h
      cases h
      split
      next root => rw [List.prefix_nil.1 root, get_nil]
      · rfl
  | append_singleton p n ih =>
      rw [mkdirs_concat] at h
      obtain ⟨t₁, above, last⟩ := Option.bind_eq_some_iff.1 h
      rw [get_mkdir last, ih above]
      by_cases same : q = p ++ [n]
      · rw [if_pos same, if_pos (same ▸ List.prefix_refl _)]
      · have below : q <+: p ++ [n] ↔ q <+: p := by
          rw [List.prefix_concat_iff]
          exact or_iff_right same
        simp only [if_neg same, below]

/-- Directories can be made where no file is in the way. -/
theorem mkdirs_isSome (h : ∀ q, q <+: p → ∀ c, t.get q ≠ some (.file c)) :
    ∃ t', t.mkdirs p = some t' := by
  induction p using List.reverseRecOn with
  | nil => exact ⟨t, mkdirs_nil t⟩
  | append_singleton p n ih =>
      obtain ⟨t₁, above⟩ := ih fun q hq => h q (hq.trans (List.prefix_append _ _))
      have parent : t₁.get p = some .dir := by rw [get_mkdirs above, if_pos (List.prefix_refl p)]
      have self : t₁.get (p ++ [n]) = t.get (p ++ [n]) := by
        rw [get_mkdirs above, if_neg]
        intro pre
        have := pre.length_le
        rw [List.length_append, List.length_singleton] at this
        omega
      rw [mkdirs_concat, above, Option.bind_some, mkdir]
      split
      · exact ⟨_, rfl⟩
      next nodir =>
        have none : t₁.get (p ++ [n]) = none := by
          cases there : t₁.get (p ++ [n]) with
          | none => rfl
          | some e =>
              cases e with
              | dir => exact absurd there nodir
              | file c => exact absurd (self.symm.trans there) (h _ (List.prefix_refl _) c)
        rw [if_pos none]
        refine put_isSome ⟨by simp, ?_, nodir⟩ _
        rw [List.dropLast_concat]
        exact parent

/-! ## Files -/

/-- The content of a file. -/
def fileAt (t : FileTree N) (p : List N) : Option (List UInt8) :=
  match t.get p with
  | some (.file c) => some c
  | _ => none

theorem fileAt_eq_some : t.fileAt p = some c ↔ t.get p = some (.file c) := by
  unfold fileAt
  split
  next there => rw [there, Option.some.injEq, Option.some.injEq, Entry.file.injEq]
  next other => exact iff_of_false (by nofun) (other c)

theorem fileAt_congr (h : t'.get q = t.get p) : t'.fileAt q = t.fileAt p := by
  rw [fileAt, fileAt, h]

theorem fileAt_put (h : t.put p (.file c) = some t') (q : List N) :
    t'.fileAt q = if q = p then some c else t.fileAt q := by
  have after := get_put h q
  split
  next same =>
    rw [if_pos same] at after
    exact fileAt_eq_some.2 after
  next other =>
    rw [if_neg other] at after
    exact fileAt_congr after

/-- Making a directory touches no file. -/
theorem fileAt_mkdir (h : t.mkdir p = some t') (q : List N) : t'.fileAt q = t.fileAt q := by
  have after := get_mkdir h q
  by_cases same : q = p
  · subst same
    rw [if_pos rfl] at after
    unfold mkdir at h
    split at h
    · cases h
      rfl
    split at h
    next none => rw [fileAt, fileAt, after, none]
    · cases h
  · rw [if_neg same] at after
    exact fileAt_congr after

theorem fileAt_mkdirs (h : t.mkdirs p = some t') (q : List N) : t'.fileAt q = t.fileAt q := by
  induction p using List.reverseRecOn generalizing t' with
  | nil =>
      rw [mkdirs_nil] at h
      cases h
      rfl
  | append_singleton p n ih =>
      rw [mkdirs_concat] at h
      obtain ⟨t₁, above, last⟩ := Option.bind_eq_some_iff.1 h
      rw [fileAt_mkdir last, ih above]

/-- The files, with their contents. -/
def files (t : FileTree N) : List (List N × List UInt8) :=
  t.entries.keys.filterMap fun p => (t.fileAt p).map (p, ·)

theorem mem_files : (p, c) ∈ t.files ↔ t.fileAt p = some c := by
  refine ⟨fun h => ?_, fun h => List.mem_filterMap.2 ⟨p, ?_, by rw [h]; rfl⟩⟩
  · obtain ⟨q, -, same⟩ := List.mem_filterMap.1 h
    obtain ⟨c', file, eq⟩ := Option.map_eq_some_iff.1 same
    cases eq
    exact file
  · refine AList.mem_keys.1 (AList.lookup_isSome.1 ?_)
    change (t.get p).isSome = true
    rw [fileAt_eq_some.1 h]
    rfl

theorem files_nodup (t : FileTree N) : (t.files.map Prod.fst).Nodup := by
  have names : t.files.map Prod.fst = t.entries.keys.filter fun p => (t.fileAt p).isSome := by
    rw [files, List.map_filterMap, ← List.filterMap_eq_filter]
    refine congrArg (fun f => List.filterMap f _) (funext fun p => ?_)
    cases h : t.fileAt p <;> simp [h, Option.guard]
  rw [names]
  exact t.entries.keys_nodup.filter _

/-- Remove a file. -/
def unlink (t : FileTree N) (p : List N) : Option (FileTree N) :=
  if h : (t.fileAt p).isSome then
    some
      { entries := t.entries.erase p
        root := by
          have other : [] ≠ p := by
            rintro rfl
            simp [fileAt] at h
          rw [AList.lookup_erase_ne other]
          exact t.root
        closed := by
          intro q n there
          have kept : q ++ [n] ≠ p := fun same => there (by rw [same, AList.lookup_erase])
          rw [AList.lookup_erase_ne kept] at there
          have parent := t.get_parent there
          have other : q ≠ p := by
            rintro rfl
            simp [fileAt, parent] at h
          rw [AList.lookup_erase_ne other]
          exact parent }
  else none

theorem get_unlink (h : t.unlink p = some t') (q : List N) :
    t'.get q = if q = p then none else t.get q := by
  unfold unlink at h
  split at h
  · cases h
    split
    next same => rw [same]; exact AList.lookup_erase _ _
    next other => exact AList.lookup_erase_ne other
  · cases h

theorem unlink_isSome (h : t.fileAt p = some c) : ∃ t', t.unlink p = some t' := by
  have there : (t.fileAt p).isSome = true := by rw [h]; rfl
  exact ⟨_, dif_pos there⟩

theorem unlink_file (h : t.unlink p = some t') : ∃ c, t.fileAt p = some c := by
  unfold unlink at h
  split at h
  next there => exact Option.isSome_iff_exists.1 there
  · cases h

/-- There is nothing below a path. -/
def bare (t : FileTree N) (p : List N) : Bool :=
  t.entries.keys.all fun q => decide (p <+: q → q = p)

theorem bare_iff : t.bare p = true ↔ ∀ s, s ≠ [] → t.get (p ++ s) = none := by
  have key : ∀ q, q ∈ t.entries.keys ↔ t.get q ≠ none := fun q => by
    rw [← AList.mem_keys, ← AList.lookup_isSome, Option.isSome_iff_ne_none]
    rfl
  simp only [bare, List.all_eq_true, decide_eq_true_eq]
  constructor
  · intro h s ne
    by_contra there
    have same := h (p ++ s) ((key _).2 there) (List.prefix_append p s)
    exact ne (by simpa using same)
  · rintro h q hq ⟨s, rfl⟩
    by_contra other
    exact (key _).1 hq (h s fun none => other (by rw [none, List.append_nil]))

/-- Remove an empty directory. -/
def rmdir (t : FileTree N) (p : List N) : Option (FileTree N) :=
  if h : p ≠ [] ∧ t.bare p = true ∧ t.get p = some .dir then
    some
      { entries := t.entries.erase p
        root := by
          rw [AList.lookup_erase_ne (Ne.symm h.1)]
          exact t.root
        closed := by
          intro q n there
          have kept : q ++ [n] ≠ p := fun same => there (by rw [same, AList.lookup_erase])
          rw [AList.lookup_erase_ne kept] at there
          have other : q ≠ p := by
            rintro rfl
            exact there (bare_iff.1 h.2.1 [n] (List.cons_ne_nil _ _))
          rw [AList.lookup_erase_ne other]
          exact t.get_parent there }
  else none

theorem get_rmdir (h : t.rmdir p = some t') (q : List N) :
    t'.get q = if q = p then none else t.get q := by
  unfold rmdir at h
  split at h
  · cases h
    split
    next same => rw [same]; exact AList.lookup_erase _ _
    next other => exact AList.lookup_erase_ne other
  · cases h

/-! ## Copying -/

theorem lookup_filter (s : AList fun _ : List N => Entry) (keep : List N → Bool) (p : List N)
    (nodup : (s.entries.filter fun e => keep e.1).NodupKeys) :
    (AList.mk (s.entries.filter fun e => keep e.1) nodup).lookup p =
      if keep p then s.lookup p else none := by
  refine Option.ext fun e => ?_
  rw [← Option.mem_def, AList.mem_lookup_iff, List.mem_filter]
  split
  next kept => exact (and_iff_left kept).trans AList.mem_lookup_iff.symm
  next dropped => exact iff_of_false (fun h => dropped h.2) (fun h => by cases h)

/-- What `copytree` makes of a directory, if some names are ignored. -/
def without (t : FileTree N) (ignored : N → Bool) : FileTree N where
  entries := ⟨t.entries.entries.filter fun e => e.1.all (!ignored ·),
    t.entries.nodupKeys.sublist List.filter_sublist⟩
  root := by
    rw [lookup_filter t.entries fun p => p.all (!ignored ·)]
    exact t.root
  closed := by
    intro p n there
    rw [lookup_filter t.entries fun p => p.all (!ignored ·)] at there ⊢
    split at there
    next kept =>
      rw [List.all_append, Bool.and_eq_true] at kept
      rw [if_pos kept.1]
      exact t.closed p n there
    · exact absurd rfl there

theorem get_without (ignored : N → Bool) (p : List N) :
    (t.without ignored).get p = if p.all (!ignored ·) then t.get p else none :=
  lookup_filter t.entries (fun p => p.all (!ignored ·)) p _

theorem fileAt_without (ignored : N → Bool) (p : List N) :
    (t.without ignored).fileAt p = if p.all (!ignored ·) then t.fileAt p else none := by
  have copied := t.get_without ignored p
  split
  next kept =>
    rw [if_pos kept] at copied
    exact fileAt_congr copied
  next dropped =>
    rw [if_neg dropped] at copied
    rw [fileAt, copied]

end FileTree

end Lib
