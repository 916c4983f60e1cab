import Mathlib.Data.List.Pairwise
import Mathlib.Data.List.Perm.Basic

/-!
# Reading a text from left to right

A finder says what it finds at the start of a text and how long that is.  To read
a text is to take what is found first, to go on behind it and not to go back.

What a reading finds is sound, does not overlap and leaves out nothing that
begins outside of what it has found (`reads_read`), and no other list of
findings is so (`Reads.unique`).  So two readings are compared by these three
properties and not by how they proceed: `Joins.reads_left` says when two readings
for one kind of thing each find together what one reading for both finds.
-/

namespace Lib.Scan

/-- Finds at the start of a text something that is not empty. -/
structure Finder (C B : Type) where
  find : List C → Option (B × Nat)
  pos : ∀ {text v n}, find text = some (v, n) → 0 < n
  within : ∀ {text v n}, find text = some (v, n) → n ≤ text.length

/-- What is found at a place of a text. -/
@[ext] structure Found (B : Type) where
  start : Nat
  size : Nat
  value : B
deriving DecidableEq, Repr

namespace Found

variable {B D : Type}

def stop (m : Found B) : Nat := m.start + m.size

def map (f : B → D) (m : Found B) : Found D := ⟨m.start, m.size, f m.value⟩

@[simp] theorem map_start (f : B → D) (m : Found B) : (m.map f).start = m.start := rfl

@[simp] theorem map_stop (f : B → D) (m : Found B) : (m.map f).stop = m.stop := rfl

@[simp] theorem map_value (f : B → D) (m : Found B) : (m.map f).value = f m.value := rfl

end Found

variable {C B D : Type}

/-- What is found from a position on, when so many entries of the text are skipped first. -/
def readFrom (f : Finder C B) : Nat → Nat → List C → List (Found B)
  | _, _, [] => []
  | pos, skip + 1, _ :: cs => readFrom f (pos + 1) skip cs
  | pos, 0, c :: cs =>
      match f.find (c :: cs) with
      | some (v, n) => ⟨pos, n, v⟩ :: readFrom f (pos + 1) (n - 1) cs
      | none => readFrom f (pos + 1) 0 cs

/-- What is found in a text. -/
def read (f : Finder C B) (text : List C) : List (Found B) := readFrom f 0 0 text

/-! ## What a reading is -/

/-- The findings are there, do not overlap, and cover the start of everything that could be
found. -/
structure Reads (f : Finder C B) (text : List C) (found : List (Found B)) : Prop where
  sound : ∀ m ∈ found, f.find (text.drop m.start) = some (m.value, m.size)
  apart : found.Pairwise fun m m' => m.stop ≤ m'.start
  covers : ∀ i v n, f.find (text.drop i) = some (v, n) → ∃ m ∈ found, m.start ≤ i ∧ i < m.stop

theorem Finder.find_nil (f : Finder C B) : f.find [] = none := by
  cases h : f.find [] with
  | none => rfl
  | some found => exact absurd (Nat.lt_of_lt_of_le (f.pos h) (f.within h)) (Nat.lt_irrefl 0)

theorem mem_readFrom (f : Finder C B) {m : Found B} (cs : List C) :
    ∀ {pos skip : Nat}, m ∈ readFrom f pos skip cs →
      ∃ i, m.start = pos + i ∧ skip ≤ i ∧ f.find (cs.drop i) = some (m.value, m.size) := by
  induction cs with
  | nil => intro pos skip hm; cases hm
  | cons c cs ih =>
    intro pos skip hm
    have later : ∀ {skip'}, m ∈ readFrom f (pos + 1) skip' cs → skip ≤ skip' + 1 →
        ∃ i, m.start = pos + i ∧ skip ≤ i ∧ f.find ((c :: cs).drop i) = some (m.value, m.size) := by
      intro skip' hm le
      obtain ⟨i, start, skipped, found⟩ := ih hm
      exact ⟨i + 1, by omega, by omega, found⟩
    cases skip with
    | succ skip => exact later hm (Nat.le_refl _)
    | zero =>
      rw [readFrom] at hm
      cases h : f.find (c :: cs) with
      | none =>
        rw [h] at hm
        exact later hm (Nat.zero_le _)
      | some first =>
        obtain ⟨v, n⟩ := first
        rw [h] at hm
        rcases List.mem_cons.1 hm with rfl | hm
        · exact ⟨0, rfl, Nat.le_refl _, h⟩
        · exact later hm (Nat.zero_le _)

theorem pairwise_readFrom (f : Finder C B) (cs : List C) :
    ∀ pos skip, (readFrom f pos skip cs).Pairwise fun m m' => m.stop ≤ m'.start := by
  induction cs with
  | nil => intro pos skip; exact .nil
  | cons c cs ih =>
    intro pos skip
    cases skip with
    | succ skip => exact ih _ _
    | zero =>
      rw [readFrom]
      cases h : f.find (c :: cs) with
      | none => exact ih _ _
      | some first =>
        obtain ⟨v, n⟩ := first
        refine .cons (fun m' hm' => ?_) (ih _ _)
        obtain ⟨i, start, skipped, -⟩ := mem_readFrom f cs hm'
        show pos + n ≤ m'.start
        omega

theorem readFrom_covers (f : Finder C B) (cs : List C) :
    ∀ {pos skip i : Nat} {v : B} {n : Nat}, skip ≤ i → f.find (cs.drop i) = some (v, n) →
      ∃ m ∈ readFrom f pos skip cs, m.start ≤ pos + i ∧ pos + i < m.stop := by
  induction cs with
  | nil =>
    intro pos skip i v n _ found
    rw [List.drop_nil, f.find_nil] at found
    cases found
  | cons c cs ih =>
    intro pos skip i v n skipped found
    have later : ∀ {skip'}, 0 < i → skip' ≤ i - 1 →
        ∃ m ∈ readFrom f (pos + 1) skip' cs, m.start ≤ pos + i ∧ pos + i < m.stop := by
      intro skip' pos_i le
      obtain ⟨j, rfl⟩ : ∃ j, i = j + 1 := ⟨i - 1, by omega⟩
      obtain ⟨m, hm, starts, stops⟩ := @ih (pos + 1) skip' j v n le found
      exact ⟨m, hm, by omega, by omega⟩
    cases skip with
    | succ skip => exact later (by omega) (by omega)
    | zero =>
      rw [readFrom]
      cases h : f.find (c :: cs) with
      | none =>
        refine later (Nat.pos_of_ne_zero fun zero => ?_) (Nat.zero_le _)
        rw [zero, List.drop_zero, h] at found
        cases found
      | some first =>
        obtain ⟨w, k⟩ := first
        have nonempty := f.pos h
        by_cases inside : i < k
        · refine ⟨_, List.mem_cons_self, ?_, ?_⟩
          · show pos ≤ pos + i
            omega
          · show pos + i < pos + k
            omega
        · obtain ⟨m, hm, rest⟩ := @later (k - 1) (by omega) (by omega)
          exact ⟨m, List.mem_cons_of_mem _ hm, rest⟩

theorem reads_read (f : Finder C B) (text : List C) : Reads f text (read f text) where
  sound m hm := by
    obtain ⟨i, start, -, found⟩ := mem_readFrom f text hm
    rwa [start, Nat.zero_add]
  apart := pairwise_readFrom f text 0 0
  covers i v n found := by
    obtain ⟨m, hm, starts, stops⟩ := @readFrom_covers C B f text 0 0 i v n (Nat.zero_le i) found
    exact ⟨m, hm, by omega, by omega⟩

/-! ## There is one reading -/

namespace Reads

variable {f : Finder C B} {text : List C} {found found' : List (Found B)}

theorem start_lt_stop (h : Reads f text found) {m : Found B} (hm : m ∈ found) :
    m.start < m.stop :=
  Nat.lt_add_of_pos_right (f.pos (h.sound m hm))

/-- Two findings that share a place are one. -/
theorem eq_of_overlap (h : Reads f text found) {m m' : Found B} (hm : m ∈ found)
    (hm' : m' ∈ found) (before : m.start < m'.stop) (after : m'.start < m.stop) : m = m' := by
  let Side (a b : Found B) : Prop := a = b ∨ a.stop ≤ b.start ∨ b.stop ≤ a.start
  have symm : Std.Symm Side := ⟨fun a b side => side.imp Eq.symm Or.symm⟩
  have sides : found.Pairwise Side := h.apart.imp fun le => .inr (.inl le)
  have side := List.Pairwise.forall_of_forall (fun a _ => .inl rfl) sides hm hm'
  rcases side with same | beside
  · exact same
  · omega

theorem mem_of_mem (h : Reads f text found) (h' : Reads f text found') :
    ∀ k m, m.start = k → (m ∈ found ↔ m ∈ found') := by
  intro k
  induction k using Nat.strongRecOn with
  | _ k ih =>
    have one : ∀ {l l' : List (Found B)}, Reads f text l → Reads f text l' →
        (∀ m, m.start < k → m ∈ l' → m ∈ l) → ∀ m, m.start = k → m ∈ l → m ∈ l' := by
      intro l l' hl hl' earlier m start hm
      obtain ⟨m', hm', starts, stops⟩ := hl'.covers m.start _ _ (hl.sound m hm)
      rcases Nat.lt_or_eq_of_le starts with before | same
      · have both := earlier m' (by omega) hm'
        have apart := hl.eq_of_overlap both hm (by have := hl.start_lt_stop hm; omega) stops
        rw [apart] at before
        exact absurd before (Nat.lt_irrefl _)
      · have found := hl'.sound m' hm'
        rw [same, hl.sound m hm] at found
        have value : m = m' := by
          obtain ⟨values, sizes⟩ := Prod.ext_iff.1 (Option.some.inj found)
          exact Found.ext same.symm sizes values
        rwa [value]
    intro m start
    exact ⟨one h h' (fun m' lt => (ih _ (start ▸ lt) m' rfl).2) m start,
      one h' h (fun m' lt => (ih _ (start ▸ lt) m' rfl).1) m start⟩

theorem strict (h : Reads f text found) :
    found.Pairwise fun m m' => m.start < m'.start :=
  h.apart.imp_of_mem fun hm _ le => Nat.lt_of_lt_of_le (h.start_lt_stop hm) le

/-- A text is read in one way. -/
theorem unique (h : Reads f text found) (h' : Reads f text found') : found = found' := by
  have nodup : ∀ {l : List (Found B)}, Reads f text l → l.Nodup := fun hl =>
    hl.strict.imp fun {a b} lt (same : a = b) => Nat.lt_irrefl a.start (by rwa [← same] at lt)
  have perm : found.Perm found' :=
    (List.perm_ext_iff_of_nodup (nodup h) (nodup h')).2 fun m => h.mem_of_mem h' _ m rfl
  exact perm.eq_of_pairwise (fun a b _ _ lt lt' => absurd (Nat.lt_trans lt lt') (Nat.lt_irrefl _))
    h.strict h'.strict

end Reads

/-! ## Readings of several finders -/

/-- The same places are found, with other values. -/
theorem readFrom_map {f : Finder C B} {g : Finder C D} {φ : B → D}
    (h : ∀ cs, g.find cs = (f.find cs).map fun x => (φ x.1, x.2)) (cs : List C) :
    ∀ pos skip, readFrom g pos skip cs = (readFrom f pos skip cs).map (Found.map φ) := by
  induction cs with
  | nil => intro pos skip; rfl
  | cons c cs ih =>
    intro pos skip
    cases skip with
    | succ skip => exact ih _ _
    | zero =>
      rw [readFrom, readFrom, h]
      cases f.find (c :: cs) with
      | none => exact ih _ _
      | some first => exact congrArg (_ :: ·) (ih _ _)

theorem read_map {f : Finder C B} {g : Finder C D} {φ : B → D}
    (h : ∀ cs, g.find cs = (f.find cs).map fun x => (φ x.1, x.2)) (text : List C) :
    read g text = (read f text).map (Found.map φ) :=
  readFrom_map h text 0 0

/-- What is found is found by one of two finders, and its value says by which. -/
structure Joins (u f g : Finder C B) (left : B → Bool) : Prop where
  find : ∀ {cs x}, u.find cs = some x ↔ f.find cs = some x ∨ g.find cs = some x
  of_left : ∀ {cs v n}, f.find cs = some (v, n) → left v = true
  of_right : ∀ {cs v n}, g.find cs = some (v, n) → left v = false

namespace Joins

variable {u f g : Finder C B} {left : B → Bool} {text : List C} {found : List (Found B)}

theorem symm (j : Joins u f g left) : Joins u g f fun v => !left v where
  find := by
    intro cs x
    rw [j.find, or_comm]
  of_left h := by simp [j.of_right h]
  of_right h := by simp [j.of_left h]

theorem find_left (j : Joins u f g left) {cs : List C} {v : B} {n : Nat}
    (h : u.find cs = some (v, n)) (hv : left v = true) : f.find cs = some (v, n) := by
  rcases j.find.1 h with here | there
  · exact here
  · rw [j.of_right there] at hv
    cases hv

/-- Where nothing of the one begins inside a finding of the other, the one alone reads its part
of what both read. -/
theorem reads_left (j : Joins u f g left) (h : Reads u text found)
    (outside : ∀ m ∈ found, left m.value = false → ∀ i, m.start < i → i < m.stop →
      f.find (text.drop i) = none) :
    Reads f text (found.filter fun m => left m.value) where
  sound m hm := by
    obtain ⟨hm, hleft⟩ := List.mem_filter.1 hm
    exact j.find_left (h.sound m hm) hleft
  apart := h.apart.filter _
  covers i v n there := by
    obtain ⟨m, hm, starts, stops⟩ := h.covers i v n (j.find.2 (.inl there))
    refine ⟨m, List.mem_filter.2 ⟨hm, ?_⟩, starts, stops⟩
    cases side : left m.value with
    | true => rfl
    | false =>
      rcases Nat.lt_or_eq_of_le starts with inside | same
      · rw [outside m hm side i inside stops] at there
        cases there
      · have value := h.sound m hm
        rw [same, j.find.2 (.inl there)] at value
        cases value
        exact side.symm.trans (j.of_left there)

end Joins

/-- Nothing of a finder that reads some of the findings begins inside another of them. -/
theorem Reads.outside {u f : Finder C B} {text : List C} {found : List (Found B)}
    (h : Reads u text found) (left : B → Bool)
    (part : Reads f text (found.filter fun m => left m.value)) {m : Found B} (hm : m ∈ found)
    (side : left m.value = false) {i : Nat} (starts : m.start < i) (stops : i < m.stop) :
    f.find (text.drop i) = none := by
  cases there : f.find (text.drop i) with
  | none => rfl
  | some x =>
    obtain ⟨m', hm', starts', stops'⟩ := part.covers i x.1 x.2 there
    obtain ⟨hm', side'⟩ := List.mem_filter.1 hm'
    have same := h.eq_of_overlap hm hm' (by omega) (by omega)
    rw [same, side'] at side
    cases side

end Lib.Scan
