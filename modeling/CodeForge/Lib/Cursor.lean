import Mathlib.Data.List.MinMax

/-!
# Reading a numbered log by pages

The entries of a log that others extend have increasing numbers.  A reader keeps the
number it has read up to, its cursor, asks for a page of the entries after it, and
moves the cursor to the end of the page.

`Delivered` says what such a reader has seen: the entries from where it started up
to its cursor, all of them, each once and in order.  Neither a page nor an extension
of the log at its end disturbs this, and a reader whose cursor has come to the end
has seen everything after its start (`Delivered.complete`).
-/

namespace Lib

variable {E : Type} {number : E → Nat}

/-- Numbers increase along the log. -/
def Increasing (number : E → Nat) (log : List E) : Prop :=
  log.Pairwise fun e f => number e < number f

/-- The entries after a number. -/
def entriesAfter (number : E → Nat) (log : List E) (n : Nat) : List E :=
  log.filter fun e => n < number e

/-- The entries after one number and up to another. -/
def entriesUpTo (number : E → Nat) (log : List E) (m n : Nat) : List E :=
  log.filter fun e => m < number e && number e ≤ n

/-- The number a page ends with; where it is empty, the one it started after. -/
def pageEnd (number : E → Nat) (page : List E) (n : Nat) : Nat :=
  (page.getLast?.map number).getD n

theorem mem_entriesAfter {log : List E} {n : Nat} {e : E} :
    e ∈ entriesAfter number log n ↔ e ∈ log ∧ n < number e := by
  simp [entriesAfter]

theorem mem_entriesUpTo {log : List E} {m n : Nat} {e : E} :
    e ∈ entriesUpTo number log m n ↔ e ∈ log ∧ m < number e ∧ number e ≤ n := by
  simp [entriesUpTo]

/-! ## Increasing logs -/

theorem Increasing.filter {log : List E} (h : Increasing number log) (p : E → Bool) :
    Increasing number (log.filter p) := List.Pairwise.filter p h

/-- The entries up to a number come before those after it. -/
theorem Increasing.split {log : List E} (h : Increasing number log) (n : Nat) :
    log = (log.filter fun e => number e ≤ n) ++ entriesAfter number log n := by
  unfold entriesAfter
  induction log with
  | nil => rfl
  | cons e log ih =>
      obtain ⟨hfirst, htail⟩ := List.pairwise_cons.1 h
      by_cases he : number e ≤ n
      · rw [List.filter_cons_of_pos (by simpa using he),
          List.filter_cons_of_neg (by simpa using he), List.cons_append, ← ih htail]
      · -- everything after `e` has a greater number still
        have hlow : (log.filter fun f => number f ≤ n) = [] := by
          rw [List.filter_eq_nil_iff]
          intro f hf
          have := hfirst f hf
          simp only [decide_eq_true_eq]
          omega
        have hhigh : (log.filter fun f => n < number f) = log := by
          rw [List.filter_eq_self]
          intro f hf
          have := hfirst f hf
          simp only [decide_eq_true_eq]
          omega
        rw [List.filter_cons_of_neg (by simpa using he),
          List.filter_cons_of_pos (by simpa using he), hlow, hhigh, List.nil_append]

/-- The last entry has the greatest number. -/
theorem Increasing.argmax {log : List E} (h : Increasing number log) :
    log.argmax number = log.getLast? := by
  rcases List.eq_nil_or_concat log with rfl | ⟨front, e, rfl⟩
  · rfl
  · rw [List.concat_eq_append, List.argmax_concat, List.getLast?_concat]
    rw [List.concat_eq_append] at h
    cases hf : front.argmax number with
    | none => rfl
    | some f =>
        have hlt := (List.pairwise_append.1 h).2.2 f (List.argmax_mem hf) e
          (List.mem_singleton_self e)
        exact if_pos hlt

/-- The entries after the end of a log are those added to it. -/
theorem entriesAfter_append {log new : List E} {n : Nat} (old : ∀ e ∈ log, number e ≤ n)
    (added : ∀ e ∈ new, n < number e) : entriesAfter number (log ++ new) n = new := by
  unfold entriesAfter
  rw [List.filter_append, List.filter_eq_nil_iff.2, List.filter_eq_self.2, List.nil_append]
  · intro e he
    exact decide_eq_true (added e he)
  · intro e he
    have := old e he
    simp only [decide_eq_true_eq]
    omega

/-- Reading one page moves the cursor over exactly this page. -/
theorem Increasing.page {log : List E} (h : Increasing number log) {m n : Nat} (hmn : m ≤ n)
    (size : Nat) :
    n ≤ pageEnd number ((entriesAfter number log n).take size) n ∧
    entriesUpTo number log m (pageEnd number ((entriesAfter number log n).take size) n) =
      entriesUpTo number log m n ++ (entriesAfter number log n).take size := by
  have hsplit := h.split n
  have hafter : Increasing number (entriesAfter number log n) := h.filter _
  have hlow : entriesUpTo number log m n =
      (log.filter fun e => number e ≤ n).filter fun e => m < number e := by
    simp only [entriesUpTo, List.filter_filter]
  have hmem : ∀ e ∈ entriesAfter number log n, n < number e := fun e he =>
    (mem_entriesAfter.1 he).2
  generalize entriesAfter number log n = rest at hsplit hafter hmem ⊢
  generalize (log.filter fun e => number e ≤ n) = low at hsplit hlow
  have hlow' : ∀ e ∈ low.filter fun e => m < number e, number e ≤ n := by
    intro e he
    rw [← hlow] at he
    exact (mem_entriesUpTo.1 he).2.2
  cases hlast : (rest.take size).getLast? with
  | none =>
      rw [List.getLast?_eq_none_iff] at hlast
      simp [pageEnd, hlast]
  | some e =>
      have he : e ∈ rest.take size := List.mem_of_getLast? hlast
      have hend : pageEnd number (rest.take size) n = number e := by simp [pageEnd, hlast]
      have hn := hmem e (List.mem_of_mem_take he)
      rw [hend]
      refine ⟨by omega, ?_⟩
      -- the page is below its last entry, what it leaves is above
      have hpage : ∀ f ∈ rest.take size, number f ≤ number e := by
        intro f hf
        obtain ⟨front, hfront⟩ := List.getLast?_eq_some_iff.1 hlast
        rw [hfront, List.mem_append, List.mem_singleton] at hf
        rcases hf with hf | rfl
        · have hinc : Increasing number (front ++ [e]) := by
            rw [← hfront]
            exact hafter.sublist (List.take_sublist _ _)
          exact Nat.le_of_lt ((List.pairwise_append.1 hinc).2.2 f hf e (List.mem_singleton_self e))
        · exact Nat.le_refl _
      have hleft : ∀ f ∈ rest.drop size, number e < number f := by
        intro f hf
        have hinc : Increasing number (rest.take size ++ rest.drop size) := by
          rw [List.take_append_drop]
          exact hafter
        exact (List.pairwise_append.1 hinc).2.2 e he f hf
      have hwhole : log = low ++ (rest.take size ++ rest.drop size) := by
        rw [List.take_append_drop]
        exact hsplit
      rw [hlow, hwhole, entriesUpTo, List.filter_append, List.filter_append]
      congr 1
      · refine List.filter_congr fun f hf => ?_
        by_cases hm : m < number f
        · have := hlow' f (List.mem_filter.2 ⟨hf, decide_eq_true hm⟩)
          have : number f ≤ number e := by omega
          simp [hm, this]
        · simp [hm]
      · rw [List.filter_eq_self.2, List.filter_eq_nil_iff.2, List.append_nil]
        · intro f hf
          have := hleft f hf
          simp only [Bool.and_eq_true, decide_eq_true_eq, not_and]
          omega
        · intro f hf
          have := hmem f (List.mem_of_mem_take hf)
          have := hpage f hf
          simp only [Bool.and_eq_true, decide_eq_true_eq]
          omega

/-! ## What a reader has seen -/

/-- The reader that started after `start` has seen the entries up to its cursor. -/
structure Delivered (number : E → Nat) (log : List E) (start cursor : Nat) (seen : List E) :
    Prop where
  le : start ≤ cursor
  /-- The cursor is at an entry, or still at the start. -/
  known : cursor = start ∨ ∃ e ∈ log, number e = cursor
  seen_eq : seen = entriesUpTo number log start cursor

namespace Delivered

variable {log : List E} {start cursor : Nat} {seen : List E}

theorem initial (number : E → Nat) (log : List E) (start : Nat) :
    Delivered number log start start [] where
  le := Nat.le_refl _
  known := .inl rfl
  seen_eq := by
    rw [eq_comm, entriesUpTo, List.filter_eq_nil_iff]
    intro e _
    simp only [Bool.and_eq_true, decide_eq_true_eq, not_and]
    omega

/-- The log gets longer. -/
theorem grow (h : Delivered number log start cursor seen) {new : List E}
    (increasing : Increasing number (log ++ new)) :
    Delivered number (log ++ new) start cursor seen where
  le := h.le
  known := h.known.imp_right fun ⟨e, he, hn⟩ => ⟨e, List.mem_append_left _ he, hn⟩
  seen_eq := by
    have hnew : (new.filter fun e => start < number e && number e ≤ cursor) = [] := by
      rw [List.filter_eq_nil_iff]
      intro e he
      simp only [Bool.and_eq_true, decide_eq_true_eq, not_and]
      rcases h.known with hc | ⟨f, hf, hc⟩
      · omega
      · have := (List.pairwise_append.1 increasing).2.2 f hf e he
        omega
    rw [h.seen_eq, entriesUpTo, entriesUpTo, List.filter_append, hnew, List.append_nil]

/-- The reader reads a page. -/
theorem page (h : Delivered number log start cursor seen) (increasing : Increasing number log)
    (size : Nat) :
    let page := (entriesAfter number log cursor).take size
    Delivered number log start (pageEnd number page cursor) (seen ++ page) := by
  intro page
  obtain ⟨hle, heq⟩ := increasing.page h.le size
  refine ⟨Nat.le_trans h.le hle, ?_, by rw [heq, h.seen_eq]⟩
  cases hlast : page.getLast? with
  | none =>
      rw [pageEnd, hlast]
      exact h.known
  | some e =>
      rw [pageEnd, hlast]
      have he : e ∈ page := List.mem_of_getLast? hlast
      exact .inr ⟨e, (mem_entriesAfter.1 (List.mem_of_mem_take he)).1, rfl⟩

/-- What was seen is in order, so it was seen once. -/
theorem increasing (h : Delivered number log start cursor seen)
    (increasing : Increasing number log) : Increasing number seen := by
  rw [h.seen_eq]
  exact increasing.filter _

theorem mem (h : Delivered number log start cursor seen) {e : E} :
    e ∈ seen ↔ e ∈ log ∧ start < number e ∧ number e ≤ cursor := by
  rw [h.seen_eq]
  exact mem_entriesUpTo

/-- At the end of the log everything after the start was seen. -/
theorem complete (h : Delivered number log start cursor seen)
    (atEnd : ∀ e ∈ log, number e ≤ cursor) : seen = entriesAfter number log start := by
  rw [h.seen_eq]
  refine List.filter_congr fun e he => ?_
  simp [atEnd e he]

end Delivered

end Lib
