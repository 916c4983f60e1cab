import Mathlib.Data.Nat.Find
import Mathlib.Logic.Function.Basic
import Mathlib.Logic.Relation
import Mathlib.Tactic.Common

/-!
# Leases over queues

Jobs wait in queues, and every queue works on one resource that several queues
may share.  A worker that claims the first waiting job of a queue is given a
*grant*, and with it the queue and the resource, until the job is closed.

The open grants are the one fact.  The holder of a resource, the active job of a
queue and the grant of a job are three views of it, kept in three places
(`Inv.holder`, `Inv.active`, `Inv.granted`).  Each grant is stamped with an epoch
of its queue and of its resource, counted from one.  Within a queue the epochs
of the grants follow the places of their jobs (`Inv.fifo`).

A job may be put back into its queue while it is held.  It keeps its grant then,
and with it the queue and the resource, so nobody can claim it again.
`Inv.exists_claimable_iff` says when a resource has a job that can be claimed.
-/

set_option linter.unusedSectionVars false

namespace Lib.Lease

variable {W Q R A : Type}

/-! ## States -/

/-- Where a job is. -/
inductive Phase where
  /-- In its queue. -/
  | queued
  /-- With a worker. -/
  | held
  /-- On its way out. -/
  | ending
  /-- At its end. -/
  | closed
deriving DecidableEq

/-- What the queues work on. -/
structure Resource (A : Type) where
  holder : Option A
  epoch : Nat

/-- A queue of jobs. -/
structure Queue (W R : Type) where
  resource : W
  active : Option R
  epoch : Nat
  nextPlace : Nat

/-- A job in a queue. -/
structure Job (W Q A : Type) where
  queue : Q
  resource : W
  place : Nat
  phase : Phase
  grant : Option A

/-- The right to work on a job. -/
structure Grant (W Q R : Type) where
  job : R
  queue : Q
  resource : W
  queueEpoch : Nat
  resourceEpoch : Nat
  isOpen : Bool

/-- The state of all resources, queues, jobs and grants. -/
@[ext] structure State (W Q R A : Type) where
  resource : W → Option (Resource A)
  queue : Q → Option (Queue W R)
  job : R → Option (Job W Q A)
  grant : A → Option (Grant W Q R)

/-- Nothing is there yet. -/
def State.initial : State W Q R A :=
  ⟨fun _ => none, fun _ => none, fun _ => none, fun _ => none⟩

/-! ## Steps -/

/-- No job of the queue waits before this one. -/
def State.First (s : State W Q R A) (j : Job W Q A) : Prop :=
  ∀ r i, s.job r = some i → i.queue = j.queue → i.phase = .queued → j.place ≤ i.place

/-- A job can be claimed: it waits, first in its queue, and queue and resource
are free. -/
structure State.Claimable (s : State W Q R A) (j : Job W Q A) (k : Queue W R) (w : Resource A) :
    Prop where
  queued : j.phase = .queued
  queue : s.queue j.queue = some k
  resource : s.resource k.resource = some w
  idle : k.active = none
  free : w.holder = none
  first : s.First j

section Step

variable [DecidableEq W] [DecidableEq Q] [DecidableEq R] [DecidableEq A]

/-- The grant a claim gives out. -/
def Grant.issue (r : R) (j : Job W Q A) (k : Queue W R) (w : Resource A) : Grant W Q R :=
  ⟨r, j.queue, k.resource, k.epoch + 1, w.epoch + 1, true⟩

/-- The state after a job was claimed. -/
def State.claim (s : State W Q R A) (r : R) (a : A) (j : Job W Q A) (k : Queue W R)
    (w : Resource A) : State W Q R A where
  resource := Function.update s.resource k.resource (some ⟨some a, w.epoch + 1⟩)
  queue := Function.update s.queue j.queue
    (some { k with active := some r, epoch := k.epoch + 1 })
  job := Function.update s.job r (some { j with phase := .held, grant := some a })
  grant := Function.update s.grant a (some (Grant.issue r j k w))

/-- The state after a job was closed. -/
def State.close (s : State W Q R A) (r : R) (j : Job W Q A) : State W Q R A where
  resource := fun i => (s.resource i).map fun w =>
    if i = j.resource ∧ w.holder ≠ none ∧ w.holder = j.grant then { w with holder := none } else w
  queue := fun i => (s.queue i).map fun k =>
    if k.active = some r then { k with active := none } else k
  job := Function.update s.job r (some { j with phase := .closed, grant := none })
  grant := fun i => (s.grant i).map fun g =>
    if j.grant = some i then { g with isOpen := false } else g

/-- What can happen.  Jobs are put back into their queues only where `resumes`
holds, and called held without a grant only where `starts` does. -/
inductive Step (resumes starts : Prop) : State W Q R A → State W Q R A → Prop
  | addResource {s : State W Q R A} {i : W} (fresh : s.resource i = none) :
      Step resumes starts s { s with resource := Function.update s.resource i (some ⟨none, 0⟩) }
  | addQueue {s : State W Q R A} {i : Q} {w : W} (fresh : s.queue i = none)
      (known : ∃ v, s.resource w = some v) :
      Step resumes starts s { s with queue := Function.update s.queue i (some ⟨w, none, 0, 1⟩) }
  | addJob {s : State W Q R A} {r : R} {i : Q} {k : Queue W R} (fresh : s.job r = none)
      (known : s.queue i = some k) :
      Step resumes starts s
        { s with
          job := Function.update s.job r (some ⟨i, k.resource, k.nextPlace, .queued, none⟩)
          queue := Function.update s.queue i (some { k with nextPlace := k.nextPlace + 1 }) }
  | claim {s : State W Q R A} {r : R} {a : A} {j : Job W Q A} {k : Queue W R} {w : Resource A}
      (known : s.job r = some j) (claimable : s.Claimable j k w) (fresh : s.grant a = none) :
      Step resumes starts s (s.claim r a j k w)
  | move {s : State W Q R A} {r : R} {j : Job W Q A} {p : Phase} (known : s.job r = some j)
      (live : j.phase ≠ .closed) (open_ : p ≠ .closed)
      (held : p = .held → starts ∨ j.phase = .held)
      (queued : p = .queued → resumes ∧ j.phase = .held) :
      Step resumes starts s { s with job := Function.update s.job r (some { j with phase := p }) }
  | close {s : State W Q R A} {r : R} {j : Job W Q A} (known : s.job r = some j)
      (live : j.phase ≠ .closed) : Step resumes starts s (s.close r j)

end Step

/-- A grant that was not closed yet. -/
def Open (grant : A → Option (Grant W Q R)) (a : A) (g : Grant W Q R) : Prop :=
  grant a = some g ∧ g.isOpen = true

/-! ## The invariant -/

/-- The open grants and their three views agree. -/
structure Inv (s : State W Q R A) : Prop where
  /-- A queue works on a resource. -/
  queue_resource : ∀ q k, s.queue q = some k → ∃ w, s.resource k.resource = some w
  /-- A job is in a queue, works on its resource, and has a place of its own. -/
  job_queue : ∀ r j, s.job r = some j →
    ∃ k, s.queue j.queue = some k ∧ j.resource = k.resource ∧ j.place < k.nextPlace
  job_place : ∀ r r' j j', s.job r = some j → s.job r' = some j' → j.queue = j'.queue →
    j.place = j'.place → r = r'
  /-- A grant is for a job, and for the queue and resource of the job. -/
  grant_job : ∀ a g, s.grant a = some g →
    ∃ j, s.job g.job = some j ∧ j.queue = g.queue ∧ j.resource = g.resource
  /-- The holder of a resource is its open grant. -/
  holder : ∀ i w a, s.resource i = some w →
    (w.holder = some a ↔ ∃ g, Open s.grant a g ∧ g.resource = i)
  /-- The active job of a queue is the one with the open grant. -/
  active : ∀ i k r, s.queue i = some k →
    (k.active = some r ↔ ∃ a g, Open s.grant a g ∧ g.queue = i ∧ g.job = r)
  /-- The grant of a job is its open grant. -/
  granted : ∀ r j a, s.job r = some j →
    (j.grant = some a ↔ ∃ g, Open s.grant a g ∧ g.job = r)
  held : ∀ r j, s.job r = some j → j.phase = .held → j.grant ≠ none
  closed : ∀ r j, s.job r = some j → j.phase = .closed → j.grant = none
  /-- A live job without a grant never had one. -/
  fresh : ∀ r j, s.job r = some j → j.phase ≠ .closed → j.grant = none →
    ∀ a g, s.grant a = some g → g.job ≠ r
  resource_epoch : ∀ a g w, s.grant a = some g → s.resource g.resource = some w →
    g.resourceEpoch ≤ w.epoch
  resource_epoch_attained : ∀ i w, s.resource i = some w → w.epoch ≠ 0 →
    ∃ a g, s.grant a = some g ∧ g.resource = i ∧ g.resourceEpoch = w.epoch
  queue_epoch : ∀ a g k, s.grant a = some g → s.queue g.queue = some k →
    g.queueEpoch ≤ k.epoch
  queue_epoch_attained : ∀ i k, s.queue i = some k → k.epoch ≠ 0 →
    ∃ a g, s.grant a = some g ∧ g.queue = i ∧ g.queueEpoch = k.epoch
  /-- A job that waits without a grant is behind every job that had one. -/
  behind : ∀ r j, s.job r = some j → j.phase = .queued → j.grant = none →
    ∀ a g i, s.grant a = some g → g.queue = j.queue → s.job g.job = some i → i.place < j.place
  /-- Within a queue, jobs were granted in the order of their places. -/
  fifo : ∀ a b g h i j, s.grant a = some g → s.grant b = some h → g.queue = h.queue →
    s.job g.job = some i → s.job h.job = some j → g.queueEpoch < h.queueEpoch →
    i.place < j.place

theorem Inv.initial : Inv (State.initial : State W Q R A) := by
  constructor <;> simp [State.initial]

/-! ## Preservation -/

/-- Where queue and resource are free, no grant of theirs is open. -/
theorem Inv.no_open_of_claimable {s : State W Q R A} (h : Inv s) {j : Job W Q A}
    {k : Queue W R} {w : Resource A} (c : s.Claimable j k w) {a : A} {g : Grant W Q R}
    (hg : Open s.grant a g) : g.queue ≠ j.queue ∧ g.resource ≠ k.resource := by
  constructor
  · intro hq
    have := (h.active _ _ g.job c.queue).2 ⟨a, g, hg, hq, rfl⟩
    rw [c.idle] at this
    cases this
  · intro hr
    have := (h.holder _ _ a c.resource).2 ⟨g, hg, hr⟩
    rw [c.free] at this
    cases this

/-- A job that can be claimed has no grant, and never had one. -/
theorem Inv.grant_of_claimable {s : State W Q R A} (h : Inv s) {r : R} {j : Job W Q A}
    {k : Queue W R} {w : Resource A} (known : s.job r = some j) (c : s.Claimable j k w) :
    j.grant = none ∧ ∀ a g, s.grant a = some g → g.job ≠ r := by
  have hnone : j.grant = none := by
    cases hj : j.grant with
    | none => rfl
    | some a =>
        obtain ⟨g, hg, rfl⟩ := (h.granted r j a known).1 hj
        obtain ⟨j', hj', hq, -⟩ := h.grant_job a g hg.1
        rw [known] at hj'
        cases hj'
        exact absurd hq.symm (h.no_open_of_claimable c hg).1
  exact ⟨hnone, h.fresh r j known (by rw [c.queued]; decide) hnone⟩

section Step

variable [DecidableEq W] [DecidableEq Q] [DecidableEq R] [DecidableEq A]

theorem Inv.addResource {s : State W Q R A} (h : Inv s) {i : W} (fresh : s.resource i = none) :
    Inv { s with resource := Function.update s.resource i (some ⟨none, 0⟩) } := by
  -- no grant names the new resource
  have unused : ∀ a g, s.grant a = some g → g.resource ≠ i := by
    have := h.grant_job; have := h.job_queue; have := h.queue_resource
    grind
  constructor <;> simp only [Function.update_apply]
  case queue_resource => have := h.queue_resource; grind
  case holder => have := h.holder; grind [Open]
  case resource_epoch => have := h.resource_epoch; grind
  case resource_epoch_attained => have := h.resource_epoch_attained; grind
  all_goals first | exact h.job_queue | exact h.job_place | exact h.grant_job | exact h.active
                  | exact h.granted | exact h.held | exact h.closed | exact h.fresh
                  | exact h.queue_epoch | exact h.queue_epoch_attained | exact h.behind
                  | exact h.fifo

theorem Inv.addQueue {s : State W Q R A} (h : Inv s) {i : Q} {w : W} (fresh : s.queue i = none)
    (known : ∃ v, s.resource w = some v) :
    Inv { s with queue := Function.update s.queue i (some ⟨w, none, 0, 1⟩) } := by
  -- no job and no grant names the new queue
  have noJob : ∀ r j, s.job r = some j → j.queue ≠ i := by
    have := h.job_queue
    grind
  have unused : ∀ a g, s.grant a = some g → g.queue ≠ i := by
    have := h.grant_job
    grind
  constructor <;> simp only [Function.update_apply]
  case queue_resource => have := h.queue_resource; grind
  case job_queue => have := h.job_queue; grind
  case active => have := h.active; grind [Open]
  case queue_epoch => have := h.queue_epoch; grind
  case queue_epoch_attained => have := h.queue_epoch_attained; grind
  all_goals first | exact h.job_place | exact h.grant_job | exact h.holder | exact h.granted
                  | exact h.held | exact h.closed | exact h.fresh | exact h.resource_epoch
                  | exact h.resource_epoch_attained | exact h.behind | exact h.fifo

theorem Inv.addJob {s : State W Q R A} (h : Inv s) {r : R} {i : Q} {k : Queue W R}
    (fresh : s.job r = none) (known : s.queue i = some k) :
    Inv { s with
      job := Function.update s.job r (some ⟨i, k.resource, k.nextPlace, .queued, none⟩)
      queue := Function.update s.queue i (some { k with nextPlace := k.nextPlace + 1 }) } := by
  -- no grant is for the new job, and its place is behind all others
  have unused : ∀ a g, s.grant a = some g → g.job ≠ r := by
    have := h.grant_job
    grind
  have last : ∀ r' j, s.job r' = some j → j.queue = i → j.place < k.nextPlace := by
    have := h.job_queue
    grind
  constructor <;> simp only [Function.update_apply]
  case queue_resource => have := h.queue_resource; grind
  case job_queue => have := h.job_queue; grind
  case job_place => have := h.job_place; grind
  case grant_job => have := h.grant_job; grind
  case active => have := h.active; grind
  case granted => have := h.granted; grind [Open]
  case held => have := h.held; grind
  case closed => have := h.closed; grind
  case fresh => have := h.fresh; grind
  case queue_epoch => have := h.queue_epoch; grind
  case queue_epoch_attained => have := h.queue_epoch_attained; grind
  case behind => have := h.behind; have := h.grant_job; grind
  case fifo => have := h.fifo; grind
  all_goals first | exact h.holder | exact h.resource_epoch | exact h.resource_epoch_attained

/-- The open grants after a claim: the new one and the old ones. -/
theorem open_claim {s : State W Q R A} {r : R} {a b : A} {j : Job W Q A} {k : Queue W R}
    {w : Resource A} {g : Grant W Q R} :
    Open (s.claim r a j k w).grant b g ↔
      if b = a then g = Grant.issue r j k w else Open s.grant b g := by
  by_cases hb : b = a
  · subst hb
    simp only [Open, State.claim, Function.update_self, if_true, Option.some.injEq]
    constructor
    · rintro ⟨rfl, -⟩; rfl
    · rintro rfl; exact ⟨rfl, rfl⟩
  · simp [Open, State.claim, hb]

theorem Inv.claim {s : State W Q R A} (h : Inv s) {r : R} {a : A} {j : Job W Q A}
    {k : Queue W R} {w : Resource A} (known : s.job r = some j) (c : s.Claimable j k w)
    (fresh : s.grant a = none) : Inv (s.claim r a j k w) := by
  obtain ⟨hnone, hnever⟩ := h.grant_of_claimable known c
  have hopen := fun b g => h.no_open_of_claimable c (a := b) (g := g)
  have hres : j.resource = k.resource := by
    obtain ⟨k', hk', hr, -⟩ := h.job_queue r j known
    rw [c.queue] at hk'
    cases hk'
    exact hr
  have hq := c.queue
  have hw := c.resource
  have hfresh : ∀ g, ¬ Open s.grant a g := fun g hg => by rw [hg.1] at fresh; cases fresh
  have hjob : ∀ b g, Open s.grant b g → g.job ≠ r := fun b g hg => hnever b g hg.1
  constructor
  case holder =>
    intro i v b hv
    simp only [open_claim]
    simp only [State.claim, Function.update_apply] at hv
    by_cases hb : b = a
    · subst hb
      by_cases hi : i = k.resource
      · grind [Grant.issue]
      · have := h.holder i v b (by simpa [hi] using hv)
        grind [Grant.issue]
    · by_cases hi : i = k.resource
      · grind
      · have := h.holder i v b (by simpa [hi] using hv)
        grind
  case active =>
    intro i k' r' hk'
    simp only [open_claim]
    simp only [State.claim, Function.update_apply] at hk'
    by_cases hi : i = j.queue
    · subst hi
      simp only [if_true, Option.some.injEq] at hk'
      subst hk'
      constructor
      · intro e
        cases e
        exact ⟨a, Grant.issue r j k w, by simp, rfl, rfl⟩
      · rintro ⟨b, g, hg, hgq, rfl⟩
        grind [Grant.issue]
    · have := h.active i k' r' (by simpa [hi] using hk')
      grind [Grant.issue]
  case granted =>
    intro r' j' b hj'
    simp only [open_claim]
    simp only [State.claim, Function.update_apply] at hj'
    by_cases hr : r' = r
    · subst hr
      simp only [if_true, Option.some.injEq] at hj'
      subst hj'
      constructor
      · intro e
        cases e
        exact ⟨Grant.issue r' j k w, by simp, rfl⟩
      · grind [Grant.issue]
    · have := h.granted r' j' b (by simpa [hr] using hj')
      grind [Grant.issue]
  all_goals simp only [State.claim, Function.update_apply]
  case queue_resource => have := h.queue_resource; grind
  case job_queue => have := h.job_queue; grind
  case job_place => have := h.job_place; grind
  case grant_job => have := h.grant_job; grind [Grant.issue]
  case held => have := h.held; grind
  case closed => have := h.closed; grind
  case fresh => have := h.fresh; grind [Grant.issue]
  case resource_epoch => have := h.resource_epoch; grind [Grant.issue]
  case queue_epoch => have := h.queue_epoch; grind [Grant.issue]
  case resource_epoch_attained =>
    intro i v hv hne
    by_cases hi : i = k.resource
    · subst hi
      simp only [if_true, Option.some.injEq] at hv
      subst hv
      exact ⟨a, Grant.issue r j k w, if_pos rfl, rfl, rfl⟩
    · obtain ⟨b, g, hg, rest⟩ := h.resource_epoch_attained i v (by simpa [hi] using hv) hne
      exact ⟨b, g, by rw [if_neg (by rintro rfl; simp [fresh] at hg), hg], rest⟩
  case queue_epoch_attained =>
    intro i k' hk' hne
    by_cases hi : i = j.queue
    · subst hi
      simp only [if_true, Option.some.injEq] at hk'
      subst hk'
      exact ⟨a, Grant.issue r j k w, if_pos rfl, rfl, rfl⟩
    · obtain ⟨b, g, hg, rest⟩ := h.queue_epoch_attained i k' (by simpa [hi] using hk') hne
      exact ⟨b, g, by rw [if_neg (by rintro rfl; simp [fresh] at hg), hg], rest⟩
  case behind =>
    have := h.behind; have := c.first; have := h.job_place
    grind [State.First, Grant.issue]
  case fifo =>
    have := h.fifo; have := h.behind r j known c.queued hnone; have := h.queue_epoch
    grind [Grant.issue]

theorem Inv.move {s : State W Q R A} (h : Inv s) {r : R} {j : Job W Q A} {p : Phase}
    (known : s.job r = some j) (live : j.phase ≠ .closed) (open_ : p ≠ .closed)
    (held : p = .held → j.phase = .held) (queued : p = .queued → j.phase = .held) :
    Inv { s with job := Function.update s.job r (some { j with phase := p }) } := by
  constructor <;> simp only [Function.update_apply]
  case job_queue => have := h.job_queue; grind
  case job_place => have := h.job_place; grind
  case grant_job => have := h.grant_job; grind
  case granted => have := h.granted; grind
  case held => have := h.held; grind
  case closed => have := h.closed; grind
  case fresh => have := h.fresh; grind
  case behind => have := h.behind; have := h.held; grind
  case fifo => have := h.fifo; grind
  all_goals first | exact h.queue_resource | exact h.holder | exact h.active
                  | exact h.resource_epoch | exact h.resource_epoch_attained
                  | exact h.queue_epoch | exact h.queue_epoch_attained

/-- The open grants after a job was closed: all but the one of the job. -/
theorem open_close {s : State W Q R A} {r : R} {j : Job W Q A} {a : A} {g : Grant W Q R} :
    Open (s.close r j).grant a g ↔ Open s.grant a g ∧ j.grant ≠ some a := by
  simp only [Open, State.close, Option.map_eq_some_iff]
  constructor
  · rintro ⟨⟨g', hg, rfl⟩, ho⟩
    split at ho
    · cases ho
    next hne => rw [if_neg hne]; exact ⟨⟨hg, ho⟩, hne⟩
  · rintro ⟨⟨hg, ho⟩, hne⟩
    exact ⟨⟨g, hg, if_neg hne⟩, ho⟩

/-- A closed grant is for what it was for. -/
theorem grant_close {grant : A → Option (Grant W Q R)} {o : Option A} {a : A}
    {g : Grant W Q R} :
    (grant a).map (fun g => if o = some a then { g with isOpen := false } else g) = some g →
      ∃ b, grant a = some { g with isOpen := b } := by
  intro e
  obtain ⟨g', hg, rfl⟩ := Option.map_eq_some_iff.1 e
  refine ⟨g'.isOpen, ?_⟩
  rw [hg]
  split <;> rfl

theorem Inv.close {s : State W Q R A} (h : Inv s) {r : R} {j : Job W Q A}
    (known : s.job r = some j) : Inv (s.close r j) := by
  constructor
  case holder =>
    simp only [open_close]
    simp only [State.close]
    intro i w' a hw'
    obtain ⟨w, hw, rfl⟩ := Option.map_eq_some_iff.1 hw'
    have := h.holder; have := h.granted r j; have := h.grant_job
    grind [Open]
  case active =>
    simp only [open_close]
    simp only [State.close]
    intro i k' r' hk'
    obtain ⟨k, hk, rfl⟩ := Option.map_eq_some_iff.1 hk'
    have := h.active; have := h.granted r j; have := h.grant_job
    grind [Open]
  case granted =>
    intro r' j' a hj'
    simp only [open_close]
    simp only [State.close, Function.update_apply] at hj'
    have := h.granted
    grind [Open]
  all_goals simp only [State.close, Function.update_apply]
  case job_place => have := h.job_place; grind
  case held => have := h.held; grind
  case closed => have := h.closed; grind
  case queue_resource =>
    intro q k' hk'
    obtain ⟨k, hk, rfl⟩ := Option.map_eq_some_iff.1 hk'
    obtain ⟨w, hw⟩ := h.queue_resource q k hk
    split <;> simp [hw]
  case job_queue =>
    have := h.job_queue
    intro r' j' hj'
    grind
  case grant_job =>
    intro a g hg
    obtain ⟨b, hg⟩ := grant_close hg
    have := h.grant_job a _ hg
    grind
  case fresh =>
    intro r' j' hj' hp hn a g hg
    obtain ⟨b, hg⟩ := grant_close hg
    have := h.fresh r' j'
    grind
  case resource_epoch =>
    intro a g w' hg hw'
    obtain ⟨b, hg⟩ := grant_close hg
    obtain ⟨w, hw, rfl⟩ := Option.map_eq_some_iff.1 hw'
    have := h.resource_epoch a _ w hg hw
    split <;> exact this
  case queue_epoch =>
    intro a g k' hg hk'
    obtain ⟨b, hg⟩ := grant_close hg
    obtain ⟨k, hk, rfl⟩ := Option.map_eq_some_iff.1 hk'
    have := h.queue_epoch a _ k hg hk
    split <;> exact this
  case resource_epoch_attained =>
    intro i w' hw' hne
    obtain ⟨w, hw, rfl⟩ := Option.map_eq_some_iff.1 hw'
    obtain ⟨a, g, hg, hr, he⟩ := h.resource_epoch_attained i w hw (by split at hne <;> exact hne)
    refine ⟨a, _, Option.map_eq_some_iff.2 ⟨g, hg, rfl⟩, ?_, ?_⟩
    · split <;> exact hr
    · split <;> split <;> exact he
  case queue_epoch_attained =>
    intro i k' hk' hne
    obtain ⟨k, hk, rfl⟩ := Option.map_eq_some_iff.1 hk'
    obtain ⟨a, g, hg, hr, he⟩ := h.queue_epoch_attained i k hk (by split at hne <;> exact hne)
    refine ⟨a, _, Option.map_eq_some_iff.2 ⟨g, hg, rfl⟩, ?_, ?_⟩
    · split <;> exact hr
    · split <;> split <;> exact he
  case behind =>
    intro r' j' hj' hp hn a g i hg hq hi
    obtain ⟨b, hg⟩ := grant_close hg
    have := h.behind r' j'
    grind
  case fifo =>
    intro a b g g' i i' hg hg' hq hi hi' he
    obtain ⟨o, hg⟩ := grant_close hg
    obtain ⟨o', hg'⟩ := grant_close hg'
    have := fun i i' => h.fifo a b _ _ i i' hg hg' hq
    grind

theorem Inv.step {resumes : Prop} {s t : State W Q R A} (h : Inv s)
    (st : Step resumes False s t) : Inv t := by
  cases st with
  | addResource fresh => exact h.addResource fresh
  | addQueue fresh known => exact h.addQueue fresh known
  | addJob fresh known => exact h.addJob fresh known
  | claim known claimable fresh => exact h.claim known claimable fresh
  | move known live open_ held queued =>
      exact h.move known live open_ (fun e => (held e).resolve_left id) fun e => (queued e).2
  | close known live => exact h.close known

/-! ## What steps leave alone -/

/-- Two jobs that differ in phase and grant only. -/
def Job.Same (i j : Job W Q A) : Prop :=
  i.queue = j.queue ∧ i.resource = j.resource ∧ i.place = j.place

theorem Job.Same.update {job : R → Option (Job W Q A)} {r r' : R} {i i' j : Job W Q A}
    (known : job r' = some i) (same : i'.Same i) (hj : job r = some j) :
    ∃ j', Function.update job r' (some i') r = some j' ∧ j'.Same j := by
  rw [Function.update_apply]
  split
  next e =>
    rw [e, known] at hj
    cases hj
    exact ⟨i', rfl, same⟩
  next => exact ⟨j, hj, rfl, rfl, rfl⟩

/-- A job keeps its queue, its resource and its place. -/
theorem Step.job_stays {resumes starts : Prop} {s t : State W Q R A}
    (st : Step resumes starts s t) {r : R} {j : Job W Q A} (hj : s.job r = some j) : ∃ j', t.job r = some j' ∧ j'.Same j := by
  cases st with
  | addResource fresh => exact ⟨j, hj, rfl, rfl, rfl⟩
  | addQueue fresh known => exact ⟨j, hj, rfl, rfl, rfl⟩
  | addJob fresh known =>
      refine ⟨j, (Function.update_of_ne ?_ _ _).trans hj, rfl, rfl, rfl⟩
      rintro rfl
      rw [fresh] at hj
      cases hj
  | claim known claimable fresh => exact Job.Same.update known ⟨rfl, rfl, rfl⟩ hj
  | move known live open_ held queued => exact Job.Same.update known ⟨rfl, rfl, rfl⟩ hj
  | close known live => exact Job.Same.update known ⟨rfl, rfl, rfl⟩ hj

/-- A grant stays a grant for its job. -/
theorem Step.grant_stays {resumes starts : Prop} {s t : State W Q R A}
    (st : Step resumes starts s t) {a : A} {g : Grant W Q R} (hg : s.grant a = some g) :
    ∃ g', t.grant a = some g' ∧ g'.job = g.job := by
  cases st with
  | addResource fresh => exact ⟨g, hg, rfl⟩
  | addQueue fresh known => exact ⟨g, hg, rfl⟩
  | addJob fresh known => exact ⟨g, hg, rfl⟩
  | claim known claimable fresh =>
      refine ⟨g, (Function.update_of_ne ?_ _ _).trans hg, rfl⟩
      rintro rfl
      rw [fresh] at hg
      cases hg
  | move known live open_ held queued => exact ⟨g, hg, rfl⟩
  | close known live =>
      simp only [State.close, hg, Option.map_some]
      exact ⟨_, rfl, by split <;> rfl⟩

end Step

/-! ## What the invariant says -/

/-- At most one open grant names a resource. -/
theorem Inv.open_unique_resource {s : State W Q R A} (h : Inv s) {a b : A}
    {g g' : Grant W Q R} (hg : Open s.grant a g) (hg' : Open s.grant b g')
    (e : g.resource = g'.resource) : a = b := by
  obtain ⟨j, hj, hq, hr⟩ := h.grant_job a g hg.1
  obtain ⟨k, hk, hkr, -⟩ := h.job_queue _ j hj
  obtain ⟨w, hw⟩ := h.queue_resource _ k hk
  rw [← hkr, hr] at hw
  have ha := (h.holder _ w a hw).2 ⟨g, hg, rfl⟩
  have hb := (h.holder _ w b hw).2 ⟨g', hg', e.symm⟩
  rw [ha] at hb
  exact Option.some.inj hb

/-- At most one open grant names a queue. -/
theorem Inv.open_unique_queue {s : State W Q R A} (h : Inv s) {a b : A}
    {g g' : Grant W Q R} (hg : Open s.grant a g) (hg' : Open s.grant b g')
    (e : g.queue = g'.queue) : a = b := by
  obtain ⟨j, hj, hq, hr⟩ := h.grant_job a g hg.1
  obtain ⟨j', hj', hq', hr'⟩ := h.grant_job b g' hg'.1
  obtain ⟨k, hk, hkr, -⟩ := h.job_queue _ j hj
  obtain ⟨k', hk', hkr', -⟩ := h.job_queue _ j' hj'
  rw [hq, e, ← hq', hk'] at hk
  cases hk
  exact h.open_unique_resource hg hg' (by rw [← hr, hkr, ← hr', hkr'])

/-- When a job is claimed, every job before it in its queue is closed, or on its
way out without ever having had a grant. -/
theorem Inv.before_claimable {s : State W Q R A} (h : Inv s) {j : Job W Q A}
    {k : Queue W R} {w : Resource A} (c : s.Claimable j k w) {r : R} {i : Job W Q A}
    (hi : s.job r = some i) (hq : i.queue = j.queue) (hp : i.place < j.place) :
    i.phase = .closed ∨ i.phase = .ending ∧ ∀ a g, s.grant a = some g → g.job ≠ r := by
  have hnone : i.grant = none := by
    cases hg : i.grant with
    | none => rfl
    | some a =>
        obtain ⟨g, hopen, hjob⟩ := (h.granted r i a hi).1 hg
        obtain ⟨i', hi', hq', -⟩ := h.grant_job a g hopen.1
        rw [hjob, hi] at hi'
        cases hi'
        exact absurd (hq'.symm.trans hq) (h.no_open_of_claimable c hopen).1
  cases hph : i.phase with
  | queued => exact absurd (c.first r i hi hq hph) (by omega)
  | held => exact absurd hnone (h.held r i hi hph)
  | ending => exact .inr ⟨rfl, h.fresh r i hi (by rw [hph]; decide) hnone⟩
  | closed => exact .inl rfl

/-- Among the waiting jobs of a queue there is a first one. -/
theorem exists_first {s : State W Q R A} {r : R} {j : Job W Q A} (hj : s.job r = some j)
    (hp : j.phase = .queued) :
    ∃ r' i, s.job r' = some i ∧ i.queue = j.queue ∧ i.phase = .queued ∧ s.First i := by
  classical
  have hex : ∃ n, ∃ r' i, s.job r' = some i ∧ i.queue = j.queue ∧ i.phase = .queued ∧
      i.place = n := ⟨j.place, r, j, hj, rfl, hp, rfl⟩
  obtain ⟨r', i, hi, hq, hph, hn⟩ := Nat.find_spec hex
  refine ⟨r', i, hi, hq, hph, ?_⟩
  intro r'' i' hi' hq' hph'
  rw [hn]
  exact Nat.find_min' hex ⟨r'', i', hi', hq'.trans hq, hph', rfl⟩

/-- A resource on which jobs wait and none is held or on its way out has a job
that can be claimed exactly when no waiting job has a grant. -/
theorem Inv.exists_claimable_iff {s : State W Q R A} (h : Inv s) {w : W}
    (waits : ∃ r j, s.job r = some j ∧ j.resource = w ∧ j.phase = .queued)
    (calm : ∀ r j, s.job r = some j → j.resource = w → j.phase = .queued ∨ j.phase = .closed) :
    (∃ r j k v, s.job r = some j ∧ j.resource = w ∧ s.Claimable j k v) ↔
      ∀ r j, s.job r = some j → j.resource = w → j.phase = .queued → j.grant = none := by
  constructor
  · rintro ⟨r, j, k, v, hj, hr, c⟩ r' j' hj' hr' hp'
    cases hg : j'.grant with
    | none => rfl
    | some a =>
        obtain ⟨g, hopen, hjob⟩ := (h.granted r' j' a hj').1 hg
        obtain ⟨i, hi, -, hir⟩ := h.grant_job a g hopen.1
        rw [hjob, hj'] at hi
        cases hi
        obtain ⟨k', hk', hkr, -⟩ := h.job_queue r j hj
        rw [c.queue] at hk'
        cases hk'
        have hgk : g.resource = k.resource := by rw [← hir, hr', ← hr, hkr]
        exact absurd hgk (h.no_open_of_claimable c hopen).2
  · intro hnone
    have noOpen : ∀ a g, Open s.grant a g → g.resource ≠ w := by
      intro a g hg hgw
      obtain ⟨i, hi, -, hir⟩ := h.grant_job a g hg.1
      have hgi := (h.granted g.job i a hi).2 ⟨g, hg, rfl⟩
      rcases calm _ i hi (hir.trans hgw) with hp | hp
      · rw [hnone _ i hi (hir.trans hgw) hp] at hgi
        cases hgi
      · rw [h.closed _ i hi hp] at hgi
        cases hgi
    obtain ⟨r₀, j₀, hj₀, hr₀, hp₀⟩ := waits
    obtain ⟨r, j, hj, hq, hp, first⟩ := exists_first hj₀ hp₀
    obtain ⟨k, hk, hkr, -⟩ := h.job_queue r j hj
    obtain ⟨k₀, hk₀, hkr₀, -⟩ := h.job_queue r₀ j₀ hj₀
    rw [← hq, hk] at hk₀
    cases hk₀
    have hkw : k.resource = w := by rw [← hkr₀, hr₀]
    obtain ⟨v, hv⟩ := h.queue_resource _ k hk
    refine ⟨r, j, k, v, hj, hkr.trans hkw, hp, hk, hv, ?_, ?_, first⟩
    · cases ha : k.active with
      | none => rfl
      | some r' =>
          obtain ⟨a, g, hg, hgq, -⟩ := (h.active _ k r' hk).1 ha
          obtain ⟨i, hi, hiq, hir⟩ := h.grant_job a g hg.1
          obtain ⟨k', hk', hkr', -⟩ := h.job_queue _ i hi
          rw [hiq, hgq, hk] at hk'
          cases hk'
          exact absurd (by rw [← hir, hkr', hkw]) (noOpen a g hg)
    · cases ha : v.holder with
      | none => rfl
      | some a =>
          obtain ⟨g, hg, hgr⟩ := (h.holder _ v a hv).1 ha
          exact absurd (hgr.trans hkw) (noOpen a g hg)

/-- No waiting job has a grant. -/
def State.Unclaimed (s : State W Q R A) : Prop :=
  ∀ r j, s.job r = some j → j.phase = .queued → j.grant = none

/-- Where no job is put back, waiting jobs never have grants. -/
theorem State.Unclaimed.step [DecidableEq W] [DecidableEq Q] [DecidableEq R] [DecidableEq A]
    {s t : State W Q R A} (h : s.Unclaimed) (st : Step False False s t) : t.Unclaimed := by
  intro r' j' hj' hp'
  cases st with
  | addResource fresh => exact h r' j' hj' hp'
  | addQueue fresh known => exact h r' j' hj' hp'
  | addJob fresh known =>
      simp only [Function.update_apply] at hj'
      have := h r' j'
      grind
  | claim known claimable fresh =>
      simp only [State.claim, Function.update_apply] at hj'
      have := h r' j'
      grind
  | move known live open_ held queued =>
      simp only [Function.update_apply] at hj'
      have := h r' j'
      grind
  | close known live =>
      simp only [State.close, Function.update_apply] at hj'
      have := h r' j'
      grind

/-! ## Exclusion alone -/

/-- The resource of an open grant is held by it. -/
def State.Exclusive (s : State W Q R A) : Prop :=
  ∀ a g, s.grant a = some g →
    ∃ w, s.resource g.resource = some w ∧ (g.isOpen = true → w.holder = some a)

theorem State.Exclusive.initial : (State.initial : State W Q R A).Exclusive := by
  rintro a g ⟨⟩

/-- Exclusion needs none of the rules on phases. -/
theorem State.Exclusive.step [DecidableEq W] [DecidableEq Q] [DecidableEq R] [DecidableEq A]
    {resumes starts : Prop} {s t : State W Q R A} (h : s.Exclusive)
    (st : Step resumes starts s t) : t.Exclusive := by
  intro b g hg
  cases st with
  | addResource fresh =>
      obtain ⟨w, hw, holder⟩ := h b g hg
      refine ⟨w, (Function.update_of_ne ?_ _ _).trans hw, holder⟩
      rintro e
      rw [e, fresh] at hw
      cases hw
  | addQueue fresh known => exact h b g hg
  | addJob fresh known => exact h b g hg
  | @claim r a j k w known claimable fresh =>
      simp only [State.claim, Function.update_apply] at hg ⊢
      split at hg
      next e =>
        cases hg
        exact ⟨_, if_pos rfl, fun _ => by rw [e]⟩
      next e =>
        obtain ⟨v, hv, holder⟩ := h b g hg
        split
        next hr =>
          -- the resource was free, so its old grants are closed
          rw [hr, claimable.resource] at hv
          cases hv
          refine ⟨_, rfl, fun ho => ?_⟩
          have := holder ho
          rw [claimable.free] at this
          cases this
        next hr => exact ⟨v, hv, holder⟩
  | move known live open_ held queued => exact h b g hg
  | @close r j known live =>
      simp only [State.close, Option.map_eq_some_iff] at hg ⊢
      obtain ⟨g', hg', rfl⟩ := hg
      obtain ⟨w, hw, holder⟩ := h b g' hg'
      refine ⟨_, ⟨w, by split <;> exact hw, rfl⟩, fun ho => ?_⟩
      split at ho
      · cases ho
      next hne =>
        rw [if_neg, holder ho]
        rintro ⟨-, -, hj⟩
        exact hne (hj.symm.trans (holder ho))

theorem State.Exclusive.unique {s : State W Q R A} (h : s.Exclusive) {a b : A}
    {g g' : Grant W Q R} (hg : Open s.grant a g) (hg' : Open s.grant b g')
    (e : g.resource = g'.resource) : a = b := by
  obtain ⟨w, hw, ha⟩ := h a g hg.1
  obtain ⟨w', hw', hb⟩ := h b g' hg'.1
  rw [← e, hw] at hw'
  cases hw'
  exact Option.some.inj ((ha hg.2).symm.trans (hb hg'.2))

/-! ## Epochs alone -/

/-- No grant is stamped with an epoch its queue or its resource has yet to reach. -/
def State.Counted (s : State W Q R A) : Prop :=
  ∀ a g, s.grant a = some g →
    (∃ w, s.resource g.resource = some w ∧ g.resourceEpoch ≤ w.epoch) ∧
      ∃ k, s.queue g.queue = some k ∧ g.queueEpoch ≤ k.epoch

theorem State.Counted.initial : (State.initial : State W Q R A).Counted := by
  rintro a g ⟨⟩

/-- Epochs only ever grow, whatever the phases. -/
theorem State.Counted.step [DecidableEq W] [DecidableEq Q] [DecidableEq R] [DecidableEq A]
    {resumes starts : Prop} {s t : State W Q R A} (h : s.Counted)
    (st : Step resumes starts s t) : t.Counted := by
  intro b g hg
  cases st with
  | addResource fresh =>
      obtain ⟨⟨w, hw, le⟩, hqueue⟩ := h b g hg
      refine ⟨⟨w, (Function.update_of_ne ?_ _ _).trans hw, le⟩, hqueue⟩
      intro e
      rw [e, fresh] at hw
      cases hw
  | addQueue fresh known =>
      obtain ⟨hresource, k, hk, le⟩ := h b g hg
      refine ⟨hresource, k, (Function.update_of_ne ?_ _ _).trans hk, le⟩
      intro e
      rw [e, fresh] at hk
      cases hk
  | @addJob r i k fresh known =>
      obtain ⟨hresource, k', hk, le⟩ := h b g hg
      by_cases e : g.queue = i
      · rw [e, known] at hk
        cases hk
        refine ⟨hresource, { k with nextPlace := k.nextPlace + 1 }, ?_, le⟩
        dsimp only
        rw [e, Function.update_self]
      · exact ⟨hresource, k', (Function.update_of_ne e _ _).trans hk, le⟩
  | @claim r a j k w known claimable fresh =>
      simp only [State.claim, Function.update_apply] at hg ⊢
      split at hg
      next e =>
        cases hg
        exact ⟨⟨_, if_pos rfl, Nat.le_refl _⟩, _, if_pos rfl, Nat.le_refl _⟩
      next e =>
        obtain ⟨⟨v, hv, le⟩, l, hl, le'⟩ := h b g hg
        constructor
        · split
          next hr =>
            rw [hr, claimable.resource] at hv
            cases hv
            exact ⟨_, rfl, Nat.le_succ_of_le le⟩
          next hr => exact ⟨v, hv, le⟩
        · split
          next hq =>
            rw [hq, claimable.queue] at hl
            cases hl
            exact ⟨_, rfl, Nat.le_succ_of_le le'⟩
          next hq => exact ⟨l, hl, le'⟩
  | move known live open_ held queued => exact h b g hg
  | @close r j known live =>
      simp only [State.close, Option.map_eq_some_iff] at hg ⊢
      obtain ⟨g', hg', rfl⟩ := hg
      obtain ⟨⟨w, hw, le⟩, k, hk, le'⟩ := h b g' hg'
      refine ⟨⟨_, ⟨w, ?_, rfl⟩, ?_⟩, _, ⟨k, ?_, rfl⟩, ?_⟩
      · split <;> exact hw
      · split <;> split <;> exact le
      · split <;> exact hk
      · split <;> split <;> exact le'

/-- The resource of a grant has reached its epoch. -/
def State.Dominated (s : State W Q R A) : Prop :=
  ∀ a g, s.grant a = some g → ∃ w, s.resource g.resource = some w ∧ g.resourceEpoch ≤ w.epoch

/-- Resources count on, whatever the phases and the queues. -/
theorem State.Dominated.step [DecidableEq W] [DecidableEq Q] [DecidableEq R] [DecidableEq A]
    {resumes starts : Prop} {s t : State W Q R A} (h : s.Dominated)
    (st : Step resumes starts s t) : t.Dominated := by
  intro b g hg
  cases st with
  | addResource fresh =>
      obtain ⟨w, hw, le⟩ := h b g hg
      refine ⟨w, (Function.update_of_ne ?_ _ _).trans hw, le⟩
      intro e
      rw [e, fresh] at hw
      cases hw
  | addQueue | addJob | move => exact h b g hg
  | @claim r a j k w known claimable fresh =>
      simp only [State.claim, Function.update_apply] at hg ⊢
      split at hg
      next e =>
        cases hg
        exact ⟨_, if_pos rfl, Nat.le_refl _⟩
      next e =>
        obtain ⟨v, hv, le⟩ := h b g hg
        split
        next hr =>
          rw [hr, claimable.resource] at hv
          cases hv
          exact ⟨_, rfl, Nat.le_succ_of_le le⟩
        next hr => exact ⟨v, hv, le⟩
  | @close r j known live =>
      simp only [State.close, Option.map_eq_some_iff] at hg ⊢
      obtain ⟨g', hg', rfl⟩ := hg
      obtain ⟨w, hw, le⟩ := h b g' hg'
      refine ⟨_, ⟨w, ?_, rfl⟩, ?_⟩
      · split <;> exact hw
      · split <;> split <;> exact le

/-- Queues have their resources, and jobs their queues. -/
structure State.Grounded (s : State W Q R A) : Prop where
  queue : ∀ i k, s.queue i = some k → ∃ w, s.resource k.resource = some w
  job : ∀ r j, s.job r = some j → ∃ k, s.queue j.queue = some k

theorem State.Grounded.initial : (State.initial : State W Q R A).Grounded where
  queue := by rintro i k ⟨⟩
  job := by rintro r j ⟨⟩

/-- Nothing is ever taken away. -/
theorem State.Grounded.step [DecidableEq W] [DecidableEq Q] [DecidableEq R] [DecidableEq A]
    {resumes starts : Prop} {s t : State W Q R A} (h : s.Grounded)
    (st : Step resumes starts s t) : t.Grounded := by
  have kept : ∀ {κ β : Type} [DecidableEq κ] {f : κ → Option β} {i : κ} {b : β} {k : κ},
      (∃ v, f k = some v) → ∃ v, Function.update f i (some b) k = some v := by
    intro κ β _ f i b k hk
    rw [Function.update_apply]
    split
    · exact ⟨_, rfl⟩
    · exact hk
  cases st with
  | addResource fresh => exact ⟨fun i k hk => kept (h.queue i k hk), h.job⟩
  | addQueue fresh known =>
      refine ⟨fun i k hk => ?_, fun r j hj => kept (h.job r j hj)⟩
      simp only [Function.update_apply] at hk
      split at hk
      · cases hk
        exact known
      · exact h.queue i k hk
  | addJob fresh known =>
      refine ⟨fun i k hk => ?_, fun r j hj => ?_⟩
      · simp only [Function.update_apply] at hk
        split at hk
        · cases hk
          have resource := h.queue _ _ known
          exact resource
        · exact h.queue i k hk
      · simp only [Function.update_apply] at hj
        split at hj
        · cases hj
          exact kept ⟨_, known⟩
        · exact kept (h.job r j hj)
  | claim known claimable fresh =>
      refine ⟨fun i k hk => kept ?_, fun r j hj => kept ?_⟩
      · simp only [State.claim, Function.update_apply] at hk
        split at hk
        · cases hk
          exact ⟨_, claimable.resource⟩
        · exact h.queue i k hk
      · simp only [State.claim, Function.update_apply] at hj
        split at hj
        · cases hj
          exact ⟨_, claimable.queue⟩
        · exact h.job r j hj
  | move known live open_ held queued =>
      refine ⟨h.queue, fun r j hj => ?_⟩
      simp only [Function.update_apply] at hj
      split at hj
      · cases hj
        have queue := h.job _ _ known
        exact queue
      · exact h.job r j hj
  | @close r j known live =>
      have queue : ∀ i, (∃ k, s.queue i = some k) → ∃ k, (s.close r j).queue i = some k := by
        rintro i ⟨k, hk⟩
        simp [State.close, hk]
      refine ⟨fun i k hk => ?_, fun r j hj => queue _ ?_⟩
      · simp only [State.close, Option.map_eq_some_iff] at hk ⊢
        obtain ⟨k', hk', rfl⟩ := hk
        obtain ⟨w, hw⟩ := h.queue i k' hk'
        refine ⟨_, w, ?_, rfl⟩
        split <;> exact hw
      · simp only [State.close, Function.update_apply] at hj
        split at hj
        · cases hj
          have place := h.job _ _ known
          exact place
        · exact h.job _ _ hj

/-! ## What grants are stamped with -/

/-- A resource that is held has granted its epoch to its holder. -/
def State.Stamped (s : State W Q R A) : Prop :=
  ∀ i w a, s.resource i = some w → w.holder = some a →
    ∃ g, s.grant a = some g ∧ g.resource = i ∧ g.resourceEpoch = w.epoch

theorem State.Stamped.initial : (State.initial : State W Q R A).Stamped := by
  rintro i w a ⟨⟩

/-- A grant keeps its resource and its epoch. -/
theorem Step.grant [DecidableEq W] [DecidableEq Q] [DecidableEq R] [DecidableEq A]
    {resumes starts : Prop} {s t : State W Q R A} (st : Step resumes starts s t) {a : A}
    {g : Grant W Q R} (known : s.grant a = some g) :
    ∃ g', t.grant a = some g' ∧ g'.resource = g.resource ∧ g'.resourceEpoch = g.resourceEpoch := by
  cases st with
  | addResource | addQueue | addJob | move => exact ⟨g, known, rfl, rfl⟩
  | claim job claimable fresh =>
      refine ⟨g, (Function.update_of_ne ?_ _ _).trans known, rfl, rfl⟩
      rintro rfl
      rw [fresh] at known
      cases known
  | close job live =>
      refine ⟨_, congrArg (Option.map _) known, ?_⟩
      split <;> exact ⟨rfl, rfl⟩

/-- Holders come with their grants, whatever the phases. -/
theorem State.Stamped.step [DecidableEq W] [DecidableEq Q] [DecidableEq R] [DecidableEq A]
    {resumes starts : Prop} {s t : State W Q R A} (h : s.Stamped)
    (st : Step resumes starts s t) : t.Stamped := by
  intro i w a hw holder
  have old : ∀ {w' : Resource A}, s.resource i = some w' → w'.holder = some a →
      w'.epoch = w.epoch →
      ∃ g, t.grant a = some g ∧ g.resource = i ∧ g.resourceEpoch = w.epoch := by
    intro w' hw' holder' epoch
    obtain ⟨g, hg, resource, stamp⟩ := h i w' a hw' holder'
    obtain ⟨g', hg', resource', stamp'⟩ := st.grant hg
    exact ⟨g', hg', resource'.trans resource, stamp'.trans (stamp.trans epoch)⟩
  cases st with
  | addResource fresh =>
      simp only [Function.update_apply] at hw
      split at hw
      · cases hw
        cases holder
      · exact old hw holder rfl
  | addQueue | addJob | move => exact old hw holder rfl
  | @claim r b j k v known claimable fresh =>
      simp only [State.claim, Function.update_apply] at hw
      split at hw
      next mine =>
        cases hw
        cases holder
        refine ⟨_, Function.update_self .., mine.symm, rfl⟩
      next other => exact old hw holder rfl
  | close known live =>
      simp only [State.close, Option.map_eq_some_iff] at hw
      obtain ⟨w', hw', rfl⟩ := hw
      split at holder
      · cases holder
      next held =>
        refine old hw' holder ?_
        rw [if_neg held]

end Lib.Lease
