import Mathlib.Algebra.BigOperators.Group.List.Basic
import Mathlib.Algebra.Order.BigOperators.Group.List
import Mathlib.Algebra.Ring.Int.Defs
import Mathlib.Algebra.Ring.Nat
import CodeForge.Lib.JsonRoundTrip
import CodeForge.Lib.Sha256
import CodeForge.Impala.Adapter

/-!
# Budgets

Every budget is what the reservations take up in it: all they asked for, until
it was given back what they did not use (`Sound.stored`).  A reservation that
got as far as one of its budgets takes it up, even if it never came to an end.

A query uses no more than it asked for, so giving back never takes away what
others have, and nothing is given back twice, because a reservation ends once.
With that a budget is never negative, stays within its limits, and never counts
less than was returned.
-/

namespace CodeForge.Impala

open Lib

/-! ## The files of budgets -/

theorem Bucket.key_injective : Function.Injective Bucket.key := by
  intro b b' h
  cases b with
  | message scopeId runId =>
      cases b' with
      | message => simpa [key] using h
      | userHour | departmentHour => simp [key] at h
  | userHour scopeId hour =>
      cases b' with
      | userHour scopeId' hour' =>
          simp only [key, Json.arr.injEq, List.cons.injEq, Json.str.injEq, true_and, and_true] at h
          rw [h.1, Json.nat_injective h.2]
      | message | departmentHour => simp [key] at h
  | departmentHour department hour =>
      cases b' with
      | departmentHour department' hour' =>
          simp only [key, Json.arr.injEq, List.cons.injEq, Json.str.injEq, true_and, and_true] at h
          rw [h.1, Json.nat_injective h.2]
      | message | userHour => simp [key] at h

/-- The text of a key is read as the key. -/
theorem Bucket.loadBytes_key (b : Bucket) :
    loadBytes .plain (encoded b.key) = .value b.key := by
  have valid : b.key.Valid .plain := by
    cases b with
    | message => simp [key, Json.Valid, Json.ValidItems]
    | userHour _ hour | departmentHour _ hour =>
        have written : (Json.nat hour).Valid .plain := Json.valid_nat hour
        simpa [key, Json.Valid, Json.ValidItems] using written
  have text : b.key.compact = b.key.canonical := by cases b <;> rfl
  have same : b.key.sorted = b.key := by cases b <;> rfl
  rw [encoded, text]
  exact (loadBytes_utf8 Json.Separators.compact valid).trans (by rw [same])

variable {sha256 : List UInt8 → String} {policy : QueryPolicy}

/-- Where digests do not collide, every budget has a file of its own. -/
theorem Bucket.path_injective (collisionFree : Function.Injective sha256) :
    Function.Injective (Bucket.path sha256) := by
  intro b b' h
  have bytes : encoded b.key = encoded b'.key := collisionFree h
  have read := b.loadBytes_key
  rw [bytes, b'.loadBytes_key] at read
  injection read with read
  exact key_injective read.symm

section Files

variable (collisionFree : Function.Injective sha256)

include collisionFree

theorem Adapter.budget_write (a : Adapter) (b b' : Bucket) (budget : Budget) :
    (a.write sha256 b budget).budget sha256 b' =
      if b' = b then budget else a.budget sha256 b' := by
  change (Function.update a.budgets (b.path sha256) (some budget) (b'.path sha256)).getD _ = _
  by_cases same : b' = b
  · rw [if_pos same, same, Function.update_self]
    rfl
  · have other : b'.path sha256 ≠ b.path sha256 := fun h =>
      same (Bucket.path_injective collisionFree h)
    rw [if_neg same, Function.update_of_ne other]
    rfl

/-- Budgets are written one after the other. -/
theorem Adapter.budget_writeAll (a : Adapter) (plan : List (Bucket × Budget)) (b : Bucket)
    (distinct : (plan.map Prod.fst).Nodup) :
    (∀ budget, (b, budget) ∈ plan → (a.writeAll sha256 plan).budget sha256 b = budget) ∧
      (b ∉ plan.map Prod.fst → (a.writeAll sha256 plan).budget sha256 b = a.budget sha256 b) := by
  induction plan generalizing a with
  | nil => exact ⟨fun budget h => absurd h List.not_mem_nil, fun _ => rfl⟩
  | cons p plan ih =>
      obtain ⟨fresh, rest⟩ := List.nodup_cons.1 distinct
      obtain ⟨written, kept⟩ := ih (a.write sha256 p.1 p.2) rest
      refine ⟨fun budget h => ?_, fun h => ?_⟩
      · rcases List.mem_cons.1 h with first | later
        · subst first
          refine (kept fresh).trans ?_
          rw [Adapter.budget_write collisionFree, if_pos rfl]
        · exact written budget later
      · have other : b ≠ p.1 := fun same => h (same ▸ List.mem_cons_self)
        refine (kept fun later => h (List.mem_cons_of_mem _ later)).trans ?_
        rw [Adapter.budget_write collisionFree, if_neg other]

end Files

/-! ## Reservations -/

/-- What a query asks for. -/
def Job.asked (job : Job) : Budget
  | .queries => 1
  | .rows => job.rows
  | .bytes => job.profile.policy.maxBytes

/-- What a query used. -/
def QueryResult.used (result : QueryResult) : Budget
  | .queries => 1
  | .rows => result.rowCount
  | .bytes => result.size

/-- A query uses no more than it asked for. -/
theorem QueryResult.Moderate.used_le {job : Job} {result : QueryResult} (h : result.Moderate job)
    (res : Resource) : result.used res ≤ job.asked res := by
  cases res with
  | queries => exact Int.le_refl 1
  | rows => exact Int.ofNat_le.2 h.rows
  | bytes => exact Int.ofNat_le.2 h.bytes

/-- What a query is to be counted for: what was returned, or all it asked for. -/
def Reservation.due (r : Reservation) : Budget :=
  r.result.elim r.job.asked QueryResult.used

/-- What a reservation takes up in a budget. -/
def Reservation.share (r : Reservation) (b : Bucket) (res : Resource) : Int :=
  if b ∈ r.charged then if b ∈ r.refunded then r.due res else r.job.asked res else 0

/-- What holds of every reservation. -/
structure Reservation.Proper (policy : QueryPolicy) (r : Reservation) : Prop where
  policy : r.job.profile.policy = policy
  rows : r.job.rows ≤ r.job.profile.policy.maxRows
  ref : r.job.ref.length ≤ 36
  distinct : r.charged.Nodup
  settled : ∀ result, r.result = some result → Concluded r.job result
  refunded : r.result = none → r.refunded = []

theorem Reservation.Proper.moderate {r : Reservation} (h : r.Proper policy) {result : QueryResult}
    (is : r.result = some result) : result.Moderate r.job := by
  obtain ⟨V, W, fuel, pending, t, foreign, concluded, rfl⟩ := h.settled result is
  exact conclude_moderate foreign h.ref h.rows concluded

/-- A budget with the query in it, within its limits. -/
structure Charged (policy : QueryPolicy) (asked : Budget) (before after : Budget) (b : Bucket) :
    Prop where
  sum : ∀ res, after res = before res + asked res
  limit : ∀ res, after res ≤ b.limit policy res

theorem Adapter.charge_eq_ok {a : Adapter} {job : Job} {b : Bucket} {p : Bucket × Budget}
    (same : job.profile.policy = policy)
    (h : a.charge sha256 job.profile.policy job.rows b = .ok p) :
    p.1 = b ∧ Charged policy job.asked (a.budget sha256 b) p.2 b := by
  subst same
  unfold Adapter.charge at h
  dsimp only at h
  split at h
  · cases h
  next within =>
    cases h
    rw [not_or, not_or] at within
    refine ⟨rfl, ⟨fun res => ?_, fun res => ?_⟩⟩
    · cases res with
      | queries | rows | bytes => rfl
    · cases res with
      | queries | rows | bytes =>
          dsimp only
          omega

/-- What the checks of `_reserve` make sure of. -/
structure Admitted (sha256 : List UInt8 → String) (policy : QueryPolicy) (a : Adapter)
    (caller : Caller) (job : Job) (hour : Nat) (plan : List (Bucket × Budget)) : Prop where
  ref : isQueryRef job.ref = true
  fresh : a.records job.ref = none
  users : a.active.countP (·.scopeId = caller.scopeId) < policy.maxUserConcurrency
  departments :
    a.active.countP (·.department = job.profile.department) < policy.maxDepartmentConcurrency
  budgets : plan.map Prod.fst = budgetsOf caller job.profile.department hour
  charged : ∀ p ∈ plan, Charged policy job.asked (a.budget sha256 p.1) p.2 p.1

theorem mapM_charge {a : Adapter} {job : Job} {bs : List Bucket} {plan : List (Bucket × Budget)}
    (same : job.profile.policy = policy)
    (h : bs.mapM (a.charge sha256 job.profile.policy job.rows) = .ok plan) :
    plan.map Prod.fst = bs ∧
      ∀ p ∈ plan, Charged policy job.asked (a.budget sha256 p.1) p.2 p.1 := by
  induction bs generalizing plan with
  | nil =>
      cases h
      exact ⟨rfl, fun p hp => absurd hp List.not_mem_nil⟩
  | cons b bs ih =>
      rw [List.mapM_cons] at h
      obtain ⟨p, first, h⟩ := except_bind_eq_ok.1 h
      obtain ⟨rest, others, h⟩ := except_bind_eq_ok.1 h
      cases h
      obtain ⟨rfl, charged⟩ := Adapter.charge_eq_ok same first
      obtain ⟨rfl, all⟩ := ih others
      refine ⟨rfl, fun p' hp => ?_⟩
      rcases List.mem_cons.1 hp with rfl | later
      · exact charged
      · exact all p' later

theorem Adapter.plan_eq_ok {a : Adapter} {caller : Caller} {job : Job} {hour : Nat}
    {plan : List (Bucket × Budget)} (same : job.profile.policy = policy)
    (h : a.plan sha256 caller job hour = .ok plan) :
    Admitted sha256 policy a caller job hour plan := by
  unfold Adapter.plan at h
  dsimp only at h
  split at h
  · cases h
  split at h
  · cases h
  next ref =>
  split at h
  · cases h
  next fresh =>
  split at h
  · cases h
  next free =>
    rw [not_or, Nat.not_le, Nat.not_le, same] at free
    obtain ⟨budgets, charged⟩ := mapM_charge same h
    exact ⟨by simpa using ref, by simpa using fresh, free.1, free.2, budgets, charged⟩

theorem Admitted.distinct {a : Adapter} {caller : Caller} {job : Job} {hour : Nat}
    {plan : List (Bucket × Budget)} (h : Admitted sha256 policy a caller job hour plan) :
    (plan.map Prod.fst).Nodup := by
  rw [h.budgets]
  simp [budgetsOf]

theorem isQueryRef_length {ref : String} (h : isQueryRef ref = true) : ref.length = 36 := by
  unfold isQueryRef at h
  have := (Bool.and_eq_true_iff.1 h).1
  rw [decide_eq_true_eq, String.length_toList] at this
  exact this

theorem requestedRows_le {tool : StatementTool} {maxRows : Option Int} {n : Nat}
    (h : requestedRows policy tool maxRows = .ok n) : n ≤ policy.maxRows := by
  cases tool with
  | query =>
      rw [requestedRows] at h
      split at h
      next bounds =>
        cases h
        omega
      · cases h
  | searchTables | describeTable | explain =>
      cases h
      exact Nat.le_refl _

/-! ## Sums -/

/-- All reservations. -/
def System.all (s : System) : List Reservation := s.running ++ s.past

/-- What the reservations take up in a budget. -/
def taken (l : List Reservation) (b : Bucket) (res : Resource) : Int :=
  (l.map fun r => r.share b res).sum

theorem taken_append (l l' : List Reservation) (b : Bucket) (res : Resource) :
    taken (l ++ l') b res = taken l b res + taken l' b res := by
  rw [taken, List.map_append, List.sum_append]
  rfl

theorem taken_cons (r : Reservation) (l : List Reservation) (b : Bucket) (res : Resource) :
    taken (r :: l) b res = r.share b res + taken l b res := by
  rw [taken, List.map_cons, List.sum_cons]
  rfl

@[simp] theorem taken_nil (b : Bucket) (res : Resource) : taken [] b res = 0 := rfl

/-- The budgets are what the reservations take up, and within the limits. -/
structure Sound (sha256 : List UInt8 → String) (policy : QueryPolicy) (s : System) : Prop where
  stored : ∀ b res, s.adapter.budget sha256 b res = taken s.all b res
  proper : ∀ r ∈ s.all, r.Proper policy
  open_ : ∀ r ∈ s.running, r.result = none ∧ r.complete = true
  limit : ∀ b res, s.adapter.budget sha256 b res ≤ b.limit policy res

/-- A reservation that is written to the first budgets of a plan. -/
theorem Sound.write (collisionFree : Function.Injective sha256) {s : System} {caller : Caller}
    {job : Job} {hour : Nat} {plan : List (Bucket × Budget)}
    (h : Sound sha256 policy s) (admitted : Admitted sha256 policy s.adapter caller job hour plan)
    (n : Nat) (complete : Bool) (b : Bucket) (res : Resource) :
    let r : Reservation := ⟨caller, job, (plan.take n).map Prod.fst, complete, none, []⟩
    (s.adapter.writeAll sha256 (plan.take n)).budget sha256 b res =
        taken s.all b res + r.share b res ∧
      (s.adapter.writeAll sha256 (plan.take n)).budget sha256 b res ≤ b.limit policy res := by
  have distinct : ((plan.take n).map Prod.fst).Nodup := by
    rw [List.map_take]
    exact admitted.distinct.sublist (List.take_sublist _ _)
  obtain ⟨written, kept⟩ := Adapter.budget_writeAll collisionFree s.adapter (plan.take n) b distinct
  dsimp only
  by_cases there : b ∈ (plan.take n).map Prod.fst
  · obtain ⟨p, hp, rfl⟩ := List.mem_map.1 there
    have charged := admitted.charged p (List.mem_of_mem_take hp)
    rw [written p.2 hp, Reservation.share, if_pos there, if_neg List.not_mem_nil, charged.sum,
      h.stored]
    refine ⟨rfl, ?_⟩
    rw [← h.stored, ← charged.sum]
    exact charged.limit res
  · rw [kept there, Reservation.share, if_neg there, Int.add_zero]
    exact ⟨h.stored b res, h.limit b res⟩

/-- Budgets are given back to one after the other. -/
theorem budget_refunds (collisionFree : Function.Injective sha256) {job : Job}
    {result : QueryResult} {bs : List Bucket} {a a' : Adapter} (distinct : bs.Nodup)
    (h : bs.foldlM (Adapter.refund sha256 job result) a = some a') (b : Bucket) (res : Resource) :
    a'.budget sha256 b res =
      a.budget sha256 b res - if b ∈ bs then job.asked res - result.used res else 0 := by
  induction bs generalizing a with
  | nil =>
      cases h
      simp
  | cons b' bs ih =>
      rw [List.foldlM_cons] at h
      obtain ⟨a₁, first, rest⟩ := Option.bind_eq_some_iff.1 h
      obtain ⟨fresh, distinct⟩ := List.nodup_cons.1 distinct
      obtain ⟨budget, stored, rfl⟩ := Option.map_eq_some_iff.1 first
      have known : a.budget sha256 b' = budget := by
        rw [Adapter.budget, stored]
        rfl
      rw [ih distinct rest, Adapter.budget_write collisionFree]
      by_cases same : b = b'
      · subst same
        rw [if_pos rfl, if_neg fresh, if_pos List.mem_cons_self, known]
        cases res with
        | queries => simp [Job.asked, QueryResult.used]
        | rows | bytes => simp [Job.asked, QueryResult.used]
      · rw [if_neg same]
        simp [same]

/-- A running reservation, told apart from the others. -/
theorem System.all_running {s : System} {before after : List Reservation} {r : Reservation}
    (running : s.running = before ++ r :: after) :
    s.all.Perm (r :: (before ++ after ++ s.past)) := by
  rw [System.all, running, List.append_assoc, List.append_assoc]
  exact List.perm_middle

theorem taken_perm {l l' : List Reservation} (h : l.Perm l') (b : Bucket) (res : Resource) :
    taken l b res = taken l' b res := (h.map _).sum_eq

/-! ## Steps -/

/-- Reservations and budgets stay as they are. -/
theorem Sound.same {s t : System} (h : Sound sha256 policy s)
    (budgets : t.adapter.budgets = s.adapter.budgets) (running : t.running = s.running)
    (past : t.past = s.past) : Sound sha256 policy t := by
  have budget : ∀ b, t.adapter.budget sha256 b = s.adapter.budget sha256 b := fun b => by
    rw [Adapter.budget, Adapter.budget, budgets]
  have all : t.all = s.all := by rw [System.all, System.all, running, past]
  refine ⟨fun b res => ?_, ?_, ?_, fun b res => ?_⟩
  · rw [budget, all]
    exact h.stored b res
  · rw [all]
    exact h.proper
  · rw [running]
    exact h.open_
  · rw [budget]
    exact h.limit b res

/-- A reservation ends without its result. -/
theorem Sound.drop {s : System} {before after : List Reservation} {r : Reservation} {a : Adapter}
    (h : Sound sha256 policy s) (running : s.running = before ++ r :: after)
    (budgets : a.budgets = s.adapter.budgets) :
    Sound sha256 policy ⟨a, before ++ after, s.past ++ [r]⟩ := by
  have perm : (System.all ⟨a, before ++ after, s.past ++ [r]⟩).Perm s.all := by
    refine .trans ?_ (System.all_running running).symm
    rw [System.all, ← List.append_assoc]
    exact List.perm_append_comm
  have budget : ∀ b, a.budget sha256 b = s.adapter.budget sha256 b := fun b => by
    rw [Adapter.budget, Adapter.budget, budgets]
  refine ⟨fun b res => ?_, fun r' hr => ?_, fun r' hr => ?_, fun b res => ?_⟩
  · rw [budget, h.stored, taken_perm perm]
  · exact h.proper r' (perm.mem_iff.1 hr)
  · refine h.open_ r' ?_
    rw [running]
    rcases List.mem_append.1 hr with old | new
    · exact List.mem_append_left _ old
    · exact List.mem_append_right _ (List.mem_cons_of_mem _ new)
  · rw [budget]
    exact h.limit b res

theorem Adapter.save_budgets {a a' : Adapter} {ref : String} {result : QueryResult}
    (h : a.save ref result = some a') : a'.budgets = a.budgets := by
  obtain ⟨record, -, rfl⟩ := Option.map_eq_some_iff.1 h
  rfl

theorem Adapter.control_budgets (a : Adapter) (caller : Caller) (ref : String) (cancel : Bool) :
    (a.control caller ref cancel).2.budgets = a.budgets := by
  unfold Adapter.control
  split
  · rfl
  split
  · rfl
  split
  · rfl
  · dsimp only
    split
    · rfl
    split <;> rfl

/-- A new reservation. -/
theorem Reservation.Proper.start {caller : Caller} {job : Job} {plan : List (Bucket × Budget)}
    {a : Adapter} {hour : Nat} {tool : StatementTool} {maxRows : Option Int}
    (same : job.profile.policy = policy) (rows : requestedRows policy tool maxRows = .ok job.rows)
    (admitted : Admitted sha256 policy a caller job hour plan) (n : Nat) (complete : Bool) :
    Reservation.Proper policy
      ⟨caller, job, (plan.take n).map Prod.fst, complete, none, []⟩ where
  policy := same
  rows := by
    change job.rows ≤ job.profile.policy.maxRows
    rw [same]
    exact requestedRows_le rows
  ref := Nat.le_of_eq (isQueryRef_length admitted.ref)
  distinct := by
    change ((plan.take n).map Prod.fst).Nodup
    rw [List.map_take]
    exact admitted.distinct.sublist (List.take_sublist _ _)
  settled _ is := by cases is
  refunded _ := rfl

/-- What a reservation that ends gives back. -/
theorem Reservation.share_settle {r : Reservation} {result : QueryResult} (n : Nat) (b : Bucket)
    (res : Resource) (unrefunded : r.refunded = []) :
    ({ r with result := some result, refunded := r.charged.take n } : Reservation).share b res =
      r.share b res - if b ∈ r.charged.take n then r.job.asked res - result.used res else 0 := by
  rw [share, share, unrefunded]
  by_cases given : b ∈ r.charged.take n
  · rw [if_pos (List.mem_of_mem_take given), if_pos given, if_pos given,
      if_pos (List.mem_of_mem_take given), if_neg List.not_mem_nil]
    change result.used res = _
    omega
  · rw [if_neg given, if_neg given, if_neg List.not_mem_nil]
    change (if b ∈ r.charged then r.job.asked res else 0) = _
    omega

/-- There is one more reservation, in the budgets it was written to. -/
theorem Sound.add {s : System} {a : Adapter} {r : Reservation} {running past : List Reservation}
    (h : Sound sha256 policy s) (proper : r.Proper policy)
    (written : ∀ b res, a.budget sha256 b res = taken s.all b res + r.share b res ∧
      a.budget sha256 b res ≤ b.limit policy res)
    (perm : (running ++ past).Perm (r :: s.all))
    (open_ : ∀ r' ∈ running, r'.result = none ∧ r'.complete = true) :
    Sound sha256 policy ⟨a, running, past⟩ := by
  refine ⟨fun b res => ?_, fun r' hr => ?_, open_, fun b res => (written b res).2⟩
  · refine (written b res).1.trans ?_
    change _ = taken (running ++ past) b res
    rw [taken_perm perm, taken_cons, Int.add_comm]
  · rcases List.mem_cons.1 (perm.mem_iff.1 hr) with rfl | old
    · exact proper
    · exact h.proper r' old

/-- A query ends, and gives back what it did not use. -/
theorem Sound.settle (collisionFree : Function.Injective sha256) {s : System}
    {before after : List Reservation} {r : Reservation} {result : QueryResult} {a b : Adapter}
    {refunds : Nat} (h : Sound sha256 policy s) (running : s.running = before ++ r :: after)
    (concluded : Concluded r.job result) (saved : a.budgets = s.adapter.budgets)
    (refunded : (r.charged.take refunds).foldlM (Adapter.refund sha256 r.job result) a = some b) :
    Sound sha256 policy
      ⟨b, before ++ after,
        s.past ++ [{ r with result := some result, refunded := r.charged.take refunds }]⟩ := by
  have there : r ∈ s.running := running ▸ List.mem_append_right _ List.mem_cons_self
  have proper := h.proper r (List.mem_append_left _ there)
  have unrefunded : r.refunded = [] := proper.refunded (h.open_ r there).1
  have ended : Reservation.Proper policy
      { r with result := some result, refunded := r.charged.take refunds } := by
    refine ⟨proper.policy, proper.rows, proper.ref, proper.distinct, fun result' is => ?_, fun is => ?_⟩
    · cases is
      exact concluded
    · cases is
  have moderate := ended.moderate rfl
  have perm : (before ++ after ++
      (s.past ++ [{ r with result := some result, refunded := r.charged.take refunds }])).Perm
      ({ r with result := some result, refunded := r.charged.take refunds } ::
        (before ++ after ++ s.past)) := by
    rw [← List.append_assoc]
    exact List.perm_append_comm
  have distinct := proper.distinct.sublist (List.take_sublist refunds r.charged)
  have budget : ∀ b' res, b.budget sha256 b' res = s.adapter.budget sha256 b' res -
      if b' ∈ r.charged.take refunds then r.job.asked res - result.used res else 0 := by
    intro b' res
    rw [budget_refunds collisionFree distinct refunded, Adapter.budget, Adapter.budget, saved]
  refine ⟨fun b' res => ?_, fun r' hr => ?_, fun r' hr => ?_, fun b' res => ?_⟩
  · change b.budget sha256 b' res = taken (before ++ after ++ _) b' res
    rw [budget, h.stored, taken_perm perm, taken_cons, taken_perm (System.all_running running),
      taken_cons, Reservation.share_settle refunds b' res unrefunded]
    omega
  · rcases List.mem_cons.1 (perm.mem_iff.1 hr) with rfl | old
    · exact ended
    · exact h.proper r' ((System.all_running running).mem_iff.2 (List.mem_cons_of_mem _ old))
  · refine h.open_ r' ?_
    rw [running]
    rcases List.mem_append.1 hr with old | new
    · exact List.mem_append_left _ old
    · exact List.mem_append_right _ (List.mem_cons_of_mem _ new)
  · refine (le_of_eq (budget b' res)).trans (le_trans ?_ (h.limit b' res))
    split
    · have := moderate.used_le res
      change result.used res ≤ r.job.asked res at this
      omega
    · omega

theorem Sound.step (collisionFree : Function.Injective sha256) {s t : System}
    (h : Sound sha256 policy s) (st : Step sha256 policy s t) : Sound sha256 policy t := by
  cases st with
  | @reserve caller job hour tool maxRows plan same rows admitted =>
      have checks := Adapter.plan_eq_ok same admitted
      have written := h.write collisionFree checks plan.length true
      have proper := Reservation.Proper.start same rows checks plan.length true
      simp only [List.take_length] at written proper
      refine h.add proper written ?_ fun r hr => ?_
      · rw [List.append_assoc]
        exact List.perm_middle
      · rcases List.mem_append.1 hr with old | new
        · exact h.open_ r old
        · cases List.mem_singleton.1 new
          exact ⟨rfl, rfl⟩
  | @reserveCut caller job hour tool maxRows plan same rows admitted writes =>
      have checks := Adapter.plan_eq_ok same admitted
      have written := h.write collisionFree checks writes false
      refine h.add (Reservation.Proper.start same rows checks writes false) ?_ ?_ h.open_
      · split
        next all =>
          rw [List.take_of_length_le (Nat.le_of_lt all)] at written ⊢
          exact written
        · exact written
      · rw [← List.append_assoc]
        exact List.perm_append_comm
  | @note before after r result a running is saved =>
      exact h.same (Adapter.save_budgets saved) rfl rfl
  | @settle before after r result a b running concluded saved refunds refunded =>
      have settled := h.settle collisionFree running concluded (Adapter.save_budgets saved) refunded
      exact settled.same rfl rfl rfl
  | @lose before after r running => exact h.drop running rfl
  | @abandon before after r running => exact h.drop running rfl
  | control caller ref cancel => exact h.same (Adapter.control_budgets _ _ _ _) rfl rfl
  | flag ref => exact h.same rfl rfl rfl
  | stop => exact h.same rfl rfl rfl
  | crash =>
      have perm : ([] ++ (s.past ++ s.running)).Perm s.all := by
        rw [List.nil_append]
        exact List.perm_append_comm
      refine ⟨fun b res => ?_, fun r hr => ?_, fun r hr => ?_, h.limit⟩
      · exact (h.stored b res).trans (taken_perm perm b res).symm
      · exact h.proper r (perm.mem_iff.1 hr)
      · cases hr

theorem Reachable.sound (collisionFree : Function.Injective sha256) {s : System}
    (h : Reachable sha256 policy s) : Sound sha256 policy s := by
  induction h with
  | refl =>
      exact ⟨fun b res => rfl, fun r hr => absurd hr List.not_mem_nil,
        fun r hr => absurd hr List.not_mem_nil, fun b res => Int.natCast_nonneg _⟩
  | tail _ st ih => exact ih.step collisionFree st

/-! ## Concurrency -/

/-- As many queries are active as may run at a time. -/
structure Uncrowded (policy : QueryPolicy) (active : List Active) : Prop where
  users : ∀ scopeId, active.countP (·.scopeId = scopeId) ≤ policy.maxUserConcurrency
  departments : ∀ d, active.countP (·.department = d) ≤ policy.maxDepartmentConcurrency

theorem Uncrowded.sublist {l l' : List Active} (h : Uncrowded policy l) (sub : l'.Sublist l) :
    Uncrowded policy l' where
  users scopeId := sub.countP_le.trans (h.users scopeId)
  departments d := sub.countP_le.trans (h.departments d)

/-- Flags do not count. -/
theorem Uncrowded.map {l : List Active} {f : Active → Active} (h : Uncrowded policy l)
    (same : ∀ e, (f e).scopeId = e.scopeId ∧ (f e).department = e.department) :
    Uncrowded policy (l.map f) where
  users scopeId := by
    rw [List.countP_map]
    refine le_of_eq_of_le (List.countP_congr fun e _ => ?_) (h.users scopeId)
    rw [Function.comp_apply, (same e).1]
  departments d := by
    rw [List.countP_map]
    refine le_of_eq_of_le (List.countP_congr fun e _ => ?_) (h.departments d)
    rw [Function.comp_apply, (same e).2]

theorem Adapter.control_active (a : Adapter) (caller : Caller) (ref : String) (cancel : Bool) :
    (a.control caller ref cancel).2 = a ∨ (a.control caller ref cancel).2 = a.setFlag ref := by
  unfold Adapter.control
  split
  · exact .inl rfl
  split
  · exact .inl rfl
  split
  · exact .inl rfl
  · dsimp only
    split
    · exact .inr rfl
    split
    · exact .inl rfl
    · exact .inl rfl

theorem Uncrowded.setFlag {a : Adapter} (h : Uncrowded policy a.active) (ref : String) :
    Uncrowded policy (a.setFlag ref).active := by
  refine h.map fun e => ?_
  split <;> exact ⟨rfl, rfl⟩

@[simp] theorem Adapter.writeAll_active (a : Adapter) (plan : List (Bucket × Budget)) :
    (a.writeAll sha256 plan).active = a.active := by
  induction plan generalizing a with
  | nil => rfl
  | cons p plan ih => exact ih (a.write sha256 p.1 p.2)

theorem Adapter.refunds_active {job : Job} {result : QueryResult} {bs : List Bucket}
    {a b : Adapter} (h : bs.foldlM (Adapter.refund sha256 job result) a = some b) :
    b.active = a.active ∧ b.records = a.records := by
  induction bs generalizing a with
  | nil =>
      cases h
      exact ⟨rfl, rfl⟩
  | cons b' bs ih =>
      rw [List.foldlM_cons] at h
      obtain ⟨a₁, first, rest⟩ := Option.bind_eq_some_iff.1 h
      obtain ⟨budget, -, rfl⟩ := Option.map_eq_some_iff.1 first
      obtain ⟨active, records⟩ := ih rest
      exact ⟨active, records⟩

theorem Adapter.save_active {a a' : Adapter} {ref : String} {result : QueryResult}
    (h : a.save ref result = some a') : a'.active = a.active := by
  obtain ⟨record, -, rfl⟩ := Option.map_eq_some_iff.1 h
  rfl

/-- A query that is admitted still fits in. -/
theorem Uncrowded.register {a : Adapter} {caller : Caller} {job : Job} {hour : Nat}
    {plan : List (Bucket × Budget)} (h : Uncrowded policy a.active)
    (admitted : Admitted sha256 policy a caller job hour plan) (b : Adapter)
    (same : b.active = a.active) : Uncrowded policy (b.register caller job).active := by
  have fits : ∀ (p : Active → Bool) (max : Nat), a.active.countP p ≤ max →
      (p ⟨job.ref, caller.scopeId, job.profile.department, false⟩ = true →
        a.active.countP p < max) →
      (b.register caller job).active.countP p ≤ max := by
    intro p max within free
    have others : (a.active.filter (·.ref ≠ job.ref)).countP p ≤ a.active.countP p :=
      List.filter_sublist.countP_le
    rw [Adapter.register, List.countP_append, List.countP_singleton, same]
    split
    next new =>
      have := free new
      omega
    · omega
  constructor
  · intro scopeId
    refine fits _ _ (h.users scopeId) fun new => ?_
    rw [← of_decide_eq_true new]
    exact admitted.users
  · intro d
    refine fits _ _ (h.departments d) fun new => ?_
    rw [← of_decide_eq_true new]
    exact admitted.departments

theorem Uncrowded.step {s t : System} (h : Uncrowded policy s.adapter.active)
    (st : Step sha256 policy s t) : Uncrowded policy t.adapter.active := by
  cases st with
  | @reserve caller job hour tool maxRows plan same rows admitted =>
      exact h.register (Adapter.plan_eq_ok same admitted) _ (Adapter.writeAll_active _ _)
  | @reserveCut caller job hour tool maxRows plan same rows admitted writes =>
      dsimp only
      split
      · exact (Adapter.writeAll_active s.adapter plan).symm ▸ h
      · exact (Adapter.writeAll_active s.adapter (plan.take writes)).symm ▸ h
  | @note before after r result a running is saved => exact (Adapter.save_active saved).symm ▸ h
  | @settle before after r result a b running concluded saved refunds refunded =>
      have kept := (Adapter.refunds_active refunded).1.trans (Adapter.save_active saved)
      refine h.sublist ?_
      rw [← kept]
      exact List.filter_sublist
  | @lose before after r running => exact h.sublist List.filter_sublist
  | abandon running => exact h
  | control caller ref cancel =>
      rcases s.adapter.control_active caller ref cancel with same | flagged
      · exact same.symm ▸ h
      · exact flagged.symm ▸ h.setFlag ref
  | flag ref => exact h.setFlag ref
  | stop => exact h.map fun e => ⟨rfl, rfl⟩
  | crash => exact ⟨fun _ => Nat.zero_le _, fun _ => Nat.zero_le _⟩

/-! ## References -/

/-- The references whose reservation was completed. -/
def System.completed (s : System) : List String :=
  (s.all.filter (·.complete)).map (·.job.ref)

/-- They are distinct, and each of them has a record. -/
structure Recorded (s : System) : Prop where
  distinct : s.completed.Nodup
  known : ∀ ref ∈ s.completed, (s.adapter.records ref).isSome = true

theorem Adapter.record_self (a : Adapter) (caller : Caller) (job : Job) :
    ((a.record caller job).records job.ref).isSome = true := by
  change (Function.update a.records job.ref _ job.ref).isSome = true
  rw [Function.update_self]
  rfl

theorem Adapter.record_known {a : Adapter} {caller : Caller} {job : Job} {ref : String}
    (h : (a.records ref).isSome = true) : ((a.record caller job).records ref).isSome = true := by
  change (Function.update a.records job.ref _ ref).isSome = true
  by_cases same : ref = job.ref
  · rw [same, Function.update_self]
    rfl
  · rw [Function.update_of_ne same]
    exact h

@[simp] theorem Adapter.writeAll_records (a : Adapter) (plan : List (Bucket × Budget)) :
    (a.writeAll sha256 plan).records = a.records := by
  induction plan generalizing a with
  | nil => rfl
  | cons p plan ih => exact ih (a.write sha256 p.1 p.2)

theorem Adapter.save_known {a a' : Adapter} {ref ref' : String} {result : QueryResult}
    (h : a.save ref result = some a') (known : (a.records ref').isSome = true) :
    (a'.records ref').isSome = true := by
  obtain ⟨record, -, rfl⟩ := Option.map_eq_some_iff.1 h
  change (Function.update a.records ref _ ref').isSome = true
  by_cases same : ref' = ref
  · rw [same, Function.update_self]
    rfl
  · rw [Function.update_of_ne same]
    exact known

/-- Reservations change their place, and no record goes away. -/
theorem Recorded.of_perm {s t : System} (h : Recorded s)
    (perm : ((t.all.filter (·.complete)).map (·.job.ref)).Perm s.completed)
    (known : ∀ ref, (s.adapter.records ref).isSome = true → (t.adapter.records ref).isSome = true) :
    Recorded t :=
  ⟨perm.nodup_iff.2 h.distinct, fun ref hr => known ref (h.known ref (perm.mem_iff.1 hr))⟩

/-- A running reservation ends, and is kept with others. -/
theorem completed_end {s t : System} {before after : List Reservation} {r r' : Reservation}
    (running : s.running = before ++ r :: after) (running' : t.running = before ++ after)
    (past : t.past = s.past ++ [r']) (complete : r'.complete = r.complete)
    (ref : r'.job.ref = r.job.ref) :
    ((t.all.filter (·.complete)).map (·.job.ref)).Perm s.completed := by
  have moved : t.all.Perm (r' :: (before ++ after ++ s.past)) := by
    rw [System.all, running', past, ← List.append_assoc]
    exact List.perm_append_comm
  have left := (moved.filter (·.complete)).map (·.job.ref)
  have right := ((System.all_running running).filter (·.complete)).map (·.job.ref)
  refine left.trans (.trans (.of_eq ?_) right.symm)
  rw [List.filter_cons, List.filter_cons, complete]
  split
  · rw [List.map_cons, List.map_cons, ref]
  · rfl

theorem Recorded.step {s t : System} (h : Recorded s) (st : Step sha256 policy s t) :
    Recorded t := by
  cases st with
  | @reserve caller job hour tool maxRows plan same rows admitted =>
      have checks := Adapter.plan_eq_ok same admitted
      let r : Reservation := ⟨caller, job, plan.map Prod.fst, true, none, []⟩
      have all : (s.running ++ [r] ++ s.past).Perm (r :: s.all) := by
        rw [List.append_assoc]
        exact List.perm_middle
      have perm : (((s.running ++ [r] ++ s.past).filter (·.complete)).map (·.job.ref)).Perm
          (job.ref :: s.completed) := (all.filter (·.complete)).map (·.job.ref)
      refine ⟨perm.nodup_iff.2 (List.nodup_cons.2 ⟨fun old => ?_, h.distinct⟩), fun ref hr => ?_⟩
      · have known := h.known job.ref old
        rw [checks.fresh] at known
        cases known
      · rcases List.mem_cons.1 (perm.mem_iff.1 hr) with rfl | old
        · exact Adapter.record_self _ caller job
        · refine Adapter.record_known ?_
          rw [Adapter.writeAll_records]
          exact h.known ref old
  | @reserveCut caller job hour tool maxRows plan same rows admitted writes =>
      let r : Reservation := ⟨caller, job, (plan.take writes).map Prod.fst, false, none, []⟩
      refine h.of_perm ?_ fun ref known => ?_
      · change (((s.running ++ (s.past ++ [r])).filter (·.complete)).map (·.job.ref)).Perm _
        rw [← List.append_assoc, List.filter_append, List.filter_singleton]
        exact .of_eq (congrArg _ (List.append_nil _))
      · dsimp only
        split
        · refine Adapter.record_known ?_
          rw [Adapter.writeAll_records]
          exact known
        · rw [Adapter.writeAll_records]
          exact known
  | @note before after r result a running is saved =>
      exact h.of_perm (.refl _) fun ref known => Adapter.save_known saved known
  | @settle before after r result a b running concluded saved refunds refunded =>
      refine h.of_perm (completed_end running rfl rfl rfl rfl) fun ref known => ?_
      change (b.records ref).isSome = true
      rw [(Adapter.refunds_active refunded).2]
      exact Adapter.save_known saved known
  | @lose before after r running =>
      exact h.of_perm (completed_end running rfl rfl rfl rfl) fun ref known => known
  | @abandon before after r running =>
      exact h.of_perm (completed_end running rfl rfl rfl rfl) fun ref known => known
  | control caller ref cancel =>
      refine h.of_perm (.refl _) fun ref' known => ?_
      dsimp only
      rcases s.adapter.control_active caller ref cancel with same | flagged
      · exact same.symm ▸ known
      · exact flagged.symm ▸ known
  | flag ref => exact h.of_perm (.refl _) fun ref' known => known
  | stop => exact h.of_perm (.refl _) fun ref' known => known
  | crash =>
      refine h.of_perm ?_ fun ref known => known
      have all : ([] ++ (s.past ++ s.running)).Perm s.all := by
        rw [List.nil_append]
        exact List.perm_append_comm
      exact (all.filter (·.complete)).map (·.job.ref)

/-! ## Every run -/

/-- A query of the plain world, with a reference of the right form. -/
def Job.settled : Job := { Job.plain with ref := "00000000-0000-4000-8000-000000000000" }

/-- A run that calls. -/
def Caller.plain : Caller := ⟨"scope", "session", "run"⟩

/-- The first query of an adapter is reserved. -/
theorem Job.settled_reserved : ∃ plan, Step plainDigest {} {}
    ⟨((({} : Adapter).writeAll plainDigest plan).record .plain .settled).register .plain .settled,
      [⟨.plain, .settled, plan.map Prod.fst, true, none, []⟩], []⟩ := by
  have admits : (({} : Adapter).plan plainDigest .plain .settled 0).isOk = true := by
    decide +kernel
  cases admitted : ({} : Adapter).plan plainDigest .plain .settled 0 with
  | error e =>
      rw [admitted] at admits
      cases admits
  | ok plan =>
      exact ⟨plan,
        @Step.reserve plainDigest {} {} .plain .settled 0 .query (some 10) plan rfl rfl admitted⟩

end CodeForge.Impala
