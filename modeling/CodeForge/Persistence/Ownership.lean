import Mathlib.Order.Nat
import CodeForge.Persistence.Leases

/-!
# Who owns what

The claim of a run writes one fact into four places: the attempt itself, the
active attempt of the run, the active attempt of the workspace and the active run
of the session.  `Db.Ownership` says that the four agree, that a workspace and a
session have one writer at most, and that their epochs count their attempts.  It
is the invariant of the lease protocol, read back into the words of the schema.
-/

namespace CodeForge

open Lib

/-! ## The statement -/

/-- An attempt at the run. -/
def AttemptRow.OfRun (a : AttemptRow) (r : RunRow) : Prop :=
  a.scopeId = r.scopeId ∧ a.runId = r.id

/-- An attempt in the session. -/
def AttemptRow.OfSession (a : AttemptRow) (s : SessionRow) : Prop :=
  a.scopeId = s.scopeId ∧ a.sessionId = s.id

/-- An attempt on the workspace. -/
def AttemptRow.OfWorkspace (a : AttemptRow) (w : WorkspaceRow) : Prop :=
  a.scopeId = w.scopeId ∧ a.workspaceId = w.id

instance (a : AttemptRow) (s : SessionRow) : Decidable (a.OfSession s) :=
  inferInstanceAs (Decidable (_ ∧ _))

instance (a : AttemptRow) (w : WorkspaceRow) : Decidable (a.OfWorkspace w) :=
  inferInstanceAs (Decidable (_ ∧ _))

/-- The attempt has not ended. -/
def AttemptRow.Live (a : AttemptRow) : Prop := a.endedAt = none

/-- The one live attempt at the run. -/
def Db.OneLive (db : Db) (r : RunRow) (a : AttemptRow) : Prop :=
  a ∈ db.attempts ∧ a.OfRun r ∧ a.Live ∧ ∀ b ∈ db.attempts, b.OfRun r → b.Live → b = a

/-- The greatest epoch of the attempts in the session. -/
def Db.maxEpoch (db : Db) (s : SessionRow) : Nat :=
  ((db.attempts.rows.filter fun a => a.OfSession s).map AttemptRow.epoch).foldr max 0

/-- The greatest workspace epoch of the attempts on the workspace. -/
def Db.maxWorkspaceEpoch (db : Db) (w : WorkspaceRow) : Nat :=
  ((db.attempts.rows.filter fun a => a.OfWorkspace w).map AttemptRow.workspaceEpoch).foldr max 0

/-- The pointers and the epochs of the tables agree on who owns what. -/
structure Db.Ownership (db : Db) : Prop where
  /-- A run points at its one live attempt. -/
  attempt : ∀ r ∈ db.runs, ∀ id, r.activeAttemptId = some id ↔ ∃ a, db.OneLive r a ∧ a.id = id
  /-- So does its workspace. -/
  workspace : ∀ r ∈ db.runs, ∀ id, r.activeAttemptId = some id ↔
    ∃ a ∈ db.attempts, a.OfRun r ∧ a.id = id ∧
      ∃ w, db.workspace r.scopeId r.workspaceId = some w ∧ w.activeAttemptId = some id
  /-- Its session then points at the run. -/
  session : ∀ r ∈ db.runs, r.activeAttemptId ≠ none →
    ∃ s, db.session r.scopeId r.sessionId = some s ∧ s.activeRunId = some r.id
  /-- The pointers of workspaces and sessions have no other source. -/
  ofWorkspace : ∀ w ∈ db.workspaces, ∀ id, w.activeAttemptId = some id →
    ∃ r ∈ db.runs, r.scopeId = w.scopeId ∧ r.workspaceId = w.id ∧ r.activeAttemptId = some id
  ofSession : ∀ s ∈ db.sessions, ∀ id, s.activeRunId = some id →
    ∃ r ∈ db.runs, r.scopeId = s.scopeId ∧ r.sessionId = s.id ∧ r.id = id ∧
      r.activeAttemptId ≠ none
  /-- One writer. -/
  onWorkspace : ∀ w ∈ db.workspaces, ∀ a ∈ db.attempts, ∀ b ∈ db.attempts,
    a.OfWorkspace w → b.OfWorkspace w → a.Live → b.Live → a = b
  inSession : ∀ s ∈ db.sessions, ∀ a ∈ db.attempts, ∀ b ∈ db.attempts,
    a.OfSession s → b.OfSession s → a.Live → b.Live → a = b
  /-- The epochs are those of the last attempt. -/
  executionEpoch : ∀ s ∈ db.sessions, s.executionEpoch = db.maxEpoch s
  workspaceEpoch : ∀ w ∈ db.workspaces, w.workspaceEpoch = db.maxWorkspaceEpoch w
  /-- A run in flight has an attempt, a run at its end has none. -/
  inFlight : ∀ r ∈ db.runs, r.status.inFlight = true → r.activeAttemptId ≠ none
  terminal : ∀ r ∈ db.runs, r.status.terminal = true → r.activeAttemptId = none

/-- The insertion of an attempt in `claim_next_run` violates no constraint. -/
def Store.ClaimFits (s : Store) : Prop :=
  ∀ nowIso scopeId c, s.db.nextClaimable nowIso scopeId = some c →
    ∀ binding workerId leaseUntil actor, ∃ attempts,
      s.db.attempts.insert? (c.attempt ⟨s.drawn⟩ binding workerId nowIso leaseUntil actor) =
        some attempts

/-! ## Reading the invariant back -/

section Views

variable {db : Db}

theorem Db.lease_resource {w : WorkspaceRow} (h : w ∈ db.workspaces) :
    db.lease.resource (w.scopeId, w.id) = some w.lease := Table.view_of_mem h _

theorem Db.lease_queue {s : SessionRow} (h : s ∈ db.sessions) :
    db.lease.queue (s.scopeId, s.id) = some s.lease := Table.view_of_mem h _

theorem Db.lease_job {r : RunRow} (h : r ∈ db.runs) :
    db.lease.job (r.scopeId, r.id) = some r.lease := Table.view_of_mem h _

theorem Db.lease_grant {a : AttemptRow} (h : a ∈ db.attempts) :
    db.lease.grant (a.scopeId, a.id) = some a.lease := Table.view_of_mem h _

theorem Db.lease_resource_eq_some {k : Key} {x : Lease.Resource Key} :
    db.lease.resource k = some x ↔
      ∃ w ∈ db.workspaces, (w.scopeId, w.id) = k ∧ w.lease = x := Table.view_eq_some

theorem Db.lease_queue_eq_some {k : Key} {x : Lease.Queue Key Key} :
    db.lease.queue k = some x ↔ ∃ s ∈ db.sessions, (s.scopeId, s.id) = k ∧ s.lease = x :=
  Table.view_eq_some

theorem Db.lease_job_eq_some {k : Key} {x : Lease.Job Key Key Key} :
    db.lease.job k = some x ↔ ∃ r ∈ db.runs, (r.scopeId, r.id) = k ∧ r.lease = x :=
  Table.view_eq_some

theorem Db.lease_grant_eq_some {k : Key} {x : Lease.Grant Key Key Key} :
    db.lease.grant k = some x ↔ ∃ a ∈ db.attempts, (a.scopeId, a.id) = k ∧ a.lease = x :=
  Table.view_eq_some

theorem Db.open_lease {a : AttemptRow} (h : a ∈ db.attempts) (live : a.Live) :
    Lease.Open db.lease.grant (a.scopeId, a.id) a.lease :=
  ⟨Db.lease_grant h, Option.isNone_iff_eq_none.2 live⟩

/-- Open grants are live attempts. -/
theorem Db.exists_of_open {k : Key} {g : Lease.Grant Key Key Key}
    (h : Lease.Open db.lease.grant k g) :
    ∃ a ∈ db.attempts, (a.scopeId, a.id) = k ∧ a.lease = g ∧ a.Live := by
  obtain ⟨a, ha, hk, rfl⟩ := Db.lease_grant_eq_some.1 h.1
  exact ⟨a, ha, hk, rfl, Option.isNone_iff_eq_none.1 h.2⟩

/-- Attempts with one scope and one identifier are one. -/
theorem Db.attempt_ext {a b : AttemptRow} (ha : a ∈ db.attempts) (hb : b ∈ db.attempts)
    (h : (a.scopeId, a.id) = (b.scopeId, b.id)) : a = b :=
  Table.eq_of_key ha hb (Prod.mk.inj h).2

end Views

/-- A bound that is attained is the maximum. -/
theorem eq_foldr_max {l : List Nat} {n : Nat} (bound : ∀ m ∈ l, m ≤ n)
    (attained : n ≠ 0 → n ∈ l) : n = l.foldr max 0 := by
  apply Nat.le_antisymm
  · by_cases hzero : n = 0
    · omega
    · exact List.le_max_of_le (attained hzero) le_rfl
  · exact List.max_le_of_forall_le l n bound

section Ownership

variable {db : Db} (inv : Lease.Inv db.lease)

include inv

/-- An attempt is at a run of its session and of its workspace. -/
theorem Db.run_of_attempt {a : AttemptRow} (ha : a ∈ db.attempts) :
    ∃ r ∈ db.runs, a.OfRun r ∧ r.sessionId = a.sessionId ∧ r.workspaceId = a.workspaceId := by
  obtain ⟨j, hj, hq, hw⟩ := inv.grant_job _ _ (Db.lease_grant ha)
  obtain ⟨r, hr, hk, rfl⟩ := Db.lease_job_eq_some.1 hj
  simp only [AttemptRow.lease, RunRow.lease, Prod.mk.injEq] at hk hq hw
  exact ⟨r, hr, ⟨hk.1.symm, hk.2.symm⟩, hq.2, hw.2⟩

/-- A run has its session, and the workspace of that. -/
theorem Db.session_of_run {r : RunRow} (hr : r ∈ db.runs) :
    ∃ s, db.session r.scopeId r.sessionId = some s ∧ s.workspaceId = r.workspaceId ∧
      r.runSeq < s.nextRunSeq := by
  obtain ⟨k, hk, hw, hp⟩ := inv.job_queue _ _ (Db.lease_job hr)
  obtain ⟨s, hs, hkey, rfl⟩ := Db.lease_queue_eq_some.1 hk
  simp only [RunRow.lease, SessionRow.lease, Prod.mk.injEq] at hkey hw hp
  exact ⟨s, Db.session_eq_some.2 ⟨hs, hkey⟩, hw.2.symm, hp⟩

theorem Db.workspace_of_run {r : RunRow} (hr : r ∈ db.runs) :
    ∃ w, db.workspace r.scopeId r.workspaceId = some w := by
  obtain ⟨k, hk, hw, -⟩ := inv.job_queue _ _ (Db.lease_job hr)
  obtain ⟨v, hv⟩ := inv.queue_resource _ k hk
  rw [← hw] at hv
  obtain ⟨w, hw, hkey, -⟩ := Db.lease_resource_eq_some.1 hv
  exact ⟨w, Db.workspace_eq_some.2 ⟨hw, Prod.mk.inj hkey⟩⟩

/-- The pointer of a run is its live attempt. -/
theorem Db.activeAttempt_iff {r : RunRow} (hr : r ∈ db.runs) {id : Uuid} :
    r.activeAttemptId = some id ↔ ∃ a ∈ db.attempts, a.OfRun r ∧ a.Live ∧ a.id = id := by
  have h : r.activeAttemptId = some id ↔ r.lease.grant = some (r.scopeId, id) := by
    simp [RunRow.lease]
  rw [h, inv.granted _ _ _ (Db.lease_job hr)]
  constructor
  · rintro ⟨g, hg, hjob⟩
    obtain ⟨a, ha, hk, rfl, live⟩ := Db.exists_of_open hg
    exact ⟨a, ha, Prod.mk.inj hjob, live, (Prod.mk.inj hk).2⟩
  · rintro ⟨a, ha, ⟨hs, hid⟩, live, rfl⟩
    exact ⟨a.lease, hs ▸ Db.open_lease ha live, Prod.ext hs hid⟩

/-- The pointer of a workspace is its live attempt. -/
theorem Db.workspaceAttempt_iff {w : WorkspaceRow} (hw : w ∈ db.workspaces) {id : Uuid} :
    w.activeAttemptId = some id ↔ ∃ a ∈ db.attempts, a.OfWorkspace w ∧ a.Live ∧ a.id = id := by
  have h : w.activeAttemptId = some id ↔ w.lease.holder = some (w.scopeId, id) := by
    simp [WorkspaceRow.lease]
  rw [h, inv.holder _ _ _ (Db.lease_resource hw)]
  constructor
  · rintro ⟨g, hg, hres⟩
    obtain ⟨a, ha, hk, rfl, live⟩ := Db.exists_of_open hg
    exact ⟨a, ha, Prod.mk.inj hres, live, (Prod.mk.inj hk).2⟩
  · rintro ⟨a, ha, ⟨hs, hid⟩, live, rfl⟩
    exact ⟨a.lease, hs ▸ Db.open_lease ha live, Prod.ext hs hid⟩

/-- The pointer of a session is the run of its live attempt. -/
theorem Db.activeRun_iff {s : SessionRow} (hs : s ∈ db.sessions) {id : Uuid} :
    s.activeRunId = some id ↔ ∃ a ∈ db.attempts, a.OfSession s ∧ a.Live ∧ a.runId = id := by
  have h : s.activeRunId = some id ↔ s.lease.active = some (s.scopeId, id) := by
    simp [SessionRow.lease]
  rw [h, inv.active _ _ _ (Db.lease_queue hs)]
  constructor
  · rintro ⟨k, g, hg, hq, hjob⟩
    obtain ⟨a, ha, hk, rfl, live⟩ := Db.exists_of_open hg
    exact ⟨a, ha, Prod.mk.inj hq, live, (Prod.mk.inj hjob).2⟩
  · rintro ⟨a, ha, ⟨hsc, hid⟩, live, rfl⟩
    exact ⟨_, a.lease, Db.open_lease ha live, Prod.ext hsc hid, Prod.ext hsc rfl⟩

/-- Live attempts on one workspace are one. -/
theorem Db.live_unique {a b : AttemptRow} (ha : a ∈ db.attempts) (hb : b ∈ db.attempts)
    (hscope : a.scopeId = b.scopeId) (hw : a.workspaceId = b.workspaceId) (la : a.Live)
    (lb : b.Live) : a = b :=
  Db.attempt_ext ha hb
    (inv.open_unique_resource (Db.open_lease ha la) (Db.open_lease hb lb) (Prod.ext hscope hw))

/-- So are live attempts in one session. -/
theorem Db.live_unique_session {a b : AttemptRow} (ha : a ∈ db.attempts) (hb : b ∈ db.attempts)
    (hscope : a.scopeId = b.scopeId) (hs : a.sessionId = b.sessionId) (la : a.Live)
    (lb : b.Live) : a = b :=
  Db.attempt_ext ha hb
    (inv.open_unique_queue (Db.open_lease ha la) (Db.open_lease hb lb) (Prod.ext hscope hs))

/-- The epoch of a session is the greatest of its attempts. -/
theorem Db.executionEpoch_eq {s : SessionRow} (hs : s ∈ db.sessions) :
    s.executionEpoch = db.maxEpoch s := by
  refine eq_foldr_max ?_ ?_
  · intro n hn
    obtain ⟨a, hmem, rfl⟩ := List.mem_map.1 hn
    obtain ⟨ha, hof⟩ := List.mem_filter.1 hmem
    obtain ⟨hsc, hid⟩ := of_decide_eq_true hof
    refine inv.queue_epoch _ _ s.lease (Db.lease_grant ha) ?_
    rw [show a.lease.queue = (s.scopeId, s.id) from Prod.ext hsc hid]
    exact Db.lease_queue hs
  · intro hne
    obtain ⟨k, g, hg, hq, he⟩ := inv.queue_epoch_attained _ _ (Db.lease_queue hs) hne
    obtain ⟨a, ha, -, rfl⟩ := Db.lease_grant_eq_some.1 hg
    exact List.mem_map.2 ⟨a, List.mem_filter.2 ⟨ha, decide_eq_true (Prod.mk.inj hq)⟩, he⟩

/-- The epoch of a workspace is the greatest of its attempts. -/
theorem Db.workspaceEpoch_eq {w : WorkspaceRow} (hw : w ∈ db.workspaces) :
    w.workspaceEpoch = db.maxWorkspaceEpoch w := by
  refine eq_foldr_max ?_ ?_
  · intro n hn
    obtain ⟨a, hmem, rfl⟩ := List.mem_map.1 hn
    obtain ⟨ha, hof⟩ := List.mem_filter.1 hmem
    obtain ⟨hsc, hid⟩ := of_decide_eq_true hof
    refine inv.resource_epoch _ _ w.lease (Db.lease_grant ha) ?_
    rw [show a.lease.resource = (w.scopeId, w.id) from Prod.ext hsc hid]
    exact Db.lease_resource hw
  · intro hne
    obtain ⟨k, g, hg, hq, he⟩ := inv.resource_epoch_attained _ _ (Db.lease_resource hw) hne
    obtain ⟨a, ha, -, rfl⟩ := Db.lease_grant_eq_some.1 hg
    exact List.mem_map.2 ⟨a, List.mem_filter.2 ⟨ha, decide_eq_true (Prod.mk.inj hq)⟩, he⟩

theorem Db.ownership_of_lease : db.Ownership where
  attempt r hr id := by
    rw [Db.activeAttempt_iff inv hr]
    constructor
    · rintro ⟨a, ha, hof, live, rfl⟩
      refine ⟨a, ⟨ha, hof, live, ?_⟩, rfl⟩
      intro b hb hofb liveb
      have hida := (Db.activeAttempt_iff inv hr).2 ⟨a, ha, hof, live, rfl⟩
      have hidb := (Db.activeAttempt_iff inv hr).2 ⟨b, hb, hofb, liveb, rfl⟩
      rw [hida] at hidb
      exact Table.eq_of_key hb ha (Option.some.inj hidb).symm
    · rintro ⟨a, ⟨ha, hof, live, -⟩, rfl⟩
      exact ⟨a, ha, hof, live, rfl⟩
  workspace r hr id := by
    obtain ⟨w, hw⟩ := Db.workspace_of_run inv hr
    obtain ⟨hmem, hsc, hid⟩ := Db.workspace_eq_some.1 hw
    rw [Db.activeAttempt_iff inv hr]
    constructor
    · rintro ⟨a, ha, hof, live, rfl⟩
      refine ⟨a, ha, hof, rfl, w, hw, ?_⟩
      obtain ⟨r', hr', hof', -, hww⟩ := Db.run_of_attempt inv ha
      have hrr : r = r' := Table.eq_of_key hr hr' (hof.2.symm.trans hof'.2)
      subst hrr
      refine (Db.workspaceAttempt_iff inv hmem).2 ⟨a, ha, ⟨hof.1.trans hsc.symm, ?_⟩, live, rfl⟩
      rw [← hww, hid]
    · rintro ⟨a, ha, hof, rfl, w', hw', hactive⟩
      rw [hw] at hw'
      cases hw'
      obtain ⟨b, hb, -, live, hba⟩ := (Db.workspaceAttempt_iff inv hmem).1 hactive
      have hab : b = a := Table.eq_of_key hb ha hba
      subst hab
      exact ⟨b, hb, hof, live, rfl⟩
  session r hr hne := by
    obtain ⟨id, hid⟩ := Option.ne_none_iff_exists'.1 hne
    obtain ⟨a, ha, hof, live, -⟩ := (Db.activeAttempt_iff inv hr).1 hid
    obtain ⟨s, hs, -, -⟩ := Db.session_of_run inv hr
    obtain ⟨hmem, hsc, hsid⟩ := Db.session_eq_some.1 hs
    obtain ⟨r', hr', hof', hss, -⟩ := Db.run_of_attempt inv ha
    have hrr : r = r' := Table.eq_of_key hr hr' (hof.2.symm.trans hof'.2)
    subst hrr
    refine ⟨s, hs, (Db.activeRun_iff inv hmem).2 ⟨a, ha, ⟨hof.1.trans hsc.symm, ?_⟩, live, hof.2⟩⟩
    rw [← hss, hsid]
  ofWorkspace w hw id hactive := by
    obtain ⟨a, ha, hof, live, hid⟩ := (Db.workspaceAttempt_iff inv hw).1 hactive
    obtain ⟨r, hr, hofr, -, hww⟩ := Db.run_of_attempt inv ha
    exact ⟨r, hr, hofr.1.symm.trans hof.1, hww.trans hof.2,
      (Db.activeAttempt_iff inv hr).2 ⟨a, ha, hofr, live, hid⟩⟩
  ofSession s hs id hactive := by
    obtain ⟨a, ha, hof, live, rfl⟩ := (Db.activeRun_iff inv hs).1 hactive
    obtain ⟨r, hr, hofr, hss, -⟩ := Db.run_of_attempt inv ha
    refine ⟨r, hr, hofr.1.symm.trans hof.1, hss.trans hof.2, hofr.2.symm, ?_⟩
    rw [(Db.activeAttempt_iff inv hr).2 ⟨a, ha, hofr, live, rfl⟩]
    exact Option.some_ne_none _
  onWorkspace w hw a ha b hb hofa hofb la lb :=
    Db.live_unique inv ha hb (hofa.1.trans hofb.1.symm) (hofa.2.trans hofb.2.symm) la lb
  inSession s hs a ha b hb hofa hofb la lb :=
    Db.live_unique_session inv ha hb (hofa.1.trans hofb.1.symm) (hofa.2.trans hofb.2.symm) la lb
  executionEpoch s hs := Db.executionEpoch_eq inv hs
  workspaceEpoch w hw := Db.workspaceEpoch_eq inv hw
  inFlight r hr hf := by
    have := inv.held _ _ (Db.lease_job hr) (RunStatus.phase_held.2 hf)
    simpa [RunRow.lease] using this
  terminal r hr ht := by
    have := inv.closed _ _ (Db.lease_job hr) (RunStatus.phase_closed.2 ht)
    simpa [RunRow.lease] using this

end Ownership

/-! ## Every reachable store -/

theorem Records.attempts {d : Deployment} {f : Files} {db db' : Db} {r : RunRow}
    {s : SessionRow} {e : EventRow} (h : Records d f db r s e db') :
    db'.attempts = db.attempts := by
  obtain ⟨events, now, actor, -, rfl⟩ := h.result
  rfl

/-- Attempts carry identifiers drawn before. -/
theorem Reachable.attempt_drawn {d : Deployment} {π : Discipline} {s : Store}
    (h : Reachable d π s) : ∀ a ∈ s.db.attempts, a.id.draw < s.drawn := by
  refine h.invariant (I := fun _ n db => ∀ a ∈ db.attempts, a.id.draw < n) ?_ ?_ ?_
  · intro a ha
    exact absurd ha (Table.not_mem_empty a)
  · intro f g m n db _ hmn hdb a ha
    exact Nat.lt_of_lt_of_le (hdb a ha) hmn
  · intro f n db db' c hdb
    cases c with
    | addWorkspace | rebind | revise | addSession | tools | pendings => exact hdb
    | accept known insert record event =>
        have := record.attempts
        intro a ha
        exact hdb a (this ▸ ha)
    | claim run candidate claimable earlier insert record event =>
        intro a ha
        rw [record.attempts] at ha
        rcases (Table.mem_insert? insert).1 ha with ha | rfl
        · exact hdb a ha
        · exact earlier
    | move run change allowed extra_allowed record event =>
        intro a ha
        split at ha
        · simp only [Db.release] at ha
          rw [Table.mem_updateWhere] at ha
          obtain ⟨b, hb, rfl⟩ := ha
          rw [record.attempts] at hb
          split <;> exact hdb b hb
        · rw [record.attempts] at ha
          exact hdb a ha
    | note record allowed =>
        rw [record.attempts]
        exact hdb

/-- A claim finds the next epochs of session and workspace unused. -/
theorem Db.claim_fits {db : Db} (counted : db.lease.Counted) {c : Candidate}
    (candidate : db.candidate c.run = some c) {id : Uuid} (fresh : ∀ a ∈ db.attempts, a.id ≠ id)
    (binding : Option UserBinding) (workerId : String) (nowIso leaseUntil : Timestamp)
    (actor : String) :
    ∃ attempts, db.attempts.insert? (c.attempt id binding workerId nowIso leaseUntil actor) =
      some attempts := by
  obtain ⟨-, hsession, hworkspace⟩ := Db.candidate_eq_some.1 candidate
  obtain ⟨hs, hsscope, hsid⟩ := Db.session_eq_some.1 hsession
  obtain ⟨hw, hwscope, hwid⟩ := Db.workspace_eq_some.1 hworkspace
  apply Table.insert?_isSome
  intro a ha
  by_contra hclash
  obtain ⟨⟨x, hx, lex⟩, k, hk, lek⟩ := counted _ _ (Db.lease_grant ha)
  rcases rowClash_attempt.1 (Bool.eq_true_of_not_eq_false hclash) with
    hid | ⟨hscope, hsess, hepoch⟩ | ⟨hscope, hwork, hepoch⟩
  · exact fresh a ha hid
  · have same : a.lease.queue = (c.session.scopeId, c.session.id) :=
      Prod.ext (hscope.trans hsscope.symm) (hsess.trans hsid.symm)
    rw [same, Db.lease_queue hs] at hk
    cases hk
    simp only [AttemptRow.lease, SessionRow.lease] at lek
    simp only [Candidate.attempt] at hepoch
    omega
  · have same : a.lease.resource = (c.workspace.scopeId, c.workspace.id) :=
      Prod.ext (hscope.trans (hsscope.symm.trans hwscope.symm)) (hwork.trans hwid.symm)
    rw [same, Db.lease_resource hw] at hx
    cases hx
    simp only [AttemptRow.lease, WorkspaceRow.lease] at lex
    simp only [Candidate.attempt] at hepoch
    omega

/-- In every reachable store a claim can insert its attempt. -/
theorem Reachable.claimFits {d : Deployment} {π : Discipline} {s : Store}
    (h : Reachable d π s) : s.ClaimFits := by
  intro nowIso scopeId c hc binding workerId leaseUntil actor
  obtain ⟨-, candidate, -⟩ := Db.nextClaimable_spec hc
  refine Db.claim_fits h.counted candidate ?_ binding workerId nowIso leaseUntil actor
  intro a ha hid
  have := h.attempt_drawn a ha
  rw [hid] at this
  exact Nat.lt_irrefl _ this

/-- In every reachable store the pointers and epochs agree, a workspace and a
session have one writer at most, and a claim can always insert its attempt. -/
theorem Reachable.ownership {d : Deployment} {π : Discipline} {s : Store}
    (h : Reachable d π s) (hrun : ¬ π.target .running) : s.db.Ownership ∧ s.ClaimFits :=
  ⟨Db.ownership_of_lease (h.lease hrun), h.claimFits⟩

/-- The pointers agree where there is something to point at. -/
theorem Reachable.ownership_firstClaim :
    let s := Op.execAll .plain Op.firstClaim {}
    (s.db.runs.rows.map RunRow.activeAttemptId = [some ⟨4⟩] ∧
      s.db.attempts.rows.map AttemptRow.id = [⟨4⟩]) ∧ s.db.Ownership ∧ s.ClaimFits := by
  exact ⟨by decide +kernel, Reachable.ownership (π := { target := (· ≠ .running) })
    (.execAll (Op.firstClaim_obeys trivial trivial)) (by simp)⟩

end CodeForge
