import CodeForge.Persistence.Numbering
import CodeForge.Persistence.Ownership

/-!
# The queue of runs

Which run `claim_next_run` can take, and in which order it takes them.

A workspace whose runs all wait has a run to take, unless one of them was put
back into the queue while it held its attempt: the selection asks for a free
session and a free workspace, and such a run keeps both (`Reachable.enabled_iff`).

Within a session runs are started in the order of their acceptance.  The
selection only looks at earlier runs that are in the queue; that the others do
not matter is the invariant of the leases (`Reachable.claims_in_order`).
-/

namespace CodeForge

open Lib

/-! ## A run to take -/

/-- A run on the workspace. -/
def RunRow.OnWorkspace (r : RunRow) (w : WorkspaceRow) : Prop :=
  r.scopeId = w.scopeId ∧ r.workspaceId = w.id

/-- Runs of the workspace wait, all of them are due, and nothing else goes on. -/
structure Db.AllWait (db : Db) (nowIso : Timestamp) (w : WorkspaceRow) : Prop where
  known : w ∈ db.workspaces
  waits : ∃ r ∈ db.runs, r.OnWorkspace w ∧ r.status = .queued
  due : ∀ r ∈ db.runs, r.OnWorkspace w → r.status = .queued → r.dueAt ≤ nowIso
  still : ∀ r ∈ db.runs, r.OnWorkspace w → r.status ≠ .running ∧ r.status ≠ .waitingUser ∧
    r.status ≠ .waitingExternal ∧ r.status ≠ .recovering ∧ r.status ≠ .cancelling

/-- Some run of the workspace satisfies the selection of `claim_next_run`. -/
def Db.Enabled (db : Db) (nowIso : Timestamp) (scopeId : Option String) (w : WorkspaceRow) :
    Prop := ∃ c ∈ db.claimable nowIso scopeId, c.workspace = w

/-- No waiting run of the workspace holds an attempt. -/
def Db.NoneResumed (db : Db) (w : WorkspaceRow) : Prop :=
  ∀ r ∈ db.runs, r.OnWorkspace w → r.status = .queued → r.activeAttemptId = none

theorem RunRow.onWorkspace_iff {r : RunRow} {w : WorkspaceRow} :
    r.OnWorkspace w ↔ r.lease.resource = (w.scopeId, w.id) := by
  simp [OnWorkspace, RunRow.lease]

theorem RunRow.phase_of_still {status : RunStatus} (h : status ≠ .running ∧
    status ≠ .waitingUser ∧ status ≠ .waitingExternal ∧ status ≠ .recovering ∧
      status ≠ .cancelling) : status.phase = .queued ∨ status.phase = .closed := by
  cases status <;> simp_all [RunStatus.phase]

/-- What the protocol can claim, the selection finds, if it is due and in scope. -/
theorem Db.Claimable.of_lease {db : Db} {r : RunRow} {s : SessionRow} {w : WorkspaceRow}
    {k : Lease.Queue Key Key} {v : Lease.Resource Key}
    (hs : db.session r.scopeId r.sessionId = some s)
    (hw : db.workspace s.scopeId s.workspaceId = some w)
    (h : db.lease.Claimable r.lease k v) {nowIso : Timestamp} {scopeId : Option String}
    (due : r.dueAt ≤ nowIso) (scope : ∀ sc, scopeId = some sc → r.scopeId = sc) :
    db.Claimable nowIso scopeId ⟨r, s, w⟩ := by
  have hk : k = s.lease := by
    have := h.queue
    rw [show db.lease.queue r.lease.queue = some s.lease from Table.view_of_getIn hs _] at this
    exact (Option.some.inj this).symm
  subst hk
  have hv : v = w.lease := by
    have := h.resource
    rw [show db.lease.resource s.lease.resource = some w.lease from
      Table.view_of_getIn hw _] at this
    exact (Option.some.inj this).symm
  subst hv
  refine ⟨RunStatus.phase_queued.1 h.queued, due, ?_, ?_, ?_, scope⟩
  · simpa [SessionRow.lease] using h.idle
  · simpa [WorkspaceRow.lease] using h.free
  · refine List.any_eq_false.2 ?_
    intro prior hprior hcond
    simp only [Bool.and_eq_true, decide_eq_true_eq] at hcond
    obtain ⟨⟨⟨hsc, hsess⟩, hq⟩, hlt⟩ := hcond
    have hle : r.runSeq ≤ prior.runSeq := h.first _ _ (Db.lease_job hprior)
      (Prod.ext hsc hsess) (RunStatus.phase_queued.2 hq)
    omega

section Enabled

variable {db : Db} (inv : Lease.Inv db.lease)

include inv

/-- The selection finds what the protocol can claim. -/
theorem Db.enabled_iff_lease {nowIso : Timestamp} {w : WorkspaceRow} (h : db.AllWait nowIso w)
    {scopeId : Option String} (scope : ∀ sc, scopeId = some sc → w.scopeId = sc) :
    db.Enabled nowIso scopeId w ↔ ∃ r j k v, db.lease.job r = some j ∧
      j.resource = (w.scopeId, w.id) ∧ db.lease.Claimable j k v := by
  constructor
  · rintro ⟨c, hc, rfl⟩
    obtain ⟨hr, hcand, hclaim⟩ := Db.mem_claimable.1 hc
    obtain ⟨-, hs, hw⟩ := Db.candidate_eq_some.1 hcand
    obtain ⟨s, hs', hws, -⟩ := Db.session_of_run inv hr
    rw [hs] at hs'
    cases hs'
    obtain ⟨-, hwsc, hwid⟩ := Db.workspace_eq_some.1 hw
    have hssc : c.session.scopeId = c.run.scopeId := (Db.session_eq_some.1 hs).2.1
    refine ⟨_, _, _, _, Db.lease_job hr, ?_, hclaim.lease hcand⟩
    exact Prod.ext (hssc.symm.trans hwsc.symm) (hws.symm.trans hwid.symm)
  · rintro ⟨_, j, k, v, hj, hres, hclaim⟩
    obtain ⟨r, hr, -, rfl⟩ := Db.lease_job_eq_some.1 hj
    have hon : r.OnWorkspace w := RunRow.onWorkspace_iff.2 hres
    obtain ⟨s, hs, hws, -⟩ := Db.session_of_run inv hr
    have hw : db.workspace s.scopeId s.workspaceId = some w := by
      have hssc : s.scopeId = r.scopeId := (Db.session_eq_some.1 hs).2.1
      rw [hssc, hon.1, hws, hon.2]
      exact Table.getIn_of_mem h.known
    have hstatus : r.status = .queued := RunStatus.phase_queued.1 hclaim.queued
    refine ⟨⟨r, s, w⟩, Db.mem_claimable.2 ⟨hr, Db.candidate_eq_some.2 ⟨rfl, hs, hw⟩, ?_⟩, rfl⟩
    exact Db.Claimable.of_lease hs hw hclaim (h.due r hr hon hstatus)
      fun sc hsc => hon.1.trans (scope sc hsc)

theorem Db.enabled_iff_noneResumed {nowIso : Timestamp} {w : WorkspaceRow} (h : db.AllWait nowIso w)
    {scopeId : Option String} (scope : ∀ sc, scopeId = some sc → w.scopeId = sc) :
    db.Enabled nowIso scopeId w ↔ db.NoneResumed w := by
  have waits : ∃ r j, db.lease.job r = some j ∧ j.resource = (w.scopeId, w.id) ∧
      j.phase = .queued := by
    obtain ⟨r, hr, hon, hq⟩ := h.waits
    exact ⟨_, _, Db.lease_job hr, RunRow.onWorkspace_iff.1 hon, RunStatus.phase_queued.2 hq⟩
  have calm : ∀ r j, db.lease.job r = some j → j.resource = (w.scopeId, w.id) →
      j.phase = .queued ∨ j.phase = .closed := by
    intro k j hj hres
    obtain ⟨r, hr, -, rfl⟩ := Db.lease_job_eq_some.1 hj
    exact RunRow.phase_of_still (h.still r hr (RunRow.onWorkspace_iff.2 hres))
  rw [Db.enabled_iff_lease inv h scope, inv.exists_claimable_iff waits calm]
  constructor
  · intro hnone r hr hon hq
    have := hnone _ _ (Db.lease_job hr) (RunRow.onWorkspace_iff.1 hon)
      (RunStatus.phase_queued.2 hq)
    simpa [RunRow.lease] using this
  · intro hnone k j hj hres hq
    obtain ⟨r, hr, -, rfl⟩ := Db.lease_job_eq_some.1 hj
    simpa [RunRow.lease] using
      hnone r hr (RunRow.onWorkspace_iff.2 hres) (RunStatus.phase_queued.1 hq)

end Enabled

/-- Where no caller resumes a run, no waiting run holds an attempt. -/
theorem Reachable.noneResumed {d : Deployment} {π : Discipline} {s : Store}
    (h : Reachable d π s) (hrun : ¬ π.target .running) (hqueued : ¬ π.target .queued)
    (w : WorkspaceRow) : s.db.NoneResumed w := by
  have unclaimed : s.db.lease.Unclaimed := by
    refine h.db_invariant (I := fun db => db.lease.Unclaimed) ?_ ?_
    · intro r j hj
      cases hj
    · intro f n db db' c hdb
      rcases c.lease_properStep hrun with e | st
      · rw [e]
        exact hdb
      · rw [eq_false hqueued] at st
        exact hdb.step st
  intro r hr _ hq
  simpa [RunRow.lease] using unclaimed _ _ (Db.lease_job hr) (RunStatus.phase_queued.2 hq)

/-- A workspace whose runs all wait has a run to take exactly when none of them
was resumed; where no caller resumes runs it always has one. -/
theorem Reachable.enabled_iff {d : Deployment} {π : Discipline} {s : Store}
    (h : Reachable d π s) (hrun : ¬ π.target .running) {nowIso : Timestamp} {w : WorkspaceRow}
    (hw : s.db.AllWait nowIso w) {scopeId : Option String}
    (scope : ∀ sc, scopeId = some sc → w.scopeId = sc) :
    (s.db.Enabled nowIso scopeId w ↔ s.db.NoneResumed w) ∧
      (¬ π.target .queued → s.db.Enabled nowIso scopeId w) := by
  have iff := Db.enabled_iff_noneResumed (h.lease hrun) hw scope
  exact ⟨iff, fun hqueued => iff.2 (h.noneResumed hrun hqueued w)⟩

/-- Where every run waits on one workspace, all wait. -/
theorem Db.AllWait.of_rows {db : Db} {scopeId : String} {id : Uuid} {w : WorkspaceRow}
    {nowIso : Timestamp} (hw : db.workspace scopeId id = some w) (some_ : 0 < db.runs.rows.length)
    (all : ∀ r ∈ db.runs.rows, r.scopeId = scopeId ∧ r.workspaceId = id ∧ r.status = .queued ∧
      r.dueAt ≤ nowIso) : db.AllWait nowIso w := by
  obtain ⟨hmem, hsc, hid⟩ := Db.workspace_eq_some.1 hw
  obtain ⟨r, hr⟩ := List.exists_mem_of_length_pos some_
  obtain ⟨rsc, rid, rstatus, -⟩ := all r hr
  refine ⟨hmem, ⟨r, hr, ⟨rsc.trans hsc.symm, rid.trans hid.symm⟩, rstatus⟩, ?_, ?_⟩
  · intro r' hr' _ _
    exact (all r' hr').2.2.2
  · intro r' hr' _
    rw [(all r' hr').2.2.1]
    decide

/-- The first message can be claimed. -/
theorem Reachable.enabled_firstSend :
    let s := Op.execAll .plain Op.firstSend {}
    ∃ w, (s.db.Enabled "2026-01-01T00:01:00Z" (some "ada") w ↔ s.db.NoneResumed w) ∧
      s.db.Enabled "2026-01-01T00:01:00Z" (some "ada") w := by
  intro s
  have obeys : ∀ op ∈ Op.firstSend, op.Obeys
      { target := fun t => t ≠ .running ∧ t ≠ .queued } := by
    intro op hop
    simp only [Op.firstSend, List.mem_cons, List.not_mem_nil, or_false] at hop
    rcases hop with rfl | rfl
    · exact fun _ _ => trivial
    · exact fun _ => trivial
  obtain ⟨w, hw⟩ : ∃ w, s.db.workspace "ada" ⟨1⟩ = some w :=
    Option.isSome_iff_exists.1 (by decide +kernel)
  have scope : ∀ sc, some "ada" = some sc → w.scopeId = sc := by
    rintro _ ⟨⟩
    exact (Db.workspace_eq_some.1 hw).2.1
  have wait : s.db.AllWait "2026-01-01T00:01:00Z" w :=
    .of_rows hw (by decide +kernel) (by decide +kernel)
  have holds := Reachable.enabled_iff (.execAll obeys) (by simp) wait scope
  exact ⟨w, holds.1, holds.2 (by simp)⟩

/-- The run of the first claim waits for its user and is resumed. -/
def Op.firstResumption : List Op :=
  Op.firstClaim ++
    [.transitionRun "ada" ⟨2⟩ 1 .waitingUser { reason := some "question" } none,
      .transitionRun "ada" ⟨2⟩ 2 .queued {} none]

/-- A resumed run is never claimed again, and blocks its workspace. -/
theorem enabled_fails_firstResumption :
    ¬ ∀ s, Reachable .plain { target := (· ≠ .running) } s → ∀ nowIso w,
      s.db.AllWait nowIso w → s.db.Enabled nowIso none w := by
  intro h
  have obeys : ∀ op ∈ Op.firstResumption, op.Obeys { target := (· ≠ .running) } := by
    intro op hop
    rcases List.mem_append.1 hop with hop | hop
    · exact Op.firstClaim_obeys trivial trivial op hop
    · simp only [List.mem_cons, List.not_mem_nil, or_false] at hop
      rcases hop with rfl | rfl
      · exact ⟨by decide, trivial⟩
      · exact ⟨by decide, trivial⟩
  obtain ⟨w, hw⟩ : ∃ w, (Op.execAll .plain Op.firstResumption {}).db.workspace "ada" ⟨1⟩ = some w :=
    Option.isSome_iff_exists.1 (by decide +kernel)
  obtain ⟨c, hc, -⟩ := h _ (.execAll obeys) "2026-01-01T00:03:00Z" w
    (.of_rows hw (by decide +kernel) (by decide +kernel))
  have none_ : ((Op.execAll .plain Op.firstResumption {}).db.claimable
      "2026-01-01T00:03:00Z" none).length = 0 := by decide +kernel
  rw [List.length_eq_zero_iff.1 none_] at hc
  cases hc

/-! ## In the order of acceptance -/

/-- The run has no attempt, and no event says that it was started. -/
def Db.NeverStarted (db : Db) (r : RunRow) : Prop :=
  (∀ a ∈ db.attempts, ¬ a.OfRun r) ∧
    ∀ e ∈ db.events, e.runKey = (r.scopeId, r.id) → e.type ≠ .runStarted

/-- When a run is claimed, the runs accepted before it in its session are at
their end, or about to be without ever having been started. -/
def Store.ClaimsInOrder (d : Deployment) (s : Store) : Prop :=
  ∀ scopeId workerId nowIso leaseUntil claimed t,
    claimNextRun d scopeId workerId nowIso leaseUntil s = .ok (some claimed) t →
      ∃ r ∈ s.db.runs, r.id = claimed.run.id ∧ ∀ prior ∈ s.db.runs,
        prior.scopeId = r.scopeId → prior.sessionId = r.sessionId → prior.runSeq < r.runSeq →
          prior.status.terminal = true ∨ prior.status = .cancelling ∧ s.db.NeverStarted prior

/-- The runs of a session were started in the order of their acceptance. -/
def Db.StartsInOrder (db : Db) : Prop :=
  ∀ e ∈ db.events, ∀ f ∈ db.events, e.type = .runStarted → f.type = .runStarted →
    e.sessionKey = f.sessionKey → e.sessionSeq < f.sessionSeq →
      ∀ r ∈ db.runs, ∀ r' ∈ db.runs, e.runKey = (r.scopeId, r.id) →
        f.runKey = (r'.scopeId, r'.id) → r.runSeq < r'.runSeq

/-- The same, in the terms of the protocol, with the grants behind the events. -/
structure Db.Starts (db : Db) : Prop where
  granted : ∀ e ∈ db.events, e.type = .runStarted →
    ∃ a g, db.lease.grant a = some g ∧ g.job = e.runKey
  ordered : ∀ e ∈ db.events, ∀ f ∈ db.events, e.type = .runStarted → f.type = .runStarted →
    e.sessionKey = f.sessionKey → e.sessionSeq < f.sessionSeq →
      ∀ i j, db.lease.job e.runKey = some i → db.lease.job f.runKey = some j → i.place < j.place

theorem Db.Starts.empty : ({} : Db).Starts where
  granted e he := absurd he (Table.not_mem_empty e)
  ordered e he := absurd he (Table.not_mem_empty e)

/-- The run of an event is a job, in the queue of the session of the event. -/
theorem Db.EventLog.job {db : Db} (log : db.EventLog) {e : EventRow} (he : e ∈ db.events) :
    ∃ j, db.lease.job e.runKey = some j ∧ j.queue = e.sessionKey := by
  obtain ⟨r, hr, hk, hs⟩ := log.owner_run he
  exact ⟨r.lease, by rw [hk]; exact Db.lease_job hr, hs.symm⟩

/-- Grants and places stay, so what is known of old events stays known. -/
theorem Db.Starts.carry {resumes : Prop} {db db' : Db} (h : db.Starts) (log : db.EventLog)
    (st : db'.lease = db.lease ∨ Lease.Step resumes False db.lease db'.lease) :
    (∀ e ∈ db.events, e.type = .runStarted →
      ∃ a g, db'.lease.grant a = some g ∧ g.job = e.runKey) ∧
    ∀ e ∈ db.events, ∀ f ∈ db.events, e.type = .runStarted → f.type = .runStarted →
      e.sessionKey = f.sessionKey → e.sessionSeq < f.sessionSeq →
        ∀ i j, db'.lease.job e.runKey = some i → db'.lease.job f.runKey = some j →
          i.place < j.place := by
  have place : ∀ e ∈ db.events, ∀ i, db'.lease.job e.runKey = some i →
      ∃ j, db.lease.job e.runKey = some j ∧ i.place = j.place := by
    intro e he i hi
    obtain ⟨j, hj, -⟩ := log.job he
    refine ⟨j, hj, ?_⟩
    rcases st with heq | st
    · rw [heq, hj] at hi
      rw [Option.some.inj hi]
    · obtain ⟨j', hj', -, -, hp⟩ := st.job_stays hj
      rw [hi] at hj'
      rw [Option.some.inj hj', hp]
  constructor
  · intro e he ht
    obtain ⟨a, g, hg, hjob⟩ := h.granted e he ht
    rcases st with heq | st
    · exact ⟨a, g, by rw [heq, hg], hjob⟩
    · obtain ⟨g', hg', hjob'⟩ := st.grant_stays hg
      exact ⟨a, g', hg', hjob'.trans hjob⟩
  · intro e he f hf hte htf hs hlt i j hi hj
    obtain ⟨i', hi', hip⟩ := place e he i hi
    obtain ⟨j', hj', hjp⟩ := place f hf j hj
    rw [hip, hjp]
    exact h.ordered e he f hf hte htf hs hlt i' j' hi' hj'

/-- Where no start is recorded, nothing is to be shown. -/
theorem Db.Starts.quiet {resumes : Prop} {db db' : Db} (h : db.Starts) (log : db.EventLog)
    (st : db'.lease = db.lease ∨ Lease.Step resumes False db.lease db'.lease)
    (old : ∀ e ∈ db'.events, e.type = .runStarted → e ∈ db.events) : db'.Starts := by
  obtain ⟨granted, ordered⟩ := h.carry log st
  constructor
  · intro e he ht
    exact granted e (old e he ht) ht
  · intro e he f hf hte htf
    exact ordered e (old e he hte) f (old f hf htf) hte htf

/-- A recorded start is that of a run behind all runs started before. -/
theorem Db.Starts.record {resumes : Prop} {db db' : Db} (h : db.Starts) (inv : Lease.Inv db.lease)
    (log : db.EventLog) (log' : db'.EventLog)
    (st : db'.lease = db.lease ∨ Lease.Step resumes False db.lease db'.lease) {e : EventRow}
    (rows : db'.events.rows = db.events.rows ++ [e])
    (granted : ∃ a g, db'.lease.grant a = some g ∧ g.job = e.runKey) {j : Lease.Job Key Key Key}
    (job : db.lease.job e.runKey = some j) (queue : j.queue = e.sessionKey)
    (queued : j.phase = .queued) (unclaimed : j.grant = none)
    (same : ∀ i, db'.lease.job e.runKey = some i → i.place = j.place) : db'.Starts := by
  obtain ⟨granted₀, ordered₀⟩ := h.carry log st
  have split : ∀ f ∈ db'.events, f ∈ db.events ∨ f = e := by
    intro f hf
    simpa [Table.mem_def, rows] using hf
  have last : ∀ f ∈ db.events, f.sessionKey = e.sessionKey → f.sessionSeq < e.sessionSeq := by
    have hpair := log'.bySession.increasing
    rw [rows, List.pairwise_append] at hpair
    exact fun f hf => hpair.2.2 f hf e (List.mem_singleton_self e)
  -- a run started before has a grant, so it is before a run that waits without one
  have behind : ∀ f ∈ db.events, f.type = .runStarted → f.sessionKey = e.sessionKey →
      ∀ i, db'.lease.job f.runKey = some i → i.place < j.place := by
    intro f hf ht hs i hi
    obtain ⟨a, g, hg, hjob⟩ := h.granted f hf ht
    obtain ⟨i₀, hi₀, hq₀⟩ := log.job hf
    obtain ⟨i₁, hi₁, hq₁, -⟩ := inv.grant_job a g hg
    rw [hjob, hi₀] at hi₁
    cases hi₁
    have hlt := inv.behind _ j job queued unclaimed a g i₀ hg
      (hq₁.symm.trans (hq₀.trans (hs.trans queue.symm))) (by rw [hjob, hi₀])
    rcases st with heq | st
    · rw [heq, hi₀] at hi
      rwa [← Option.some.inj hi]
    · obtain ⟨i', hi', -, -, hp⟩ := st.job_stays hi₀
      rw [hi] at hi'
      rwa [Option.some.inj hi', hp]
  constructor
  · intro f hf ht
    rcases split f hf with hf | rfl
    · exact granted₀ f hf ht
    · exact granted
  · intro f hf f' hf' ht ht' hs hlt i i' hi hi'
    rcases split f hf with hf | rfl
    · rcases split f' hf' with hf' | rfl
      · exact ordered₀ f hf f' hf' ht ht' hs hlt i i' hi hi'
      · rw [same i' hi']
        exact behind f hf ht hs i hi
    · rcases split f' hf' with hf' | rfl
      · have := last f' hf' hs.symm
        omega
      · omega

/-- A recorded event that starts nothing. -/
theorem Records.old_starts {d : Deployment} {f : Files} {db db' : Db} {r : RunRow}
    {s : SessionRow} {e : EventRow} (h : Records d f db r s e db') (ht : e.type ≠ .runStarted) :
    ∀ e' ∈ db'.events, e'.type = .runStarted → e' ∈ db.events := by
  obtain ⟨events, now, actor, insert, rfl⟩ := h.result
  intro e' he' ht'
  rcases (Table.mem_insert? insert).1 he' with he' | rfl
  · exact he'
  · exact absurd ht' ht

theorem announcedBy_ne_started {target : RunStatus} (h : target ≠ .running) :
    announcedBy target ≠ .runStarted := by
  cases target <;> simp_all [announcedBy]

theorem Change.starts {d : Deployment} {π : Discipline} {f : Files} {n : Nat} {db db' : Db}
    (h : Change d π f n db db') (hrun : ¬ π.target .running) (hevent : ¬ π.event .runStarted)
    (inv : Lease.Inv db.lease) (log : db.EventLog) (starts : db.Starts) : db'.Starts := by
  have st := h.lease_properStep hrun
  have log' := h.eventLog log
  cases h with
  | addWorkspace | rebind | revise | addSession | tools | pendings =>
      exact starts.quiet log st fun e he _ => he
  | accept known insert record event =>
      refine starts.quiet log st ?_
      exact record.old_starts (by rw [event.2.2.1]; decide)
  | @claim db₁ c nowIso leaseUntil scopeId id binding workerId actor attempts r s e run candidate
      claimable earlier insert record event =>
      have hkey : e.runKey = (c.run.scopeId, c.run.id) := Prod.ext event.1 event.2.1
      have hclaim := record.lease.trans
        (Db.lease_startAttempt run candidate claimable.2.2.2.1 insert)
      have job' : db'.lease.job e.runKey = some
          { c.run.lease with phase := .held, grant := some (c.run.scopeId, id) } := by
        rw [hclaim, hkey]
        exact Function.update_self _ _ _
      obtain ⟨events, now, actor', insertEvent, hresult⟩ := record.result
      have rows : db'.events.rows = db.events.rows ++ [e] := by
        rw [hresult]
        exact (Table.insert?_eq_some.1 insertEvent).2
      refine starts.record inv log log' st rows ?_ (j := c.run.lease) ?_ ?_ ?_ ?_ ?_
      · refine ⟨(c.run.scopeId, id), Lease.Grant.issue (c.run.scopeId, c.run.id) c.run.lease
          c.session.lease c.workspace.lease, ?_, hkey.symm⟩
        rw [hclaim]
        exact Function.update_self _ _ _
      · rw [hkey]
        exact Db.lease_job run
      · obtain ⟨j', hj', hq⟩ := log'.job (e := e) (by simp [Table.mem_def, rows])
        rw [job'] at hj'
        rw [← hq, ← Option.some.inj hj']
      · exact RunStatus.phase_queued.2 claimable.1
      · exact (inv.grant_of_claimable (Db.lease_job run) (claimable.lease candidate)).1
      · intro i hi
        rw [job'] at hi
        rw [← Option.some.inj hi]
  | @move db₁ row after target outcome reason outputRef outputChars error extra now actor r s e run
      change allowed extra_allowed record event =>
      have hne : target ≠ .running := by rintro rfl; exact hrun allowed
      have old := record.old_starts (by rw [event.2.2.1]; exact announcedBy_ne_started hne)
      refine starts.quiet log st ?_
      split <;> exact old
  | @note db₁ r s e record allowed =>
      refine starts.quiet log st (record.old_starts ?_)
      intro ht
      rw [ht] at allowed
      exact hevent (allowed rfl)

theorem Reachable.starts {d : Deployment} {π : Discipline} {s : Store} (h : Reachable d π s)
    (hrun : ¬ π.target .running) (hevent : ¬ π.event .runStarted) : s.db.Starts := by
  have := h.db_invariant (I := fun db => Lease.Inv db.lease ∧ db.EventLog ∧ db.Starts)
    ⟨by rw [Db.lease_empty]; exact .initial, .empty, .empty⟩ ?_
  · exact this.2.2
  · rintro f n db db' c ⟨inv, log, starts⟩
    refine ⟨?_, c.eventLog log, c.starts hrun hevent inv log starts⟩
    rcases c.lease_properStep hrun with e | st
    · rw [e]
      exact inv
    · exact inv.step st

/-- In every reachable store a claim takes the first run of its session that is
not at its end, and the runs of a session were started in their order. -/
theorem Reachable.claims_in_order {d : Deployment} {π : Discipline} {s : Store}
    (h : Reachable d π s) (hrun : ¬ π.target .running) (hevent : ¬ π.event .runStarted) :
    s.ClaimsInOrder d ∧ s.db.StartsInOrder := by
  have inv := h.lease hrun
  have starts := h.starts hrun hevent
  constructor
  · intro scopeId workerId nowIso leaseUntil claimed t hclaim
    obtain ⟨c, a, binding, u, hc, -, hrun, -⟩ := claimNextRun_some hclaim
    have hid := (Db.run_eq_some.1 hrun).2.2
    obtain ⟨hr, hcand, hclaimable⟩ := Db.nextClaimable_spec hc
    refine ⟨c.run, hr, hid.symm, ?_⟩
    intro prior hprior hsc hsess hlt
    rcases inv.before_claimable (hclaimable.lease hcand) (Db.lease_job hprior)
      (Prod.ext hsc hsess) hlt with hp | ⟨hp, never⟩
    · exact .inl (RunStatus.phase_closed.1 hp)
    · refine .inr ⟨RunStatus.phase_ending.1 hp, ?_, ?_⟩
      · intro a ha hof
        exact never _ _ (Db.lease_grant ha) (Prod.ext hof.1 hof.2)
      · intro e he hk ht
        obtain ⟨a, g, hg, hjob⟩ := starts.granted e he ht
        exact never a g hg (hjob.trans hk)
  · intro e he f hf hte htf hs hlt r hr r' hr' hek hfk
    exact starts.ordered e he f hf hte htf hs hlt _ _ (by rw [hek]; exact Db.lease_job hr)
      (by rw [hfk]; exact Db.lease_job hr')

/-- Two messages of one session, one run after the other. -/
def Op.twoMessages : List Op :=
  [.openSession (.plain "ada" "p" "p") "s", .send (.plain "ada" "p" "p") 0 "m1" "hello",
    .send (.plain "ada" "p" "p") 0 "m2" "again", .claimAny,
    .transitionRun "ada" ⟨2⟩ 1 .succeeded { taskOutcome := some .completed } none, .claimAny]

/-- Both were started, in their order. -/
theorem Reachable.claims_in_order_twoMessages :
    let s := Op.execAll .plain Op.twoMessages {}
    (s.db.events.rows.filter fun e => e.type = .runStarted).map (fun e => (e.sessionSeq, e.runId)) =
        [(3, ⟨2⟩), (5, ⟨4⟩)] ∧ s.ClaimsInOrder .plain ∧ s.db.StartsInOrder := by
  refine ⟨by decide +kernel, Reachable.claims_in_order
    (π := { target := (· ≠ .running), event := (· ≠ .runStarted) }) (.execAll ?_) (by simp)
      (by simp)⟩
  intro op hop
  simp only [Op.twoMessages, List.mem_cons, List.not_mem_nil, or_false] at hop
  rcases hop with rfl | rfl | rfl | rfl | rfl | rfl
  · exact fun _ _ => trivial
  · exact fun _ => trivial
  · exact fun _ => trivial
  · trivial
  · exact ⟨by decide, trivial⟩
  · trivial

end CodeForge
