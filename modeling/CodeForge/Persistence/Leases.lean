import CodeForge.Lib.Lease
import CodeForge.Persistence.System

/-!
# The store keeps the lease protocol

A workspace is a resource, a session a queue that works on it, a run a job of
the queue and an attempt a grant.  `Db.lease` reads the columns that matter off
the tables; pointers are read together with the scope of their row, as the
foreign keys do.

Every change of the tables is a step of the lease protocol or does not touch it
(`Change.lease_step`).  Exclusion follows at once.  As long as nobody passes
RUNNING to `transition_run`, the whole invariant of the protocol holds in every
reachable store.
-/

namespace CodeForge

open Lib

/-! ## Reading the protocol off the tables -/

/-- What a status means for the leases. -/
def RunStatus.phase : RunStatus → Lease.Phase
  | .queued => .queued
  | .running | .waitingUser | .waitingExternal | .recovering => .held
  | .cancelling => .ending
  | .succeeded | .failed | .cancelled | .timedOut => .closed

/-- A pointer of a row, in the scope of the row. -/
def inScope (scopeId : String) (id : Option Uuid) : Option Key := id.map fun i => (scopeId, i)

@[simp] theorem inScope_eq_some {scopeId : String} {id : Option Uuid} {k : Key} :
    inScope scopeId id = some k ↔ k.1 = scopeId ∧ id = some k.2 := by
  obtain ⟨s, i⟩ := k
  simp only [inScope, Option.map_eq_some_iff, Prod.mk.injEq]
  constructor
  · rintro ⟨_, h, rfl, rfl⟩; exact ⟨rfl, h⟩
  · rintro ⟨rfl, h⟩; exact ⟨i, h, rfl, rfl⟩

@[simp] theorem inScope_eq_none {scopeId : String} {id : Option Uuid} :
    inScope scopeId id = none ↔ id = none := by simp [inScope]

/-- A workspace as a resource. -/
def WorkspaceRow.lease (w : WorkspaceRow) : Lease.Resource Key :=
  ⟨inScope w.scopeId w.activeAttemptId, w.workspaceEpoch⟩

/-- A session as a queue. -/
def SessionRow.lease (s : SessionRow) : Lease.Queue Key Key :=
  ⟨(s.scopeId, s.workspaceId), inScope s.scopeId s.activeRunId, s.executionEpoch, s.nextRunSeq⟩

/-- A run as a job. -/
def RunRow.lease (r : RunRow) : Lease.Job Key Key Key :=
  ⟨(r.scopeId, r.sessionId), (r.scopeId, r.workspaceId), r.runSeq, r.status.phase,
    inScope r.scopeId r.activeAttemptId⟩

/-- An attempt as a grant. -/
def AttemptRow.lease (a : AttemptRow) : Lease.Grant Key Key Key :=
  ⟨(a.scopeId, a.runId), (a.scopeId, a.sessionId), (a.scopeId, a.workspaceId), a.epoch,
    a.workspaceEpoch, a.endedAt.isNone⟩

/-- The tables as a state of the lease protocol. -/
def Db.lease (db : Db) : Lease.State Key Key Key Key where
  resource := db.workspaces.view WorkspaceRow.lease
  queue := db.sessions.view SessionRow.lease
  job := db.runs.view RunRow.lease
  grant := db.attempts.view AttemptRow.lease

theorem Db.lease_empty : ({} : Db).lease = Lease.State.initial := rfl

/-! ## Frames -/

theorem Records.lease {d : Deployment} {f : Files} {db db' : Db} {r : RunRow} {s : SessionRow}
    {e : EventRow} (h : Records d f db r s e db') : db'.lease = db.lease := by
  obtain ⟨events, now, actor, -, rfl⟩ := h.result
  simp only [Db.lease, Db.setEventSeqs]
  congr 1
  · rw [Table.view_updateIn_same]
    intro s
    rfl
  · rw [Table.view_updateIn_same]
    intro r
    rfl

/-! ## Claiming -/

/-- The selection of `claim_next_run` asks for what the protocol asks for. -/
theorem Db.Claimable.lease {db : Db} {nowIso : Timestamp} {scopeId : Option String}
    {c : Candidate} (h : db.Claimable nowIso scopeId c) (hc : db.candidate c.run = some c) :
    db.lease.Claimable c.run.lease c.session.lease c.workspace.lease := by
  obtain ⟨hq, -, hs, hw, hfirst, -⟩ := h
  obtain ⟨-, hsession, hworkspace⟩ := Db.candidate_eq_some.1 hc
  refine ⟨?_, ?_, ?_, ?_, ?_, ?_⟩
  · simp [RunRow.lease, hq, RunStatus.phase]
  · exact Table.view_of_getIn hsession _
  · exact Table.view_of_getIn hworkspace _
  · simp [SessionRow.lease, hs]
  · simp [WorkspaceRow.lease, hw]
  · intro k i hi hqueue hphase
    obtain ⟨r, hr, -, rfl⟩ := Table.view_eq_some.1 hi
    simp only [RunRow.lease, Prod.mk.injEq] at hqueue hphase ⊢
    have hstatus : r.status = .queued := by
      cases e : r.status <;> rw [e] at hphase <;> simp_all [RunStatus.phase]
    have := List.any_eq_false.1 hfirst r hr
    simpa [hqueue, hstatus] using this

theorem Db.lease_startAttempt {db : Db} {c : Candidate} {nowIso leaseUntil : Timestamp}
    {id : Uuid} {binding : Option UserBinding} {workerId actor : String}
    {attempts : Table AttemptRow} (run : c.run ∈ db.runs)
    (candidate : db.candidate c.run = some c) (free : c.workspace.activeAttemptId = none)
    (insert : db.attempts.insert? (c.attempt id binding workerId nowIso leaseUntil actor) =
      some attempts) :
    (db.startAttempt attempts c (c.attempt id binding workerId nowIso leaseUntil actor)
      actor).lease =
      db.lease.claim (c.run.scopeId, c.run.id) (c.run.scopeId, id) c.run.lease c.session.lease
        c.workspace.lease := by
  obtain ⟨-, hsession, hworkspace⟩ := Db.candidate_eq_some.1 candidate
  have hscope : c.session.scopeId = c.run.scopeId := (Db.session_eq_some.1 hsession).2.1
  rw [hscope] at hworkspace
  have hwscope : c.workspace.scopeId = c.run.scopeId := (Db.workspace_eq_some.1 hworkspace).2.1
  have hrun : db.run c.run.scopeId c.run.id = some c.run := Table.getIn_of_mem run
  simp only [Db.lease, Lease.State.claim, Db.startAttempt, Db.startRun, Db.occupyWorkspace,
    Db.occupySession, Candidate.attempt]
  congr 1
  · rw [Table.view_updateIn_of hworkspace]
    simp [WorkspaceRow.leaseFree, free, WorkspaceRow.occupy, WorkspaceRow.lease, hwscope,
      SessionRow.lease, hscope, inScope]
  · rw [Table.view_updateIn_of hsession]
    simp [SessionRow.occupy, SessionRow.lease, hscope, RunRow.lease, inScope]
  · rw [Table.view_updateIn_of hrun]
    simp [RunRow.start, RunRow.lease, RunStatus.phase, inScope]
  · rw [Table.view_insert? insert]
    simp [AttemptRow.lease, Candidate.attempt, Lease.Grant.issue, RunRow.lease,
      SessionRow.lease, WorkspaceRow.lease, hscope]

/-! ## Moving and closing -/

theorem RunStatus.phase_closed {status : RunStatus} :
    status.phase = .closed ↔ status.terminal = true := by
  cases status <;> simp [phase, terminal]

theorem RunStatus.phase_queued {status : RunStatus} : status.phase = .queued ↔ status = .queued := by
  cases status <;> simp [phase]

theorem RunStatus.phase_ending {status : RunStatus} :
    status.phase = .ending ↔ status = .cancelling := by
  cases status <;> simp [phase]

theorem RunStatus.phase_held {status : RunStatus} :
    status.phase = .held ↔ status.inFlight = true := by
  cases status <;> simp [phase, inFlight]

/-- Only a claim starts a run; apart from that, runs in flight were in flight. -/
theorem inFlight_of_edge {status target : RunStatus} (h : target ∈ allowedTransitions status)
    (hne : target ≠ .running) (ht : target.inFlight = true) : status.inFlight = true := by
  cases status with
  | queued =>
      rcases edge_from_queued h with rfl | rfl | rfl | rfl
      · exact absurd rfl hne
      all_goals cases ht
  | running | waitingUser | waitingExternal | recovering => rfl
  | cancelling => simp_all [allowedTransitions, RunStatus.inFlight]
  | succeeded | failed | cancelled | timedOut => simp [allowedTransitions] at h

theorem Db.lease_moveRun {db : Db} {row : RunRow} (run : row ∈ db.runs) (after : RunState)
    (outputRef : Option ObjectRef) (outputChars : Option Nat) (error : Option Json)
    (now : Timestamp) (actor : String) :
    (db.moveRun row.scopeId row.id row.stateVersion after outputRef outputChars error now
      actor).lease =
      { db.lease with
        job := Function.update db.lease.job (row.scopeId, row.id)
          (some { row.lease with phase := after.status.phase }) } := by
  have hrow : db.run row.scopeId row.id = some row := Table.getIn_of_mem run
  simp only [Db.lease, Db.moveRun]
  congr 1
  rw [Table.view_updateIn_of hrow, if_pos rfl]
  rfl

theorem WorkspaceRow.lease_vacate (w : WorkspaceRow) (now : Timestamp) (actor : String) :
    (w.vacate now actor).lease = { w.lease with holder := none } := rfl

theorem SessionRow.lease_vacate (s : SessionRow) (now : Timestamp) (actor : String) :
    (s.vacate now actor).lease = { s.lease with active := none } := rfl

theorem RunRow.lease_detach (r : RunRow) (now : Timestamp) (actor : String) :
    (r.detach now actor).lease = { r.lease with grant := none } := rfl

theorem AttemptRow.lease_finish (a : AttemptRow) (now : Timestamp) (actor : String) :
    (a.finish now actor).lease = { a.lease with isOpen := false } := rfl

theorem inScope_inj {scopeId : String} {a b : Option Uuid} :
    inScope scopeId a = inScope scopeId b ↔ a = b := by
  cases a <;> cases b <;> simp [inScope]

/-- Giving everything back, after the status became terminal, closes the job. -/
theorem Db.lease_release {db db₁ : Db} {row : RunRow}
    (moved : db₁.lease =
      { db.lease with
        job := Function.update db.lease.job (row.scopeId, row.id)
          (some { row.lease with phase := .closed }) })
    (now : Timestamp) (actor : String) :
    (db₁.release row now actor).lease = db.lease.close (row.scopeId, row.id) row.lease := by
  have hres : db₁.workspaces.view WorkspaceRow.lease = db.lease.resource :=
    congrArg Lease.State.resource moved
  have hqueue : db₁.sessions.view SessionRow.lease = db.lease.queue :=
    congrArg Lease.State.queue moved
  have hjob := congrArg Lease.State.job moved
  have hgrant : db₁.attempts.view AttemptRow.lease = db.lease.grant :=
    congrArg Lease.State.grant moved
  simp only [Db.lease] at hjob
  simp only [Db.release, Lease.State.close]
  rw [Db.lease, Lease.State.mk.injEq]
  refine ⟨?_, ?_, ?_, ?_⟩
  · rw [Table.updateIn, Table.view_updateWhere (φ := fun i w =>
      if i = row.lease.resource ∧ w.holder ≠ none ∧ w.holder = row.lease.grant then
        { w with holder := none } else w), hres]
    intro w
    have hcond : ((rowScope w, rowKey w) = row.lease.resource ∧ w.lease.holder ≠ none ∧
        w.lease.holder = row.lease.grant) ↔ (w.scopeId = row.scopeId ∧ w.id = row.workspaceId) ∧
          w.activeAttemptId ≠ none ∧ w.activeAttemptId = row.activeAttemptId := by
      constructor
      · rintro ⟨hk, hn, hg⟩
        obtain ⟨hs, hi⟩ := Prod.mk.inj hk
        have hs' : w.scopeId = row.scopeId := hs
        simp only [WorkspaceRow.lease, RunRow.lease, hs', inScope_inj] at hn hg
        exact ⟨⟨hs, hi⟩, by simpa using hn, hg⟩
      · rintro ⟨⟨hs, hi⟩, hn, hg⟩
        refine ⟨Prod.ext hs hi, by simpa [WorkspaceRow.lease] using hn, ?_⟩
        simp [WorkspaceRow.lease, RunRow.lease, hs, hg]
    by_cases h : (w.scopeId = row.scopeId ∧ w.id = row.workspaceId) ∧
        w.activeAttemptId ≠ none ∧ w.activeAttemptId = row.activeAttemptId
    · rw [if_pos (hcond.2 h), if_pos (by simpa using h.1),
        if_pos (by simpa [Option.isSome_iff_ne_none] using h.2), WorkspaceRow.lease_vacate]
    · rw [if_neg fun c => h (hcond.1 c)]
      split
      next hk =>
        rw [if_neg]
        intro c
        exact h ⟨by simpa using hk, by simpa [Option.isSome_iff_ne_none] using c⟩
      next => rfl
  · rw [Table.view_updateWhere (φ := fun _ k =>
      if k.active = some (row.scopeId, row.id) then { k with active := none } else k), hqueue]
    intro s
    have hcond : s.lease.active = some (row.scopeId, row.id) ↔
        s.scopeId = row.scopeId ∧ s.activeRunId = some row.id := by
      simp [SessionRow.lease, eq_comm]
    by_cases h : s.scopeId = row.scopeId ∧ s.activeRunId = some row.id
    · rw [if_pos (hcond.2 h), if_pos (by simpa using h), SessionRow.lease_vacate]
    · rw [if_neg fun c => h (hcond.1 c), if_neg (by simpa using h)]
  · have hmem : db₁.runs.view RunRow.lease (row.scopeId, row.id) =
        some { row.lease with phase := .closed } := by rw [hjob]; simp
    rw [Table.view_updateIn (c := { row.lease with phase := .closed, grant := none }) hmem, hjob,
      Function.update_idem]
    · rfl
    · intro r _ _ hl
      rw [RunRow.lease_detach, hl]
  · rw [Table.view_updateWhere (φ := fun i g =>
      if row.lease.grant = some i then { g with isOpen := false } else g), hgrant]
    intro a
    have hcond : row.lease.grant = some (rowScope a, rowKey a) ↔
        a.scopeId = row.scopeId ∧ row.activeAttemptId = some a.id := by
      simp [RunRow.lease]
    by_cases h : a.scopeId = row.scopeId ∧ row.activeAttemptId = some a.id
    · rw [if_pos (hcond.2 h), if_pos (by simpa using h), AttemptRow.lease_finish]
    · rw [if_neg fun c => h (hcond.1 c), if_neg (by simpa using h)]

/-! ## Refinement -/

/-- Every change of the tables is a step of the lease protocol, or none. -/
theorem Change.lease_step {d : Deployment} {π : Discipline} {f : Files} {n : Nat} {db db' : Db}
    (h : Change d π f n db db') :
    db'.lease = db.lease ∨
      Lease.Step (π.target .queued) (π.target .running) db.lease db'.lease := by
  cases h with
  | @addWorkspace w workspaces free bound insert =>
      right
      have hw : w.lease = ⟨none, 0⟩ := by simp [WorkspaceRow.lease, free.1, free.2, inScope]
      have heq : ({ db with workspaces } : Db).lease = { db.lease with
          resource := Function.update db.lease.resource (w.scopeId, w.id) (some ⟨none, 0⟩) } := by
        simp only [Db.lease, Table.view_insert? insert, hw]
        rfl
      rw [heq]
      exact .addResource (Table.view_of_insert? insert _ _)
  | @rebind scopeId w b now actor known project owner bound =>
      left
      simp only [Db.lease]
      rw [Table.view_updateIn_same]
      intro w
      rfl
  | revise =>
      left
      simp only [Db.lease]
      rw [Table.view_updateIn_same]
      intro w
      rfl
  | @addSession id scopeId workspaceId title externalRef now actor sessions requests w known insert =>
      right
      have heq : ({ db with sessions, sessionRequests := requests } : Db).lease = { db.lease with
          queue := Function.update db.lease.queue (scopeId, id)
            (some ⟨(scopeId, workspaceId), none, 0, 1⟩) } := by
        simp only [Db.lease, Table.view_insert? insert]
        rfl
      rw [heq]
      exact .addQueue (Table.view_of_insert? insert _ _) ⟨_, Table.view_of_getIn known _⟩
  | @accept db₁ id request s s₁ key fingerprint inputRef snapshotRef now actor runs r e known insert
      record event =>
      right
      have hs : s.scopeId = request.context.scopeId := (Db.session_eq_some.1 known).2.1
      have hqueue : db.lease.queue (request.context.scopeId, request.sessionId) = some s.lease :=
        Table.view_of_getIn known _
      have heq : (db₁.setNextRunSeq request.context.scopeId request.sessionId (s.nextRunSeq + 1)
          now actor).lease = { db.lease with
            job := Function.update db.lease.job (request.context.scopeId, id)
              (some ⟨(request.context.scopeId, request.sessionId), s.lease.resource,
                s.lease.nextPlace, .queued, none⟩)
            queue := Function.update db.lease.queue (request.context.scopeId, request.sessionId)
              (some { s.lease with nextPlace := s.lease.nextPlace + 1 }) } := by
        have hl : db₁.lease = ({ db with runs } : Db).lease := record.lease
        simp only [Db.lease, Lease.State.mk.injEq] at hl hqueue
        obtain ⟨h₁, h₂, h₃, h₄⟩ := hl
        simp only [Db.lease, Db.setNextRunSeq]
        rw [Table.view_updateIn (c := { s.lease with nextPlace := s.nextRunSeq + 1 })
          (by rw [h₂]; exact hqueue), h₁, h₂, h₃, h₄, Table.view_insert? insert]
        · congr 1
          simp [RunRow.lease, RunRow.accept, SessionRow.lease, hs, RunStatus.phase, inScope]
        · intro a _ _ ha
          rw [← ha]
          rfl
      rw [heq]
      exact .addJob (Table.view_of_insert? insert _ _) hqueue
  | @claim db₁ c nowIso leaseUntil scopeId id binding workerId actor attempts r s e run candidate
      claimable earlier insert record event =>
      right
      rw [record.lease, Db.lease_startAttempt run candidate claimable.2.2.2.1 insert]
      exact .claim (Table.view_of_mem run _) (claimable.lease candidate)
        (Table.view_of_insert? insert _ _)
  | @move db₁ row after target outcome reason outputRef outputChars error extra now actor r s e run
      change allowed extra_allowed record event =>
      right
      obtain ⟨-, edge, -, -, rfl⟩ := transition_eq_ok.1 change
      replace edge : target ∈ allowedTransitions row.status := edge
      have known : db.lease.job (row.scopeId, row.id) = some row.lease := Table.view_of_mem run _
      have live : row.lease.phase ≠ .closed := by
        intro hc
        rw [allowedTransitions_terminal (RunStatus.phase_closed.1 hc)] at edge
        cases edge
      have moved := record.lease.trans (Db.lease_moveRun run _ _ _ _ _ _)
      by_cases ht : target.terminal = true
      · rw [if_pos ht]
        have hphase : target.phase = .closed := RunStatus.phase_closed.2 ht
        simp only [RunState.moveTo, hphase] at moved
        rw [Db.lease_release moved]
        exact .close known live
      · rw [if_neg ht, moved]
        refine .move known live (fun c => ht (RunStatus.phase_closed.1 c)) (fun hh => ?_)
          fun hq => ?_
        · by_cases hr : target = .running
          · exact .inl (hr ▸ allowed)
          · exact .inr (RunStatus.phase_held.2 (inFlight_of_edge edge hr
              (RunStatus.phase_held.1 hh)))
        · have hq' : target = .queued := RunStatus.phase_queued.1 hq
          subst hq'
          exact ⟨allowed, RunStatus.phase_held.2 (queued_of_edge edge)⟩
  | note record allowed => exact .inl record.lease
  | tools => exact .inl rfl
  | pendings => exact .inl rfl

/-- Where nobody passes RUNNING, held jobs have grants. -/
theorem Change.lease_properStep {d : Deployment} {π : Discipline} {f : Files} {n : Nat}
    {db db' : Db} (h : Change d π f n db db') (hrun : ¬ π.target .running) :
    db'.lease = db.lease ∨ Lease.Step (π.target .queued) False db.lease db'.lease := by
  have st := h.lease_step
  rwa [eq_false hrun] at st

/-- What every step of the lease protocol keeps holds of the leases, whatever callers pass. -/
theorem Reachable.lease_invariant {d : Deployment} {π : Discipline} {s : Store}
    (h : Reachable d π s) {I : Lease.State Key Key Key Key → Prop} (initial : I .initial)
    (step : ∀ {a b}, Lease.Step (π.target .queued) (π.target .running) a b → I a → I b) :
    I s.db.lease := by
  refine h.db_invariant (I := fun db => I db.lease) ?_ ?_
  · rw [Db.lease_empty]
    exact initial
  · intro f n db db' c inv
    rcases c.lease_step with e | st
    · rw [e]
      exact inv
    · exact step st inv

/-- A workspace is held by its live attempt, whatever callers pass. -/
theorem Reachable.exclusive {d : Deployment} {π : Discipline} {s : Store}
    (h : Reachable d π s) : s.db.lease.Exclusive :=
  h.lease_invariant .initial fun st inv => inv.step st

/-- No attempt has an epoch to come, whatever callers pass. -/
theorem Reachable.counted {d : Deployment} {π : Discipline} {s : Store}
    (h : Reachable d π s) : s.db.lease.Counted :=
  h.lease_invariant .initial fun st inv => inv.step st

/-- Runs have their sessions, and sessions their workspaces, whatever callers pass. -/
theorem Reachable.grounded {d : Deployment} {π : Discipline} {s : Store}
    (h : Reachable d π s) : s.db.lease.Grounded :=
  h.lease_invariant .initial fun st inv => inv.step st

/-- A workspace that is occupied gave its epoch to its attempt, whatever callers pass. -/
theorem Reachable.stamped {d : Deployment} {π : Discipline} {s : Store}
    (h : Reachable d π s) : s.db.lease.Stamped :=
  h.lease_invariant .initial fun st inv => inv.step st

/-- An attempt keeps its workspace and its epoch there, whatever callers pass. -/
theorem Steps.grant {d : Deployment} {π : Discipline} {s t : Store} (st : Steps d π s t) {a : Key}
    {g : Lease.Grant Key Key Key} (known : s.db.lease.grant a = some g) :
    ∃ g', t.db.lease.grant a = some g' ∧ g'.resource = g.resource ∧
      g'.resourceEpoch = g.resourceEpoch := by
  refine st.preserves (I := fun _ _ db => ∃ g', db.lease.grant a = some g' ∧
    g'.resource = g.resource ∧ g'.resourceEpoch = g.resourceEpoch) (fun _ _ h => h) ?_
      ⟨g, known, rfl, rfl⟩
  rintro f n db db' c ⟨g₁, now_, resource, stamp⟩
  rcases c.lease_step with same | step
  · rw [same]
    exact ⟨g₁, now_, resource, stamp⟩
  · obtain ⟨g₂, later, resource', stamp'⟩ := step.grant now_
    exact ⟨g₂, later, resource'.trans resource, stamp'.trans stamp⟩

/-- The invariant of the lease protocol holds in every reachable store. -/
theorem Reachable.lease {d : Deployment} {π : Discipline} {s : Store} (h : Reachable d π s)
    (hrun : ¬ π.target .running) : Lease.Inv s.db.lease := by
  refine h.db_invariant (I := fun db => Lease.Inv db.lease) ?_ ?_
  · rw [Db.lease_empty]
    exact .initial
  · intro f n db db' c inv
    rcases c.lease_properStep hrun with e | st
    · rw [e]
      exact inv
    · exact inv.step st

end CodeForge
