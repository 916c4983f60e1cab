import CodeForge.Lib.Trace
import CodeForge.Persistence.Acceptance
import CodeForge.Persistence.Numbering

/-!
# The events of a run follow the state machine

Three pieces of code write the status of a run: `transition_run`, the update in
`claim_next_run` and `_transition_run_locked`.  Each counts the version up and
records an event.  `Db.Progress` says what all of them amount to, one change of
`transition` on the columns of the run and one event that denotes the new status.

So the lifecycle events of a run are a path of `allowedTransitions` to its stored
status, one step for each version (`Reachable.lifecycle`).
-/

namespace CodeForge

open Lib

/-! ## What a run came to -/

/-- The state of a run, its output and its error. -/
structure RunResult where
  state : RunState := {}
  outputRef : Option ContentPath := none
  outputDigest : Option String := none
  outputChars : Option Nat := none
  error : Option Json := none

def RunRow.result (r : RunRow) : RunResult where
  state := r.state
  outputRef := r.outputRef
  outputDigest := r.outputDigest
  outputChars := r.outputChars
  error := r.error

/-- The result of each run. -/
def Db.results (db : Db) : Key → Option RunResult := db.runs.view RunRow.result

/-- The status the body of an event names. -/
def statusOf (data : Json) : Option RunStatus :=
  match data.get? "status" with
  | some (.str s) => RunStatus.ofValue? s
  | _ => none

/-- The status a lifecycle event denotes. -/
def EventRow.denotes (e : EventRow) : Option RunStatus :=
  match e.type with
  | .runAccepted | .runResumed => some .queued
  | .runStarted => some .running
  | .runRecovering => some .recovering
  | .runCancelRequested => some .cancelling
  | .runWaiting => (statusOf e.data).filter RunStatus.waiting
  | .runFinished => (statusOf e.data).filter RunStatus.terminal
  | _ => none

/-- The lifecycle events of all runs, in the order they were recorded. -/
def Db.lifecycle (db : Db) : List EventRow := db.events.rows.filter fun e => e.type.lifecycle

theorem EventRow.terminal_of_finished {e : EventRow} (h : e.type = .runFinished)
    {status : RunStatus} (hd : e.denotes = some status) : status.terminal = true := by
  rw [denotes, h] at hd
  exact (Option.filter_eq_some_iff.1 hd).2

theorem EventRow.finished_of_terminal {e : EventRow} {status : RunStatus}
    (hd : e.denotes = some status) (terminal : status.terminal = true) : e.type = .runFinished := by
  cases ht : e.type with
  | runFinished => rfl
  | runWaiting =>
      rw [denotes, ht] at hd
      have waiting := (Option.filter_eq_some_iff.1 hd).2
      cases status <;> simp_all [RunStatus.waiting, RunStatus.terminal]
  | _ =>
      rw [denotes, ht] at hd
      cases hd <;> cases terminal

theorem announcedBy_lifecycle (status : RunStatus) : (announcedBy status).lifecycle = true := by
  cases status <;> rfl

/-- The event of a change denotes its target. -/
theorem EventRow.denotes_transition {d : Deployment} {e : EventRow} {after : RunState}
    {reason : Option String} {outputRef : Option ObjectRef} {error : Option (List (String × Json))}
    (type : e.type = announcedBy after.status)
    (data : e.data = transitionData d after reason outputRef error []) :
    e.denotes = some after.status := by
  rw [denotes, type, data]
  cases h : after.status <;>
    simp [announcedBy, transitionData, h, statusOf, Json.get?, RunStatus.waiting,
      RunStatus.terminal]

/-! ## What a change does to lifecycles -/

/-- The event is one of a run and of its session. -/
def Db.Owns (db : Db) (e : EventRow) : Prop :=
  ∃ a ∈ db.acceptances, a.key = e.runKey ∧ a.sessionId = e.sessionId

/-- The lifecycles stay, a run is accepted, or one makes a step of the state machine. -/
inductive Db.Progress (db db' : Db) : Prop
  | still (runs : db'.acceptances = db.acceptances) (events : db'.lifecycle = db.lifecycle)
      (results : db'.results = db.results)
  | accepted {e : EventRow} {a : Acceptance} (fresh : db.results e.runKey = none)
      (type : e.type = .runAccepted) (denotes : e.denotes = some .queued)
      (owner : a.key = e.runKey ∧ a.sessionId = e.sessionId)
      (runs : db'.acceptances = db.acceptances ++ [a])
      (events : db'.lifecycle = db.lifecycle ++ [e])
      (results : db'.results = Function.update db.results e.runKey (some {}))
  | moved {e : EventRow} {old new : RunResult} {outcome : Option TaskOutcome}
      {reason : Option String} (known : db.results e.runKey = some old)
      (change : transition old.state new.state.status old.state.stateVersion outcome reason =
        .ok new.state)
      (type : e.type ≠ .runAccepted) (denotes : e.denotes = some new.state.status)
      (owner : db.Owns e) (runs : db'.acceptances = db.acceptances)
      (events : db'.lifecycle = db.lifecycle ++ [e])
      (results : db'.results = Function.update db.results e.runKey (some new))

theorem announcedBy_ne_accepted (status : RunStatus) : announcedBy status ≠ .runAccepted := by
  cases status <;> exact EventType.noConfusion

theorem Records.owns {d : Deployment} {f : Files} {db db' : Db} {r : RunRow}
    {s : SessionRow} {e : EventRow} (h : Records d f db r s e db') : db.Owns e := by
  obtain ⟨hmem, hscope, hid⟩ := Db.run_eq_some.1 h.run
  exact ⟨r.acceptance, Db.mem_acceptances.2 ⟨r, hmem, rfl⟩, Prod.ext hscope hid, h.ofRun.symm⟩

/-- Recording an event touches no result. -/
theorem Records.lifecycle_append {d : Deployment} {f : Files} {db db' : Db} {r : RunRow}
    {s : SessionRow} {e : EventRow} (h : Records d f db r s e db') :
    db'.results = db.results ∧
      db'.lifecycle = db.lifecycle ++ if e.type.lifecycle then [e] else [] := by
  obtain ⟨events, now, actor, insert, rfl⟩ := h.result
  constructor
  · simp only [Db.results, Db.setEventSeqs]
    rw [Table.view_updateIn_same]
    intro r
    rfl
  · simp only [Db.lifecycle, Db.setEventSeqs]
    rw [(Table.insert?_eq_some.1 insert).2, List.filter_append]
    simp [List.filter_cons]

theorem Change.progress {d : Deployment} {π : Discipline} {f : Files} {n : Nat} {db db' : Db}
    (h : Change d π f n db db') (hextra : ∀ extra, π.extra extra → extra = [])
    (hevent : ∀ type : EventType, type.lifecycle = true → ¬ π.event type)
    (lawful : ∀ k x, db.results k = some x → x.state.Lawful) : db.Progress db' := by
  cases h with
  | addWorkspace | rebind | revise | addSession | tools | pendings => exact .still rfl rfl rfl
  | @accept db₁ id request s s₁ key fingerprint inputRef snapshotRef now actor runs r e known insert
      record event =>
      obtain ⟨hresults, hevents⟩ := record.lifecycle_append
      obtain ⟨hscope, hid, htype, -⟩ := event
      have hkey : e.runKey = (request.context.scopeId, id) := Prod.ext hscope hid
      -- the run of the event is the one just inserted
      have hr : r = .accept id request s.workspaceId s.nextRunSeq key fingerprint inputRef
          snapshotRef now actor :=
        Table.eq_of_key (Db.run_eq_some.1 record.run).1 (Table.new_mem_insert? insert)
          ((Db.run_eq_some.1 record.run).2.2.trans hid)
      refine .accepted (e := e) (a := r.acceptance) ?_ htype (by rw [EventRow.denotes, htype])
        ⟨?_, record.ofRun.symm⟩ ?_ ?_ ?_
      · rw [hkey]
        exact Table.view_of_insert? insert _ _
      · rw [hkey, hr]
        rfl
      · refine record.acceptances.1.trans ?_
        rw [Db.acceptances, (Table.insert?_eq_some.1 insert).2, List.map_append, hr]
        rfl
      · rw [htype] at hevents
        exact hevents
      · rw [hkey]
        exact hresults.trans (Table.view_insert? insert _)
  | @claim db₁ c nowIso leaseUntil scopeId id binding workerId actor attempts r s e run candidate
      claimable earlier insert record event =>
      obtain ⟨hresults, hevents⟩ := record.lifecycle_append
      obtain ⟨hscope, hid, htype, -⟩ := event
      have hkey : e.runKey = (c.run.scopeId, c.run.id) := Prod.ext hscope hid
      have hrun : db.run c.run.scopeId c.run.id = some c.run := Table.getIn_of_mem run
      have known : db.results e.runKey = some c.run.result := by
        rw [hkey]
        exact Table.view_of_getIn hrun _
      have started := (db.startAttempt_acceptances attempts c
        (c.attempt id binding workerId nowIso leaseUntil actor) actor).1
      let running : RunResult :=
        { c.run.result with
          state :=
            { c.run.state with status := .running, stateVersion := c.run.stateVersion + 1 } }
      have change : transition c.run.result.state running.state.status c.run.result.state.stateVersion
          none none = .ok running.state := transition_running (lawful _ _ known) claimable.1
      refine .moved (e := e) known change (by rw [htype]; decide)
        (by rw [EventRow.denotes, htype]) ?_ ?_ ?_ ?_
      · obtain ⟨a, ha, howner⟩ := record.owns
        exact ⟨a, started ▸ ha, howner⟩
      · exact record.acceptances.1.trans started
      · rw [htype] at hevents
        exact hevents
      · rw [hresults, hkey]
        simp only [Db.results, Db.startAttempt, Db.startRun, Db.occupyWorkspace,
          Db.occupySession, Candidate.attempt]
        rw [Table.view_updateIn_of hrun, if_pos rfl]
        rfl
  | @move db₁ row after target outcome reason outputRef outputChars error extra now actor r s e run
      change allowed extra_allowed record event =>
      obtain ⟨hresults, hevents⟩ := record.lifecycle_append
      obtain ⟨hscope, hid, htype, hdata⟩ := event
      have hkey : e.runKey = (row.scopeId, row.id) := Prod.ext hscope hid
      have hrow : db.run row.scopeId row.id = some row := Table.getIn_of_mem run
      have hstatus : after.status = target := by
        obtain ⟨-, -, -, -, rfl⟩ := transition_eq_ok.1 change
        rfl
      subst hstatus
      rw [hextra _ extra_allowed] at hdata
      rw [htype, announcedBy_lifecycle, if_pos rfl] at hevents
      have moved := Db.moveRun_acceptances db row.scopeId row.id row.stateVersion after outputRef
        outputChars (storedError error) now actor
      have released : (if after.status.terminal then db₁.release row now actor else db₁).results =
          db₁.results := by
        split
        · simp only [Db.results, Db.release]
          rw [Table.view_updateIn_same]
          intro r
          rfl
        · rfl
      let new := (row.moveTo after outputRef outputChars (storedError error) now actor).result
      have known : db.results e.runKey = some row.result := by
        rw [hkey]
        exact Table.view_of_getIn hrow _
      have change : transition row.result.state new.state.status row.result.state.stateVersion
          outcome reason = .ok new.state := change
      refine .moved (e := e) known change (by rw [htype]; exact announcedBy_ne_accepted _)
        (EventRow.denotes_transition htype hdata) ?_ ?_ ?_ ?_
      · obtain ⟨a, ha, howner⟩ := record.owns
        exact ⟨a, moved ▸ ha, howner⟩
      · rw [← moved, ← record.acceptances.1]
        split
        · exact (db₁.release_acceptances row now actor).1
        · rfl
      · split <;> exact hevents
      · rw [released, hresults, hkey]
        simp only [Db.results, Db.moveRun]
        rw [Table.view_updateIn_of hrow, if_pos rfl]
  | @note db₁ r s e record allowed =>
      obtain ⟨hresults, hevents⟩ := record.lifecycle_append
      have quiet : e.type.lifecycle = false := by
        cases ht : e.type.lifecycle with
        | false => rfl
        | true => exact absurd (allowed ht) (hevent _ ht)
      rw [quiet] at hevents
      exact .still record.acceptances.1 (by simpa using hevents) hresults

/-! ## The refinement -/

/-- The edges of the state machine. -/
def Edge (status target : RunStatus) : Prop := target ∈ allowedTransitions status

/-- The lifecycle events of every run lead to its state, and the state is lawful. -/
structure Db.Refines (db : Db) : Prop where
  traced : Traced EventRow.runKey EventRow.denotes Edge .queued db.lifecycle
    fun k => (db.results k).map fun x => (x.state.status, x.state.stateVersion)
  lawful : ∀ k x, db.results k = some x → x.state.Lawful

theorem Db.Refines.empty : ({} : Db).Refines where
  traced := .empty
  lawful := by rintro k x ⟨⟩

theorem Db.Progress.refines {db db' : Db} (h : db.Progress db') (inv : db.Refines) :
    db'.Refines := by
  cases h with
  | still runs events results =>
      constructor
      · rw [events, results]
        exact inv.traced
      · rw [results]
        exact inv.lawful
  | @accepted e a fresh type denotes owner runs events results =>
      constructor
      · rw [events, results]
        convert inv.traced.start (e := e) (by rw [fresh]; rfl) denotes using 1
        funext k
        rw [Function.update_apply, Function.update_apply]
        split <;> rfl
      · intro k x hx
        rw [results, Function.update_apply] at hx
        split at hx
        · cases hx
          exact lawful_initial
        · exact inv.lawful k x hx
  | @moved e old new outcome reason known change type denotes owner runs events results =>
      obtain ⟨edge, version⟩ := transition_edge change
      constructor
      · rw [events, results]
        convert inv.traced.move (e := e) (by rw [known]; rfl) denotes edge using 1
        funext k
        rw [Function.update_apply, Function.update_apply]
        split
        · rw [Option.map_some, version]
        · rfl
      · intro k x hx
        rw [results, Function.update_apply] at hx
        split at hx
        · cases hx
          exact transition_lawful change
        · exact inv.lawful k x hx

/-- A result with a terminal status stays. -/
theorem Db.Progress.terminal {db db' : Db} (h : db.Progress db') {k : Key} {x : RunResult}
    (hk : db.results k = some x) (terminal : x.state.status.terminal = true) :
    db'.results k = some x := by
  cases h with
  | still runs events results => rw [results, hk]
  | @accepted e a fresh type denotes owner runs events results =>
      rw [results, Function.update_of_ne, hk]
      rintro rfl
      rw [fresh] at hk
      cases hk
  | @moved e old new outcome reason known change type denotes owner runs events results =>
      rw [results, Function.update_of_ne, hk]
      rintro rfl
      rw [known] at hk
      cases hk
      have edge := (transition_edge change).1
      rw [allowedTransitions_terminal terminal] at edge
      cases edge

section Reachable

variable {d : Deployment} {π : Discipline} (hextra : ∀ extra, π.extra extra → extra = [])
  (hevent : ∀ type : EventType, type.lifecycle = true → ¬ π.event type)

include hextra hevent

theorem Reachable.refines {s : Store} (h : Reachable d π s) : s.db.Refines :=
  h.db_invariant .empty fun c inv => (c.progress hextra hevent inv.lawful).refines inv

theorem Steps.terminal {s t : Store} (st : Steps d π s t) (inv : s.db.Refines) {k : Key}
    {x : RunResult} (hk : s.db.results k = some x) (terminal : x.state.status.terminal = true) :
    t.db.results k = some x := by
  refine (st.preserves (I := fun _ _ db => db.Refines ∧ db.results k = some x)
    (fun _ _ h => h) ?_ ⟨inv, hk⟩).2
  rintro f n db db' c ⟨inv, hk⟩
  have progress := c.progress hextra hevent inv.lawful
  exact ⟨progress.refines inv, progress.terminal hk terminal⟩

end Reachable

/-- What the callers in the repository keep to: no extra data, and no event of a
lifecycle but by a change of it. -/
def Discipline.callers : Discipline where
  extra := fun extra => extra = []
  event := fun type => type.lifecycle = false
  extra_nil := rfl

theorem Discipline.callers_extra {extra : List (String × Json)}
    (h : Discipline.callers.extra extra) : extra = [] := h

theorem Discipline.callers_event {type : EventType} (h : type.lifecycle = true) :
    ¬ Discipline.callers.event type := fun quiet =>
  Bool.noConfusion (h.symm.trans quiet)

/-! ## Every run -/

/-- The lifecycle events of a run. -/
def Db.runLifecycle (db : Db) (r : RunRow) : List EventRow :=
  (db.runEvents r).filter fun e => e.type.lifecycle

/-- The events of a run determine its state. -/
structure Db.Determined (db : Db) (r : RunRow) : Prop where
  /-- The events are taken in the order of their numbers. -/
  ordered : (db.runLifecycle r).Pairwise fun e f => e.seq < f.seq
  path : ∃ p : List RunStatus, (db.runLifecycle r).map EventRow.denotes = p.map some ∧
    p.head? = some .queued ∧ p.IsChain (fun status target => target ∈ allowedTransitions status) ∧
      p.getLast? = some r.status ∧ p.length = r.stateVersion + 1
  reason : givenReason r.waitReason = true ↔
    r.status = .waitingUser ∨ r.status = .waitingExternal
  outcome : r.taskOutcome ≠ none ↔ r.status = .succeeded
  finished : ∀ e ∈ db.runEvents r, ∀ f ∈ db.runEvents r,
    e.type = .runFinished → f.type = .runFinished → e = f

theorem Db.runLifecycle_eq (db : Db) (r : RunRow) :
    db.runLifecycle r = db.lifecycle.filter fun e => e.runKey = (r.scopeId, r.id) := by
  simp only [runLifecycle, runEvents, lifecycle, List.filter_filter, Bool.and_comm]

/-- A run that announced its end is at its end. -/
theorem Db.Refines.finished {db : Db} (inv : db.Refines) {r : RunRow} (hr : r ∈ db.runs)
    {e : EventRow} (he : e ∈ db.runEvents r) (ht : e.type = .runFinished) :
    (db.runLifecycle r).getLast? = some e ∧ r.status.terminal = true := by
  obtain ⟨hmem, hk⟩ := List.mem_filter.1 he
  have hk : e.runKey = (r.scopeId, r.id) := of_decide_eq_true hk
  have loud : e ∈ db.lifecycle := List.mem_filter.2 ⟨hmem, by rw [ht]; rfl⟩
  have known : db.results (r.scopeId, r.id) = some r.result := Table.view_of_mem hr _
  obtain ⟨status, hstatus⟩ := inv.traced.denotes_of_mem loud
  have terminal := EventRow.terminal_of_finished ht hstatus
  have stuck : ∀ u, ¬ Edge status u := by
    intro u hu
    rw [Edge, allowedTransitions_terminal terminal] at hu
    cases hu
  obtain ⟨last, n, hn⟩ := inv.traced.final loud hstatus stuck
  rw [hk] at last hn
  rw [known] at hn
  cases hn
  exact ⟨by rw [Db.runLifecycle_eq]; exact last, terminal⟩

/-- The events of every run are a path of the state machine to its stored state; and
after its end nothing changes its result. -/
theorem Reachable.lifecycle {d : Deployment} {π : Discipline} {s : Store} (h : Reachable d π s)
    (hextra : ∀ extra, π.extra extra → extra = [])
    (hevent : ∀ type : EventType, type.lifecycle = true → ¬ π.event type) {r : RunRow}
    (hr : r ∈ s.db.runs) :
    s.db.Determined r ∧ ∀ e ∈ s.db.runEvents r, e.type = .runFinished →
      ∀ t, Steps d π s t → ∃ r', t.db.run r.scopeId r.id = some r' ∧ r'.result = r.result := by
  have inv := h.refines hextra hevent
  have log := h.eventLog
  have known : s.db.results (r.scopeId, r.id) = some r.result := Table.view_of_mem hr _
  refine ⟨⟨?_, ?_, ?_, (inv.lawful _ _ known).outcome, ?_⟩, ?_⟩
  · obtain ⟨k, -, hseq⟩ := log.dense.run r hr
    have sorted : ((s.db.runEvents r).map EventRow.seq).Pairwise (· < ·) := by
      rw [hseq]
      exact List.pairwise_lt_range'
    exact (List.pairwise_map.1 sorted).filter _
  · rw [Db.runLifecycle_eq]
    exact inv.traced.path (r.scopeId, r.id) r.status r.stateVersion (by rw [known]; rfl)
  · rw [show givenReason r.waitReason = true ↔ r.status.waiting = true from
      (inv.lawful _ _ known).reason]
    cases r.status <;> simp [RunStatus.waiting]
  · intro e he f hf hte htf
    have last := (inv.finished hr he hte).1
    rw [(inv.finished hr hf htf).1] at last
    exact (Option.some.inj last).symm
  · intro e he ht t st
    have stays := st.terminal hextra hevent inv known (inv.finished hr he ht).2
    obtain ⟨r', hr', hk, hres⟩ := Table.view_eq_some.1 stays
    exact ⟨r', Db.run_eq_some.2 ⟨hr', Prod.mk.inj hk⟩, hres⟩

/-- The run of the first claim succeeds. -/
def Op.firstSuccess : List Op :=
  Op.firstClaim ++ [.transitionRun "ada" ⟨2⟩ 1 .succeeded
    { taskOutcome := some .completed, output := some "done" } none]

theorem Op.firstSuccess_obeys : ∀ op ∈ Op.firstSuccess, op.Obeys .callers := by
  intro op hop
  rcases List.mem_append.1 hop with hop | hop
  · exact Op.firstClaim_obeys trivial trivial op hop
  · rw [List.mem_singleton.1 hop]
    exact ⟨trivial, rfl⟩

/-- Its three events lead to success, for good. -/
theorem Reachable.lifecycle_firstSuccess :
    let s := Op.execAll .plain Op.firstSuccess {}
    ∃ r ∈ s.db.runs, r.status = .succeeded ∧ r.stateVersion = 2 ∧ s.db.Determined r ∧
      ∀ t, Steps .plain { extra := (· = []), event := fun type => type.lifecycle = false } s t →
        ∃ r', t.db.run r.scopeId r.id = some r' ∧ r'.result = r.result := by
  let π : Discipline := { extra := (· = []), event := fun type => type.lifecycle = false }
  have reach : Reachable .plain π (Op.execAll .plain Op.firstSuccess {}) :=
    .execAll Op.firstSuccess_obeys
  have ended : let s := Op.execAll .plain Op.firstSuccess {}
      ∃ r ∈ s.db.runs.rows, r.status = .succeeded ∧ r.stateVersion = 2 ∧
        ∃ e ∈ s.db.runEvents r, e.type = .runFinished := by decide +kernel
  generalize Op.execAll .plain Op.firstSuccess {} = s at ended reach ⊢
  obtain ⟨r, hr, status, version, e, he, ht⟩ := ended
  have holds := reach.lifecycle (fun _ h => h) (fun type h => by simp [π, h]) hr
  exact ⟨r, hr, status, version, holds.1, holds.2 e he ht⟩

end CodeForge
