import CodeForge.Persistence.Acceptance
import CodeForge.Persistence.Numbering

/-!
# Changes of status, as their callers see them

In a reachable store nothing stands in the way of an event: its identifier is new, its two
numbers are free, and the session of its run is there.  `Db.Ready` says so, and an event of
a known run is then always recorded (`insertEventLocked_total`).

It follows how `transition_run` ends.  It goes through exactly if the run is there and the
state machine permits the change (`transitionRun_total`, `transitionRun_refused`), and what
it does then is one change of the run and one event (`transitionRun_spec`).

The status of every run follows the edges of the state machine, whoever moves it
(`Steps.statuses`).
-/

namespace CodeForge

open Lib StoreM

/-! ## Room for events -/

/-- An event of any run may be recorded. -/
structure Db.Ready (db : Db) (drawn : Nat) : Prop where
  log : db.EventLog
  fresh : ∀ e ∈ db.events, e.eventId.draw < drawn
  /-- The session of a run is there. -/
  home : ∀ k sessionId, db.runs.view RunRow.sessionId k = some sessionId →
    ∃ n, db.sessions.view SessionRow.nextEventSeq (k.1, sessionId) = some n

/-- Rewriting other columns leaves room for events. -/
theorem Db.Ready.frame {db db' : Db} {m n : Nat} (h : db.Ready m) (hmn : m ≤ n)
    (events : db'.events = db.events)
    (next : db'.runs.view RunRow.nextEventSeq = db.runs.view RunRow.nextEventSeq)
    (session : db'.runs.view RunRow.sessionId = db.runs.view RunRow.sessionId)
    (sessionNext : db'.sessions.view SessionRow.nextEventSeq =
      db.sessions.view SessionRow.nextEventSeq) : db'.Ready n where
  log := h.log.frame events next session sessionNext
  fresh := by
    rw [events]
    exact fun e he => Nat.lt_of_lt_of_le (h.fresh e he) hmn
  home := by
    rw [session, sessionNext]
    exact h.home

/-- Events carry identifiers drawn before. -/
theorem Change.event_drawn {d : Deployment} {π : Discipline} {f : Files} {n : Nat} {db db' : Db}
    (c : Change d π f n db db') (old : ∀ e ∈ db.events, e.eventId.draw < n) :
    ∀ e ∈ db'.events, e.eventId.draw < n := by
  rcases c.events with same | ⟨e, -, fresh, added⟩
  · rw [same]
    exact old
  · intro e' he'
    rw [Table.mem_def, added, List.mem_append, List.mem_singleton] at he'
    rcases he' with he' | rfl
    · exact old e' he'
    · exact fresh

theorem Db.Placed.home {db : Db} (placed : db.Placed) {k : Key} {sessionId : Uuid}
    (h : db.runs.view RunRow.sessionId k = some sessionId) :
    ∃ s ∈ db.sessions, (s.scopeId, s.id) = (k.1, sessionId) := by
  obtain ⟨r, hr, rfl, rfl⟩ := Table.view_eq_some.1 h
  obtain ⟨s, hs, hk⟩ := placed.sessionKey (Db.mem_acceptances.2 ⟨r, hr, rfl⟩)
  exact ⟨s, hs, hk.symm⟩

theorem Db.Placed.ready {db : Db} {n : Nat} (placed : db.Placed) (log : db.EventLog)
    (fresh : ∀ e ∈ db.events, e.eventId.draw < n) : db.Ready n where
  log := log
  fresh := fresh
  home k sessionId hk := by
    obtain ⟨ss, hss, hkey⟩ := placed.home hk
    exact ⟨ss.nextEventSeq, Table.view_eq_some.2 ⟨ss, hss, hkey, rfl⟩⟩

/-- Steps keep room for events, whatever the content files are. -/
theorem Steps.ready {d : Deployment} {π : Discipline} {s t : Store} (st : Steps d π s t)
    (placed : s.db.Placed) (ready : s.db.Ready s.drawn) : t.db.Ready t.drawn := by
  have kept : t.db.Placed ∧ t.db.Ready t.drawn := by
    refine st.preserves (I := fun _ n db => db.Placed ∧ db.Ready n) ?_ ?_ ⟨placed, ready⟩
    · rintro f g m n db - hmn ⟨placed, ready⟩
      exact ⟨placed, ready.frame hmn rfl rfl rfl rfl⟩
    · rintro f n db db' c ⟨placed, ready⟩
      have placed' := c.placed placed
      exact ⟨placed', placed'.ready (c.eventLog ready.log) (c.event_drawn ready.fresh)⟩
  exact kept.2

theorem Reachable.ready {d : Deployment} {π : Discipline} {s : Store} (h : Reachable d π s) :
    s.db.Ready s.drawn := by
  refine Steps.ready h .empty (Db.Placed.ready .empty .empty ?_)
  intro e he
  exact absurd he (Table.not_mem_empty e)

variable {d : Deployment} {π : Discipline} {s t : Store} {scopeId : String} {runId : Uuid}

/-- An event of a known run is recorded. -/
theorem insertEventLocked_total (ready : s.db.Ready s.drawn) {r : RunRow}
    (run : s.db.run scopeId runId = some r) (type : EventType) (data : Json) (actor : String)
    (occurredAt : Timestamp) :
    Ends (insertEventLocked d scopeId runId type data actor occurredAt) s := by
  obtain ⟨hr, rfl, rfl⟩ := Db.run_eq_some.1 run
  have hnext := Table.view_of_mem hr RunRow.nextEventSeq
  obtain ⟨n, hn⟩ := ready.home _ _ (Table.view_of_mem hr RunRow.sessionId)
  obtain ⟨ss, hss, hkey, rfl⟩ := Table.view_eq_some.1 hn
  have session : s.db.session r.scopeId r.sessionId = some ss := by
    obtain ⟨scope, id⟩ := Prod.mk.inj hkey
    exact Db.session_eq_some.2 ⟨hss, scope, id⟩
  have free : ∀ e : EventRow, e.eventId = ⟨s.drawn⟩ → e.runKey = (r.scopeId, r.id) →
      e.sessionKey = (r.scopeId, r.sessionId) → e.seq = r.nextEventSeq →
      e.sessionSeq = ss.nextEventSeq → ∃ events, s.db.events.insert? e = some events := by
    intro e id ofRun ofSession seq sessionSeq
    apply Table.insert?_isSome
    intro e' he'
    by_contra clash
    rcases rowClash_event.1 (Bool.eq_true_of_not_eq_false clash) with
      same | ⟨scope, sameRun, sameSeq⟩ | ⟨scope, sameSession, sameSeq⟩
    · have := ready.fresh e' he'
      rw [same, id] at this
      exact Nat.lt_irrefl _ this
    · have key : e'.runKey = (r.scopeId, r.id) := (Prod.ext scope sameRun).trans ofRun
      have := (ready.log.byRun.lt_next he' (by rw [key]; exact hnext)).2
      omega
    · have key : e'.sessionKey = (r.scopeId, r.sessionId) :=
        (Prod.ext scope sameSession).trans ofSession
      have := (ready.log.bySession.lt_next he' (by rw [key]; exact hn)).2
      omega
  refine .bind rfl (.orThrow_bind run (.orThrow_bind session ?_))
  refine .bind rfl (.bind rfl (.bind rfl ?_))
  exact .orThrow_bind (free _ rfl rfl rfl rfl rfl).choose_spec (.bind rfl (.pure _ _))

/-! ## The transaction of `transition_run` -/

theorem writeOutput_total (db : Db) (r : RunRow) (output : Option String) (s : Store) :
    ∃ o t, writeOutput d db r output s = .ok o t ∧ t.db = s.db ∧ t.drawn = s.drawn := by
  cases output with
  | none => exact ⟨_, _, rfl, rfl, rfl⟩
  | some text => exact ⟨_, _, rfl, rfl, rfl⟩

/-- A change of status leaves room for events. -/
theorem Db.Ready.moveRun {db : Db} {m n : Nat} (h : db.Ready m) (hmn : m ≤ n) (version : Nat)
    (after : RunState) (outputRef : Option ObjectRef) (outputChars : Option Nat)
    (error : Option Json) (now : Timestamp) (actor : String) :
    (db.moveRun scopeId runId version after outputRef outputChars error now actor).Ready n := by
  refine h.frame hmn rfl ?_ ?_ rfl
  all_goals
    simp only [Db.moveRun]
    rw [Table.view_updateIn_same]
    intro r
    split <;> rfl

theorem Db.run_moveRun {db : Db} {r : RunRow} (run : db.run scopeId runId = some r)
    (version : Nat) (after : RunState) (outputRef : Option ObjectRef) (outputChars : Option Nat)
    (error : Option Json) (now : Timestamp) (actor : String) :
    ∃ r', (db.moveRun scopeId runId version after outputRef outputChars error now actor).run
      scopeId runId = some r' := by
  simp only [Db.run, Db.moveRun]
  rw [Table.getIn_updateIn_of run]
  exact ⟨_, rfl⟩

variable {expectedVersion : Nat} {target : RunStatus} {args : TransitionArgs}
  {actorRef : Option String}

/-- A permitted change of a run goes through. -/
theorem transitionRun_total (ready : s.db.Ready s.drawn) {row : RunRow} {after : RunState}
    (run : s.db.run scopeId runId = some row)
    (change : transition row.state target expectedVersion args.taskOutcome args.reason = .ok after) :
    Ends (transitionRun d scopeId runId expectedVersion target args actorRef) s := by
  refine transaction_ends (.bind rfl (.orThrow_bind run (.fromExcept_bind change (.bind rfl ?_))))
  obtain ⟨out, s₁, hout, hdb, hdrawn⟩ :=
    writeOutput_total (d := d) s.db row args.output { s with ticks := s.ticks + 1 }
  refine .bind hout (.bind rfl ?_)
  have found : s₁.db.run scopeId runId = some row := by rw [hdb]; exact run
  have ready₁ : s₁.db.Ready s₁.drawn := by rw [hdb, hdrawn]; exact ready
  obtain ⟨row', moved⟩ := Db.run_moveRun found expectedVersion after out
    (args.output.map String.length) (storedError args.error) (d.clock s.ticks)
    (textOr actorRef "system:runtime/worker")
  obtain ⟨e, s₂, hev⟩ := insertEventLocked_total (d := d) (s := { s₁ with db := _ })
    (ready₁.moveRun (Nat.le_refl _) _ _ _ _ _ _ _) moved (announcedBy target)
    (transitionData d after args.reason out args.error (args.extraData.getD []))
    (textOr actorRef "system:runtime/worker") (d.clock s.ticks)
  refine .bind hev ?_
  split
  · exact .bind rfl (.bind rfl (.pure _ _))
  · exact .bind rfl (.pure _ _)

/-- A change the state machine does not permit is refused. -/
theorem transitionRun_refused {row : RunRow} {error : StoreError}
    (run : s.db.run scopeId runId = some row)
    (refused : transition row.state target expectedVersion args.taskOutcome args.reason =
      .error error) :
    transitionRun d scopeId runId expectedVersion target args actorRef s = .error error s := by
  simp [transitionRun, transaction, transitionRunBody, getDb, bind, EStateM.bind, orThrow, run,
    fromExcept, refused, pure, EStateM.pure, throw_eq]

/-- A change of a known run fails exactly if the state machine does not permit it. -/
theorem transitionRun_fails_iff (ready : s.db.Ready s.drawn) {row : RunRow}
    (run : s.db.run scopeId runId = some row) :
    (∃ error t, transitionRun d scopeId runId expectedVersion target args actorRef s =
      .error error t) ↔
      ¬ ∃ after, transition row.state target expectedVersion args.taskOutcome args.reason =
        .ok after := by
  constructor
  · rintro ⟨error, t, failed⟩ ⟨after, change⟩
    have ends : Ends (transitionRun d scopeId runId expectedVersion target args actorRef) s :=
      transitionRun_total ready run change
    obtain ⟨o, t', ended⟩ := ends
    rw [failed] at ended
    cases ended
  · intro forbidden
    cases change : transition row.state target expectedVersion args.taskOutcome args.reason with
    | ok after => exact absurd ⟨after, change⟩ forbidden
    | error error => exact ⟨error, s, transitionRun_refused run change⟩

/-- What a change of status does: the run is in the new state, the other runs are as they were,
and one event is added. -/
theorem transitionRun_spec {o : Option RunRow}
    (h : transitionRun d scopeId runId expectedVersion target args actorRef s = .ok o t) :
    ∃ row after e, s.db.run scopeId runId = some row ∧
      transition row.state target expectedVersion args.taskOutcome args.reason = .ok after ∧
      t.db.runs.view RunRow.state =
        Function.update (s.db.runs.view RunRow.state) (scopeId, runId) (some after) ∧
      t.db.events.rows = s.db.events.rows ++ [e] ∧ e.runKey = (scopeId, runId) ∧
      e.type = announcedBy target ∧ o = t.db.run scopeId runId := by
  simp only [transitionRun, transaction_eq_ok, transitionRunBody, getDb_bind_eq_ok,
    orThrow_bind_eq_ok, fromExcept_bind_eq_ok, now_bind_eq_ok] at h
  obtain ⟨row, run, after, change, h⟩ := h
  obtain ⟨out, s₁, hout, h⟩ := bind_eq_ok.1 h
  rw [modifyDb_bind_eq_ok] at h
  obtain ⟨e, s₂, hev, hend⟩ := bind_eq_ok.1 h
  obtain ⟨⟨r, ss, record⟩, ⟨scope, id, type, -⟩, -⟩ := insertEventLocked_records hev
  have hdb := writeOutput_db hout
  simp only [hdb] at record
  obtain ⟨hmem, hscope, hid⟩ := Db.run_eq_some.1 run
  have version : row.stateVersion = expectedVersion := (transition_eq_ok.1 change).1
  have moved : s₂.db.runs.view RunRow.state =
      Function.update (s.db.runs.view RunRow.state) (scopeId, runId) (some after) := by
    obtain ⟨events, now, actor, -, result⟩ := record.result
    rw [result]
    simp only [Db.setEventSeqs, Db.moveRun]
    rw [Table.view_updateIn_same, Table.view_updateIn_of run, if_pos version]
    · rfl
    · intro r
      rfl
  have added : s₂.db.events.rows = s.db.events.rows ++ [e] := by
    obtain ⟨events, now, actor, insert, result⟩ := record.result
    rw [result]
    exact (Table.insert?_eq_some.1 insert).2
  refine ⟨row, after, e, run, change, ?_⟩
  split at hend
  · simp only [modifyDb_bind_eq_ok, getDb_bind_eq_ok, pure_eq_ok] at hend
    obtain ⟨rfl, rfl⟩ := hend
    refine ⟨?_, added, Prod.ext scope id, type, rfl⟩
    rw [← moved]
    simp only [Db.release]
    rw [Table.view_updateIn_same]
    intro r
    rfl
  · simp only [getDb_bind_eq_ok, pure_eq_ok] at hend
    obtain ⟨rfl, rfl⟩ := hend
    exact ⟨moved, added, Prod.ext scope id, type, rfl⟩

/-! ## The status of every run -/

/-- Status and version of every run. -/
def Db.statuses (db : Db) : Key → Option (RunStatus × Nat) :=
  db.runs.view fun r => (r.status, r.stateVersion)

/-- One edge of the state machine, with the version it counts up. -/
def Advances (a b : RunStatus × Nat) : Prop := b.1 ∈ allowedTransitions a.1 ∧ b.2 = a.2 + 1

/-- What a change does to the statuses: they stay, a run is accepted, or one takes an edge of the
state machine, with the event that announces it. -/
inductive Db.Moves (π : Discipline) (db db' : Db) : Prop
  | still {new : List EventRow} (statuses : db'.statuses = db.statuses)
      (events : db'.events.rows = db.events.rows ++ new)
      (quiet : ∀ e ∈ new, e.type.lifecycle = true → π.event e.type)
  | accepted {e : EventRow} (fresh : db.statuses e.runKey = none) (type : e.type = .runAccepted)
      (statuses : db'.statuses = Function.update db.statuses e.runKey (some (.queued, 0)))
      (events : db'.events.rows = db.events.rows ++ [e])
  | moved {e : EventRow} {a b : RunStatus × Nat} (known : db.statuses e.runKey = some a)
      (edge : Advances a b) (type : e.type = announcedBy b.1)
      (statuses : db'.statuses = Function.update db.statuses e.runKey (some b))
      (events : db'.events.rows = db.events.rows ++ [e])

theorem Records.statuses {f : Files} {db db' : Db} {r : RunRow} {ss : SessionRow} {e : EventRow}
    (h : Records d f db r ss e db') :
    db'.statuses = db.statuses ∧ db'.events.rows = db.events.rows ++ [e] := by
  obtain ⟨events, now, actor, insert, rfl⟩ := h.result
  constructor
  · simp only [Db.statuses, Db.setEventSeqs]
    rw [Table.view_updateIn_same]
    intro r
    rfl
  · exact (Table.insert?_eq_some.1 insert).2

theorem Change.moves {f : Files} {n : Nat} {db db' : Db} (h : Change d π f n db db') :
    db.Moves π db' := by
  cases h with
  | addWorkspace | rebind | revise | addSession | tools | pendings =>
      exact .still rfl (List.append_nil _).symm (by simp)
  | @accept db₁ id request s s₁ key fingerprint inputRef snapshotRef now actor runs r e known insert
      record event idle fresh =>
      obtain ⟨statuses, events⟩ := record.statuses
      obtain ⟨scope, ofRun, type, -⟩ := event
      have hkey : e.runKey = (request.context.scopeId, id) := Prod.ext scope ofRun
      refine .accepted (e := e) ?_ type ?_ events
      · rw [hkey]
        exact Table.view_of_insert? insert _ _
      · rw [hkey]
        exact statuses.trans (Table.view_insert? insert _)
  | @claim db₁ c nowIso leaseUntil scopeId id binding workerId actor attempts r s e run candidate
      claimable earlier insert record event fresh =>
      obtain ⟨statuses, events⟩ := record.statuses
      obtain ⟨scope, ofRun, type, -⟩ := event
      have hkey : e.runKey = (c.run.scopeId, c.run.id) := Prod.ext scope ofRun
      have hrun : db.run c.run.scopeId c.run.id = some c.run := Table.getIn_of_mem run
      have edge : Advances (c.run.status, c.run.stateVersion)
          (.running, c.run.stateVersion + 1) := by
        rw [claimable.1]
        exact ⟨List.mem_cons_self, rfl⟩
      refine .moved (e := e) ?_ edge type ?_ events
      · rw [hkey]
        exact Table.view_of_getIn hrun _
      · rw [statuses, hkey]
        simp only [Db.statuses, Db.startAttempt, Db.startRun, Db.occupyWorkspace,
          Db.occupySession, Candidate.attempt]
        rw [Table.view_updateIn_of hrun, if_pos rfl]
        rfl
  | @move db₁ row after target outcome reason outputRef outputChars error extra now actor r s e run
      change allowed extra_allowed record event fresh =>
      obtain ⟨statuses, events⟩ := record.statuses
      obtain ⟨scope, ofRun, type, -⟩ := event
      have hkey : e.runKey = (row.scopeId, row.id) := Prod.ext scope ofRun
      have hrow : db.run row.scopeId row.id = some row := Table.getIn_of_mem run
      have edge : Advances (row.status, row.stateVersion) (after.status, after.stateVersion) :=
        transition_edge change
      have target : after.status = target := by
        obtain ⟨-, -, -, -, rfl⟩ := transition_eq_ok.1 change
        rfl
      subst target
      have moved : db₁.statuses = Function.update db.statuses e.runKey
          (some (after.status, after.stateVersion)) := by
        rw [statuses, hkey]
        simp only [Db.statuses, Db.moveRun]
        rw [Table.view_updateIn_of hrow, if_pos rfl]
        rfl
      refine .moved (e := e) ?_ edge type ?_ ?_
      · rw [hkey]
        exact Table.view_of_getIn hrow _
      · rw [← moved]
        split
        · simp only [Db.statuses, Db.release]
          rw [Table.view_updateIn_same]
          intro r
          rfl
        · rfl
      · split <;> exact events
  | note record allowed fresh =>
      obtain ⟨statuses, events⟩ := record.statuses
      refine .still statuses events fun e he => ?_
      rw [List.mem_singleton.1 he]
      exact allowed

/-- A run stays where it is, or takes edges of the state machine. -/
theorem Steps.statuses (st : Steps d π s t) {k : Key} {a : RunStatus × Nat}
    (h : s.db.statuses k = some a) :
    ∃ b, t.db.statuses k = some b ∧ Relation.ReflTransGen Advances a b := by
  refine st.preserves (I := fun _ _ db => ∃ b, db.statuses k = some b ∧
    Relation.ReflTransGen Advances a b) (fun _ _ h => h) ?_ ⟨a, h, .refl⟩
  rintro f n db db' c ⟨b, known, path⟩
  cases c.moves with
  | still statuses events quiet => exact ⟨b, by rw [statuses, known], path⟩
  | @accepted e fresh type statuses events =>
      refine ⟨b, ?_, path⟩
      rw [statuses, Function.update_of_ne, known]
      rintro rfl
      rw [fresh] at known
      cases known
  | @moved e a' b' known' edge type statuses events =>
      by_cases same : k = e.runKey
      · subst same
        rw [known] at known'
        cases known'
        exact ⟨b', by rw [statuses, Function.update_self], path.tail edge⟩
      · exact ⟨b, by rw [statuses, Function.update_of_ne same, known], path⟩

end CodeForge
