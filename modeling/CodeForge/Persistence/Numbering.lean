import CodeForge.Lib.Numbering
import CodeForge.Persistence.System

/-!
# The numbers of events

The events of all sessions form one append-only log.  Every event has a number
within its run and a number within its session, and the next numbers are kept in
the rows of the run and of the session.  `Db.EventLog` says that the log is
`Numbered` in both ways.  It needs no discipline of the callers and survives
faults, since a fault takes the tables back as a whole.
-/

namespace CodeForge

open Lib

/-! ## The invariant -/

/-- The log of events with its two numberings. -/
structure Db.EventLog (db : Db) : Prop where
  byRun : Numbered EventRow.runKey EventRow.seq db.events.rows
    (db.runs.view RunRow.nextEventSeq)
  bySession : Numbered EventRow.sessionKey EventRow.sessionSeq db.events.rows
    (db.sessions.view SessionRow.nextEventSeq)
  /-- An event is in the session of its run. -/
  owner : ∀ e ∈ db.events, db.runs.view RunRow.sessionId e.runKey = some e.sessionId

theorem Db.EventLog.empty : ({} : Db).EventLog where
  byRun := .empty
  bySession := .empty
  owner e he := absurd he (Table.not_mem_empty e)

/-- The log depends on three tables, and on a few columns of two of them. -/
theorem Db.EventLog.frame {db db' : Db} (h : db.EventLog) (events : db'.events = db.events)
    (next : db'.runs.view RunRow.nextEventSeq = db.runs.view RunRow.nextEventSeq)
    (session : db'.runs.view RunRow.sessionId = db.runs.view RunRow.sessionId)
    (sessionNext : db'.sessions.view SessionRow.nextEventSeq =
      db.sessions.view SessionRow.nextEventSeq) : db'.EventLog where
  byRun := by rw [events, next]; exact h.byRun
  bySession := by rw [events, sessionNext]; exact h.bySession
  owner := by rw [events, session]; exact h.owner

/-- Recording an event keeps both numberings. -/
theorem Records.eventLog {d : Deployment} {f : Files} {db db' : Db} {r : RunRow}
    {s : SessionRow} {e : EventRow} (h : Records d f db r s e db') (log : db.EventLog) :
    db'.EventLog := by
  obtain ⟨events, now, actor, insert, rfl⟩ := h.result
  have hrows := (Table.insert?_eq_some.1 insert).2
  have hrun : db.runs.view RunRow.nextEventSeq e.runKey = some e.seq := by
    rw [h.seq]
    exact Table.view_of_getIn h.run _
  have hsession : db.sessions.view SessionRow.nextEventSeq e.sessionKey = some e.sessionSeq := by
    rw [h.sessionSeq]
    exact Table.view_of_getIn h.session _
  refine ⟨?_, ?_, ?_⟩
  · simp only [Db.setEventSeqs]
    rw [Table.view_updateIn_of h.run, hrows]
    exact log.byRun.add hrun
  · simp only [Db.setEventSeqs]
    rw [Table.view_updateIn_of h.session, hrows]
    exact log.bySession.add hsession
  · intro e' he'
    simp only [Db.setEventSeqs]
    rw [Table.view_updateIn_same]
    · rcases (Table.mem_insert? insert).1 he' with he' | rfl
      · exact log.owner e' he'
      · rw [h.ofRun]
        exact Table.view_of_getIn h.run _
    · intro r
      rfl

/-- Every change keeps both numberings. -/
theorem Change.eventLog {d : Deployment} {π : Discipline} {f : Files} {n : Nat} {db db' : Db}
    (h : Change d π f n db db') (log : db.EventLog) : db'.EventLog := by
  cases h with
  | addWorkspace | rebind | revise | tools | pendings => exact log.frame rfl rfl rfl rfl
  | @addSession id scopeId workspaceId title externalRef now actor sessions requests w known
      insert =>
      refine ⟨log.byRun, ?_, log.owner⟩
      simp only [Table.view_insert? insert]
      exact log.bySession.addGroup (Table.view_of_insert? insert _ _)
  | @accept db₁ id request s s₁ key fingerprint inputRef snapshotRef now actor runs r e known insert
      record event =>
      have hfresh := fun {β : Type} (g : RunRow → β) =>
        Table.view_of_insert? insert g request.context.scopeId
      have entered : ({ db with runs } : Db).EventLog := by
        refine ⟨?_, log.bySession, ?_⟩
        · simp only [Table.view_insert? insert]
          exact log.byRun.addGroup (hfresh _)
        · intro e' he'
          have hold := log.owner e' he'
          simp only [Table.view_insert? insert]
          rw [Function.update_of_ne, hold]
          intro hk
          rw [hk] at hold
          exact Option.some_ne_none _ (hold.symm.trans (hfresh _))
      refine (record.eventLog entered).frame rfl rfl rfl ?_
      simp only [Db.setNextRunSeq]
      rw [Table.view_updateIn_same]
      intro s
      rfl
  | claim run candidate claimable earlier insert record event =>
      refine record.eventLog (log.frame rfl ?_ ?_ ?_) <;>
        simp only [Db.startAttempt, Db.startRun, Db.occupyWorkspace, Db.occupySession] <;>
        rw [Table.view_updateIn_same]
      · intro r; split <;> rfl
      · intro r; split <;> rfl
      · intro s; rfl
  | move run change allowed extra_allowed record event =>
      have moved := record.eventLog (log.frame rfl
        (by
          simp only [Db.moveRun]
          rw [Table.view_updateIn_same]
          intro r; split <;> rfl)
        (by
          simp only [Db.moveRun]
          rw [Table.view_updateIn_same]
          intro r; split <;> rfl)
        rfl)
      split
      · refine moved.frame rfl ?_ ?_ ?_ <;> simp only [Db.release]
        · rw [Table.view_updateIn_same]
          intro r; rfl
        · rw [Table.view_updateIn_same]
          intro r; rfl
        · rw [Table.view_updateWhere_same]
          intro s; rfl
      · exact moved
  | note record allowed => exact record.eventLog log

/-! ## The log only grows -/

/-- A change leaves the log alone, or adds one event whose body was written. -/
theorem Change.events {d : Deployment} {π : Discipline} {f : Files} {n : Nat} {db db' : Db}
    (h : Change d π f n db db') :
    db'.events = db.events ∨
      ∃ e, e.Written d f ∧ e.eventId.draw < n ∧ db'.events.rows = db.events.rows ++ [e] := by
  have recorded : ∀ {db₀ db₁ : Db} {r : RunRow} {s : SessionRow} {e : EventRow},
      Records d f db₀ r s e db₁ → db₀.events = db.events →
      db₁.events.rows = db.events.rows ++ [e] := by
    intro db₀ db₁ r s e record same
    obtain ⟨events, now, actor, insert, rfl⟩ := record.result
    rw [← same]
    exact (Table.insert?_eq_some.1 insert).2
  cases h with
  | addWorkspace | rebind | revise | addSession | tools | pendings => exact .inl rfl
  | @accept db₁ id request s s₁ key fingerprint inputRef snapshotRef now actor runs r e known insert
      record event idle fresh =>
      have rows := recorded record rfl
      exact .inr ⟨e, record.written, fresh, rows⟩
  | @claim db₁ c nowIso leaseUntil scopeId id binding workerId actor attempts r s e run candidate
      claimable earlier insert record event fresh =>
      exact .inr ⟨e, record.written, fresh, recorded record rfl⟩
  | @move db₁ row after target outcome reason outputRef outputChars error extra now actor r s e run
      change allowed extra_allowed record event fresh =>
      have rows := recorded record rfl
      refine .inr ⟨e, record.written, fresh, ?_⟩
      split <;> exact rows
  | @note db₁ r s e record allowed fresh =>
      exact .inr ⟨e, record.written, fresh, recorded record rfl⟩

/-- What was logged stays, in its place. -/
theorem Steps.events {d : Deployment} {π : Discipline} {s t : Store} (h : Steps d π s t) :
    s.db.events.rows <+: t.db.events.rows := by
  refine h.preserves (I := fun _ _ db => s.db.events.rows <+: db.events.rows)
    (fun _ _ hdb => hdb) ?_ (List.prefix_refl _)
  intro f n db db' c hdb
  rcases c.events with he | ⟨e, -, -, he⟩
  · rw [he]
    exact hdb
  · rw [he]
    exact hdb.trans (List.prefix_append _ _)

/-- The bodies of all events stand where their rows say. -/
theorem Reachable.written {d : Deployment} {π : Discipline} {s : Store} (h : Reachable d π s) :
    ∀ e ∈ s.db.events, e.Written d s.files := by
  refine h.invariant (I := fun f _ db => ∀ e ∈ db.events, e.Written d f) ?_ ?_ ?_
  · intro e he
    exact absurd he (Table.not_mem_empty e)
  · intro f g m n db hfg _ hdb e he
    exact (hdb e he).mono hfg
  · intro f n db db' c hdb e he
    rcases c.events with heq | ⟨e', hw, -, heq⟩
    · rw [heq] at he
      exact hdb e he
    · rw [Table.mem_def, heq, List.mem_append, List.mem_singleton] at he
      rcases he with he | rfl
      · exact hdb e he
      · exact hw

/-! ## Every reachable store -/

/-- The log of events in every reachable store. -/
theorem Reachable.eventLog {d : Deployment} {π : Discipline} {s : Store} (h : Reachable d π s) :
    s.db.EventLog :=
  h.db_invariant .empty fun c log => c.eventLog log

/-- The events of a run, in the order they were recorded. -/
def Db.runEvents (db : Db) (r : RunRow) : List EventRow :=
  db.events.rows.filter fun e => e.runKey = (r.scopeId, r.id)

/-- The events of a session, in the order they were recorded. -/
def Db.sessionEvents (db : Db) (s : SessionRow) : List EventRow :=
  db.events.rows.filter fun e => e.sessionKey = (s.scopeId, s.id)

/-- Events are numbered without gaps, and the two numberings agree. -/
structure Db.DenseEvents (db : Db) : Prop where
  run : ∀ r ∈ db.runs, ∃ k, r.nextEventSeq = k + 1 ∧
    (db.runEvents r).map EventRow.seq = List.range' 1 k
  session : ∀ s ∈ db.sessions, ∃ n, s.nextEventSeq = n + 1 ∧
    (db.sessionEvents s).map EventRow.sessionSeq = List.range' 1 n
  /-- The events of a session are those of its runs. -/
  owner : ∀ e ∈ db.events, ∃ r ∈ db.runs, e.runKey = (r.scopeId, r.id) ∧
    e.sessionKey = (r.scopeId, r.sessionId)
  agree : ∀ e ∈ db.events, ∀ f ∈ db.events, e.runKey = f.runKey →
    (e.seq < f.seq ↔ e.sessionSeq < f.sessionSeq)

theorem Db.EventLog.owner_run {db : Db} (log : db.EventLog) {e : EventRow} (he : e ∈ db.events) :
    ∃ r ∈ db.runs, e.runKey = (r.scopeId, r.id) ∧ e.sessionKey = (r.scopeId, r.sessionId) := by
  obtain ⟨r, hr, hk, hs⟩ := Table.view_eq_some.1 (log.owner e he)
  have hk' : e.runKey = (r.scopeId, r.id) := hk.symm
  exact ⟨r, hr, hk', Prod.ext (Prod.mk.inj hk').1 hs.symm⟩

/-- Events of one run are events of one session. -/
theorem Db.EventLog.sessionKey_eq {db : Db} (log : db.EventLog) {e f : EventRow}
    (he : e ∈ db.events) (hf : f ∈ db.events) (h : e.runKey = f.runKey) :
    e.sessionKey = f.sessionKey := by
  have hse := log.owner e he
  rw [h, log.owner f hf] at hse
  exact Prod.ext (Prod.mk.inj h).1 (Option.some.inj hse).symm

theorem Db.EventLog.dense {db : Db} (log : db.EventLog) : db.DenseEvents where
  run _ hr := log.byRun.dense _ _ (Table.view_of_mem hr _)
  session _ hs := log.bySession.dense _ _ (Table.view_of_mem hs _)
  owner _ he := log.owner_run he
  agree _ he _ hf h := log.byRun.lt_iff_lt log.bySession he hf h (log.sessionKey_eq he hf h)

/-- In every reachable store events are numbered densely, and whatever happens
next, an event stays in its place with its numbers, type and body. -/
theorem Reachable.denseEvents {d : Deployment} {π : Discipline} {s : Store}
    (h : Reachable d π s) :
    s.db.DenseEvents ∧ ∀ t, Steps d π s t →
      s.db.events.rows <+: t.db.events.rows ∧ ∀ e ∈ s.db.events, e.Written d t.files := by
  refine ⟨h.eventLog.dense, ?_⟩
  intro t st
  refine ⟨st.events, ?_⟩
  intro e he
  exact (h.steps st).written e (st.events.subset he)

/-- Two events are numbered after the first claim. -/
theorem Reachable.denseEvents_firstClaim :
    let s := Op.execAll .plain Op.firstClaim {}
    s.db.events.rows.map (fun e => (e.seq, e.sessionSeq, e.type)) =
        [(1, 1, .runAccepted), (2, 2, .runStarted)] ∧
      s.db.DenseEvents ∧ ∀ t, Steps .plain {} s t →
        s.db.events.rows <+: t.db.events.rows ∧ ∀ e ∈ s.db.events, e.Written .plain t.files :=
  ⟨by decide +kernel,
    Reachable.denseEvents (.execAll (Op.firstClaim_obeys trivial trivial))⟩

end CodeForge
