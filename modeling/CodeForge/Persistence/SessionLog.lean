import Mathlib.Data.List.Sort
import Mathlib.Order.Nat
import CodeForge.Lib.Cursor
import CodeForge.Persistence.Lifecycle

/-!
# Reading the log of a session

The server reads the events of a session by pages (`list_session_events`), asks for
the last number (`session_event_cursor`) and for the last run
(`get_current_message`).  All three go by the identifier of the session alone, which
is enough, since sessions of different scopes never share it.

The log of a session is increasing and only gets longer, so what is after the last
number of an earlier store is what was recorded since (`Steps.entriesAfter_cursor`).
And it tells the current message: an observer of all lifecycle events knows the last
run of the session and its status (`Reachable.current_eq_follow`).
-/

namespace CodeForge

open Lib

/-! ## The reads -/

/-- The events of a session, in the order they were recorded. -/
def Db.eventsOf (db : Db) (sessionId : Uuid) : List EventRow :=
  db.events.rows.filter fun e => e.sessionId = sessionId

/-- `list_session_events` -/
def Db.listSessionEvents (db : Db) (sessionId : Uuid) (afterSeq limit : Nat) :
    List EventRow × Nat :=
  let rows := db.events.rows.filter fun e => e.sessionId = sessionId && afterSeq < e.sessionSeq
  let events := (rows.insertionSort fun e f => e.sessionSeq ≤ f.sessionSeq).take limit
  (events, match events.getLast? with
    | some e => e.sessionSeq
    | none => afterSeq)

/-- `session_event_cursor` -/
def Db.sessionEventCursor (db : Db) (sessionId : Uuid) : Nat :=
  ((db.eventsOf sessionId).map EventRow.sessionSeq).foldr max 0

/-- `get_current_message` -/
def Db.currentMessage (db : Db) (sessionId : Uuid) : Option RunRow :=
  (db.runs.rows.filter fun r => r.sessionId = sessionId).argmax RunRow.runSeq

/-- A request for the user's input as the Platform sees it. -/
structure PendingReply where
  pendingId : String
  messageId : Uuid
  kind : String
  payloadRef : String
deriving DecidableEq, Repr

/-- The row `get_pending_reply` selects: the latest open request of the last run that
has one. -/
def Db.pendingReply (db : Db) (sessionId : Uuid) : Option PendingReply :=
  let rows := db.pendings.rows.filterMap fun p =>
    (db.run p.scopeId p.runId).bind fun r =>
      if r.sessionId = sessionId ∧ p.resolvedAt = none then some (r, p) else none
  let sorted := rows.insertionSort fun x y =>
    y.1.runSeq < x.1.runSeq ∨
      y.1.runSeq = x.1.runSeq ∧ y.2.audit.dateCreated ≤ x.2.audit.dateCreated
  sorted.head?.map fun x => ⟨x.2.id, x.2.runId, x.2.kind, x.2.payloadRef⟩

/-! ## Events of one session -/

section Log

variable {db : Db} {sessionId : Uuid}

/-- The identifier of its session gives the scope of an event. -/
theorem Db.EventLog.sessionKey_of_id (log : db.EventLog) {e f : EventRow} (he : e ∈ db.events)
    (hf : f ∈ db.events) (h : e.sessionId = f.sessionId) : e.sessionKey = f.sessionKey := by
  obtain ⟨n, hn⟩ := log.bySession.known e he
  obtain ⟨m, hm⟩ := log.bySession.known f hf
  obtain ⟨s, hs, hsk, -⟩ := Table.view_eq_some.1 hn
  obtain ⟨t, ht, htk, -⟩ := Table.view_eq_some.1 hm
  have hid : s.id = t.id := by
    rw [show s.id = e.sessionId from (Prod.mk.inj hsk).2,
      show t.id = f.sessionId from (Prod.mk.inj htk).2, h]
  cases Table.eq_of_key hs ht hid
  rw [← hsk, ← htk]

theorem Db.EventLog.increasing (log : db.EventLog) :
    Increasing EventRow.sessionSeq (db.eventsOf sessionId) := by
  refine List.Pairwise.imp_of_mem ?_ (log.bySession.increasing.filter _)
  intro e f he hf hlt
  obtain ⟨he, hes⟩ := List.mem_filter.1 he
  obtain ⟨hf, hfs⟩ := List.mem_filter.1 hf
  refine hlt (log.sessionKey_of_id he hf ?_)
  rw [of_decide_eq_true hes, of_decide_eq_true hfs]

theorem Db.EventLog.sessionSeq_pos (log : db.EventLog) {e : EventRow} (he : e ∈ db.events) :
    0 < e.sessionSeq := by
  obtain ⟨n, hn⟩ := log.bySession.known e he
  exact (log.bySession.lt_next he hn).1

/-- A page of events and its end. -/
theorem Db.EventLog.listSessionEvents_eq (log : db.EventLog) (afterSeq limit : Nat) :
    db.listSessionEvents sessionId afterSeq limit =
      let page := (entriesAfter EventRow.sessionSeq (db.eventsOf sessionId) afterSeq).take limit
      (page, pageEnd EventRow.sessionSeq page afterSeq) := by
  have rows : (db.events.rows.filter fun e =>
      e.sessionId = sessionId && afterSeq < e.sessionSeq) =
      entriesAfter EventRow.sessionSeq (db.eventsOf sessionId) afterSeq := by
    simp only [entriesAfter, eventsOf, List.filter_filter, Bool.and_comm]
  have sorted : (entriesAfter EventRow.sessionSeq (db.eventsOf sessionId) afterSeq).Pairwise
      fun e f => e.sessionSeq ≤ f.sessionSeq :=
    (log.increasing.filter _).imp fun h => Nat.le_of_lt h
  simp only [listSessionEvents, rows, sorted.insertionSort_eq, pageEnd]
  cases ((entriesAfter EventRow.sessionSeq (db.eventsOf sessionId) afterSeq).take limit).getLast?
    <;> rfl

theorem foldr_max_mem (l : List Nat) : l.foldr max 0 = 0 ∨ l.foldr max 0 ∈ l := by
  induction l with
  | nil => exact .inl rfl
  | cons m l ih =>
      rw [List.foldr_cons]
      rcases Nat.le_total m (l.foldr max 0) with h | h
      · rw [Nat.max_eq_right h]
        exact ih.imp_right (List.mem_cons_of_mem _)
      · rw [Nat.max_eq_left h]
        exact .inr List.mem_cons_self

theorem Db.le_sessionEventCursor {e : EventRow} (he : e ∈ db.eventsOf sessionId) :
    e.sessionSeq ≤ db.sessionEventCursor sessionId :=
  List.le_max_of_le (List.mem_map_of_mem he) (Nat.le_refl _)

end Log

/-- The events of a session only get more. -/
theorem Steps.eventsOf {d : Deployment} {π : Discipline} {s t : Store} (st : Steps d π s t)
    (sessionId : Uuid) : ∃ new, t.db.eventsOf sessionId = s.db.eventsOf sessionId ++ new := by
  obtain ⟨new, hnew⟩ := st.events.filter fun e => e.sessionId = sessionId
  exact ⟨new, hnew.symm⟩

/-- What is after the cursor of an earlier store was recorded since. -/
theorem Steps.entriesAfter_cursor {d : Deployment} {π : Discipline} {s t : Store}
    (reach : Reachable d π s) (st : Steps d π s t) (sessionId : Uuid) :
    t.db.eventsOf sessionId = s.db.eventsOf sessionId ++
      entriesAfter EventRow.sessionSeq (t.db.eventsOf sessionId)
        (s.db.sessionEventCursor sessionId) := by
  obtain ⟨new, hnew⟩ := st.eventsOf sessionId
  have log := (reach.steps st).eventLog
  have increasing : Increasing EventRow.sessionSeq (s.db.eventsOf sessionId ++ new) := by
    rw [← hnew]
    exact log.increasing
  rw [hnew, entriesAfter_append]
  · intro e he
    exact Db.le_sessionEventCursor he
  · intro e he
    have mem : e ∈ t.db.events := by
      have : e ∈ t.db.eventsOf sessionId := by
        rw [hnew]
        exact List.mem_append_right _ he
      exact (List.mem_filter.1 this).1
    rcases foldr_max_mem ((s.db.eventsOf sessionId).map EventRow.sessionSeq) with h | h
    · rw [Db.sessionEventCursor, h]
      exact log.sessionSeq_pos mem
    · obtain ⟨f, hf, hseq⟩ := List.mem_map.1 h
      rw [Db.sessionEventCursor, ← hseq]
      exact (List.pairwise_append.1 increasing).2.2 f hf e he

/-! ## The first event of a run -/

/-- The first event of every run is its acceptance. -/
def Db.Opened (db : Db) : Prop :=
  ∀ a ∈ db.acceptances, ∃ e, (db.events.rows.find? fun e => e.runKey = a.key) = some e ∧
    e.type = .runAccepted

theorem Db.Opened.grow {db db' : Db} (opened : db.Opened) (runs : db'.acceptances = db.acceptances)
    (events : db.events.rows <+: db'.events.rows) : db'.Opened := by
  intro a ha
  rw [runs] at ha
  obtain ⟨e, found, type⟩ := opened a ha
  obtain ⟨new, hnew⟩ := events
  exact ⟨e, by rw [← hnew, List.find?_append, found, Option.some_or], type⟩

theorem Change.events_prefix {d : Deployment} {π : Discipline} {f : Files} {n : Nat} {db db' : Db}
    (h : Change d π f n db db') : db.events.rows <+: db'.events.rows := by
  rcases h.events with same | ⟨e, -, -, added⟩
  · exact ⟨[], by rw [List.append_nil, same]⟩
  · rw [added]
    exact List.prefix_append _ _

theorem Change.opened {d : Deployment} {π : Discipline} {f : Files} {n : Nat} {db db' : Db}
    (h : Change d π f n db db') (log : db.EventLog) (opened : db.Opened) : db'.Opened := by
  have events := h.events_prefix
  cases h with
  | addWorkspace | rebind | revise | addSession | tools | pendings => exact opened.grow rfl events
  | @accept db₁ id request s s₁ key fingerprint inputRef snapshotRef now actor runs r e known insert
      record event =>
      obtain ⟨hscope, hid, htype, -⟩ := event
      obtain ⟨_, _, _, inserted, hdb₁⟩ := record.result
      have hacc : db₁.acceptances = db.acceptances ++ [(RunRow.accept id request s.workspaceId
          s.nextRunSeq key fingerprint inputRef snapshotRef now actor).acceptance] := by
        rw [record.acceptances.1, Db.acceptances, (Table.insert?_eq_some.1 insert).2, List.map_append]
        rfl
      intro a ha
      rcases List.mem_append.1 (hacc ▸ ha) with old | new
      · obtain ⟨e', found, type⟩ := opened a old
        obtain ⟨more, hmore⟩ := events
        exact ⟨e', by rw [← hmore, List.find?_append, found, Option.some_or], type⟩
      · -- the run is new, so its acceptance is its only event
        cases List.mem_singleton.1 new
        have fresh := log.byRun.filter_of_fresh
          (Table.view_of_insert? insert RunRow.nextEventSeq request.context.scopeId)
        have none : (db.events.rows.find? fun e => e.runKey = (request.context.scopeId, id)) =
            none := by
          rw [List.find?_eq_none]
          intro e' he' hk
          rw [List.filter_eq_nil_iff] at fresh
          exact fresh e' he' hk
        have rows : db₁.events.rows = db.events.rows ++ [e] := by
          rw [hdb₁]
          exact (Table.insert?_eq_some.1 inserted).2
        refine ⟨e, ?_, htype⟩
        change (db₁.events.rows.find? fun e => e.runKey = (request.context.scopeId, id)) = some e
        rw [rows, List.find?_append, none, Option.none_or]
        exact List.find?_cons_of_pos (decide_eq_true (Prod.ext hscope hid))
  | claim run candidate claimable earlier insert record event =>
      exact opened.grow (record.acceptances.1.trans (Db.startAttempt_acceptances ..).1) events
  | @move db₁ row after target outcome reason outputRef outputChars error extra now actor r s e run
      change allowed extra_allowed record event =>
      refine opened.grow ?_ events
      have moved := record.acceptances.1.trans (Db.moveRun_acceptances ..)
      split
      · exact (db₁.release_acceptances row now actor).1.trans moved
      · exact moved
  | note record allowed => exact opened.grow record.acceptances.1 events

theorem Reachable.opened {d : Deployment} {π : Discipline} {s : Store} (h : Reachable d π s) :
    s.db.Opened := by
  refine (h.db_invariant (I := fun db => db.EventLog ∧ db.Opened) ?_ ?_).2
  · refine ⟨.empty, fun a ha => ?_⟩
    cases ha
  · rintro f n db db' c ⟨log, opened⟩
    exact ⟨c.eventLog log, c.opened log opened⟩

/-! ## The current message -/

/-- The last run accepted in a session. -/
def Db.latest (db : Db) (sessionId : Uuid) : Option Acceptance :=
  (db.acceptances.filter fun a => a.sessionId = sessionId).getLast?

theorem Db.Placed.increasing {db : Db} (placed : db.Placed) (sessionId : Uuid) :
    Increasing Acceptance.runSeq (db.acceptances.filter fun a => a.sessionId = sessionId) := by
  refine List.Pairwise.imp_of_mem ?_ (Numbered.increasing placed |>.filter _)
  intro a b ha hb hlt
  obtain ⟨ha, hsa⟩ := List.mem_filter.1 ha
  obtain ⟨hb, hsb⟩ := List.mem_filter.1 hb
  refine hlt ?_
  obtain ⟨s, hs, hsk⟩ := placed.sessionKey ha
  obtain ⟨t, ht, htk⟩ := placed.sessionKey hb
  have hid : s.id = t.id := by
    rw [← show a.sessionId = s.id from (Prod.mk.inj hsk).2,
      ← show b.sessionId = t.id from (Prod.mk.inj htk).2, of_decide_eq_true hsa,
      of_decide_eq_true hsb]
  cases Table.eq_of_key hs ht hid
  rw [hsk, htk]

/-- The current message is the run accepted last. -/
theorem Db.Placed.currentMessage {db : Db} (placed : db.Placed) (sessionId : Uuid) :
    (db.currentMessage sessionId).map RunRow.acceptance = db.latest sessionId := by
  have rows : (db.runs.rows.filter fun r => r.sessionId = sessionId).map RunRow.acceptance =
      db.acceptances.filter fun a => a.sessionId = sessionId := by
    rw [acceptances, List.filter_map]
    rfl
  have increasing : Increasing RunRow.runSeq
      (db.runs.rows.filter fun r => r.sessionId = sessionId) := by
    have := placed.increasing sessionId
    rw [← rows] at this
    unfold Increasing at this ⊢
    exact (List.pairwise_map (f := RunRow.acceptance)).1 this
  rw [Db.currentMessage, increasing.argmax, latest, ← rows, List.getLast?_map]

/-- The current message and its status. -/
def Db.current (db : Db) (sessionId : Uuid) : Option (Uuid × RunStatus) :=
  (db.currentMessage sessionId).map fun r => (r.id, r.status)

theorem Db.Placed.current_eq {db : Db} (placed : db.Placed) (sessionId : Uuid) :
    db.current sessionId = (db.latest sessionId).bind fun a =>
      (db.results a.key).map fun x => (a.id, x.state.status) := by
  rw [← placed.currentMessage, current]
  cases h : db.currentMessage sessionId with
  | none => rfl
  | some r =>
      have hr : r ∈ db.runs := (List.mem_filter.1 (List.argmax_mem h)).1
      have known : db.results r.acceptance.key = some r.result := Table.view_of_mem hr _
      simp only [Option.map_some, Option.bind_some, known]
      rfl

/-! ## The log tells the current message -/

/-- Take notice of an event of a session. -/
def followMessage : Option (Uuid × RunStatus) → EventRow → Option (Uuid × RunStatus) :=
  follow EventRow.runId EventRow.denotes fun e => e.type = .runAccepted

/-- Following the lifecycle events of a session leads to its current message. -/
def Db.Followed (db : Db) : Prop :=
  ∀ sessionId, (db.lifecycle.filter fun e => e.sessionId = sessionId).foldl followMessage none =
    (db.latest sessionId).bind fun a => (db.results a.key).map fun x => (a.id, x.state.status)

theorem Db.acceptance_ext {db : Db} {a b : Acceptance} (ha : a ∈ db.acceptances)
    (hb : b ∈ db.acceptances) (h : a.id = b.id) : a = b := by
  obtain ⟨r, hr, rfl⟩ := Db.mem_acceptances.1 ha
  obtain ⟨r', hr', rfl⟩ := Db.mem_acceptances.1 hb
  rw [Table.eq_of_key hr hr' h]

theorem Db.results_of_mem {db : Db} {a : Acceptance} (ha : a ∈ db.acceptances) :
    ∃ x, db.results a.key = some x := by
  obtain ⟨r, hr, rfl⟩ := Db.mem_acceptances.1 ha
  exact ⟨_, Table.view_of_mem hr _⟩

theorem Db.latest_eq_some {db : Db} {sessionId : Uuid} {a : Acceptance}
    (h : db.latest sessionId = some a) : a ∈ db.acceptances ∧ a.sessionId = sessionId := by
  obtain ⟨hmem, hs⟩ := List.mem_filter.1 (List.mem_of_getLast? h)
  exact ⟨hmem, of_decide_eq_true hs⟩

theorem Db.Progress.followed {db db' : Db} (h : db.Progress db') (inv : db.Followed) :
    db'.Followed := by
  intro sessionId
  have old := inv sessionId
  cases h with
  | still runs events results =>
      rw [events, results, Db.latest, runs]
      exact old
  | @accepted e a fresh type denotes owner runs events results =>
      obtain ⟨key, session⟩ := owner
      rw [events, results, Db.latest, runs, List.filter_append, List.filter_append]
      by_cases hs : e.sessionId = sessionId
      · -- the new run is the current message
        have ha : a.sessionId = sessionId := session.trans hs
        rw [List.filter_cons_of_pos (by simpa using hs), List.filter_cons_of_pos (by simpa using ha),
          List.filter_nil, List.filter_nil, List.getLast?_concat, List.foldl_append,
          Option.bind_some, key, Function.update_self]
        simp [followMessage, follow, denotes, type, show a.id = e.runId from (Prod.mk.inj key).2]
      · have ha : a.sessionId ≠ sessionId := fun c => hs (session.symm.trans c)
        rw [List.filter_cons_of_neg (by simpa using hs), List.filter_cons_of_neg (by simpa using ha),
          List.filter_nil, List.filter_nil, List.append_nil, List.append_nil, old]
        refine Option.bind_congr fun b hb => ?_
        rw [Function.update_of_ne]
        rintro c
        obtain ⟨x, hx⟩ := Db.results_of_mem (Db.latest_eq_some hb).1
        rw [c, fresh] at hx
        cases hx
  | @moved e oldResult new outcome reason known change type denotes owner runs events results =>
      rw [events, results, Db.latest, runs, List.filter_append]
      change _ = (db.latest sessionId).bind _
      by_cases hs : e.sessionId = sessionId
      · rw [List.filter_cons_of_pos (by simpa using hs), List.filter_nil, List.foldl_append, old]
        cases hl : db.latest sessionId with
        | none => simp [followMessage, follow, denotes, type]
        | some a =>
            have hmem := (Db.latest_eq_some hl).1
            obtain ⟨x, hx⟩ := Db.results_of_mem hmem
            by_cases hk : a.id = e.runId
            · obtain ⟨b, hb, hkey, -⟩ := owner
              have hid : a.id = b.id := hk.trans (Prod.mk.inj hkey).2.symm
              cases Db.acceptance_ext hmem hb hid
              simp [followMessage, follow, denotes, type, hk, hkey, known]
            · have hkey : a.key ≠ e.runKey := fun c => hk (Prod.mk.inj c).2
              simp [followMessage, follow, denotes, type, hk, hkey, hx]
      · rw [List.filter_cons_of_neg (by simpa using hs), List.filter_nil, List.append_nil, old]
        refine Option.bind_congr fun a ha => ?_
        rw [Function.update_of_ne]
        intro c
        obtain ⟨hmem, hsession⟩ := Db.latest_eq_some ha
        obtain ⟨b, hb, hkey, hbs⟩ := owner
        cases Db.acceptance_ext hmem hb (Prod.mk.inj (c.trans hkey.symm)).2
        exact hs (hbs.symm.trans hsession)

/-- An event outside the lifecycle denotes nothing. -/
theorem EventRow.denotes_eq_none {e : EventRow} (h : e.type.lifecycle = false) :
    e.denotes = none := by
  cases ht : e.type <;> simp_all [denotes, EventType.lifecycle]

/-- The events of a session tell its current message and the status of it. -/
theorem Reachable.current_eq_follow {d : Deployment} {π : Discipline} {s : Store}
    (h : Reachable d π s) (hextra : ∀ extra, π.extra extra → extra = [])
    (hevent : ∀ type : EventType, type.lifecycle = true → ¬ π.event type) (sessionId : Uuid) :
    s.db.current sessionId = (s.db.eventsOf sessionId).foldl followMessage none := by
  have followed := h.db_invariant (I := fun db => db.Refines ∧ db.Followed) ?_ ?_
  · have rows : (s.db.lifecycle.filter fun e => e.sessionId = sessionId) =
        (s.db.eventsOf sessionId).filter fun e => e.type.lifecycle := by
      simp only [Db.lifecycle, Db.eventsOf, List.filter_filter, Bool.and_comm]
    rw [h.placed.current_eq, ← followed.2 sessionId, rows]
    exact foldl_follow_filter (fun e _ hl => EventRow.denotes_eq_none hl) none
  · exact ⟨.empty, fun _ => rfl⟩
  · rintro f n db db' c ⟨refines, followed⟩
    have progress := c.progress hextra hevent refines.lawful
    exact ⟨progress.refines refines, progress.followed followed⟩

end CodeForge
