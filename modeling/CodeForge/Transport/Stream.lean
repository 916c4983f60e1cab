import CodeForge.Lib.Interleaving
import CodeForge.Persistence.Requests
import CodeForge.Transport.Events

/-!
# Streaming events

`_stream` sends the events of a session, or of one of its messages, as they are
recorded.  It reads the log by pages, writes what belongs to the message, and then looks
whether it may stop: the message is at its end and the cursor at the end of the log.
Each of these is a step of its own, and the store moves on between them.

The stream never loses a page: what it has handled is what the log has between the
start and the cursor (`Delivered`).  A message that is at its end stays there, and its
end was recorded together with the status, so a stream that stops has written it.
-/

namespace CodeForge

open Lib

/-! ## The loop -/

/-- Where the loop is. -/
inductive StreamPhase where
  /-- Before `list_session_events`. -/
  | listing
  /-- Writing a page. -/
  | writing (rest : List EventRow)
  /-- Before the read of the status. -/
  | status
  /-- The message is at its end; before `session_event_cursor`. -/
  | comparing
  | done

instance (phase : StreamPhase) : Decidable (phase = .comparing) :=
  match phase with
  | .comparing => isTrue rfl
  | .listing | .writing _ | .status | .done => isFalse StreamPhase.noConfusion

instance (phase : StreamPhase) : Decidable (phase = .done) :=
  match phase with
  | .done => isTrue rfl
  | .listing | .writing _ | .status | .comparing => isFalse StreamPhase.noConfusion

/-- The events that are still to be written. -/
def StreamPhase.rest : StreamPhase → List EventRow
  | .writing rest => rest
  | _ => []

/-- What a stream is asked for. -/
structure StreamRequest where
  scopeId : String
  sessionId : Uuid
  /-- The message, or none for all of the session. -/
  terminalMessageId : Option Uuid
  afterSeq : Nat

/-- The event belongs to the stream. -/
def StreamRequest.sends (q : StreamRequest) (e : EventRow) : Bool :=
  match q.terminalMessageId with
  | some id => e.runId = id
  | none => true

/-- The state of a stream. -/
structure Stream where
  cursor : Nat
  written : List PublicEvent := []
  phase : StreamPhase := .listing

namespace Stream

/-- A stream at its start. -/
def start (q : StreamRequest) : Stream := { cursor := q.afterSeq }

/-- The next step of `_stream`. -/
def advance (d : Deployment) (r : Readings) (q : StreamRequest) (db : Db) (x : Stream) : Stream :=
  match x.phase with
  | .listing =>
      let (events, cursor) := db.listSessionEvents q.sessionId x.cursor 200
      { x with cursor, phase := .writing events }
  | .writing [] => { x with phase := .status }
  | .writing (e :: rest) =>
      { x with
        written := x.written ++ (if q.sends e then (publicEvent d r db e).toList else [])
        phase := .writing rest }
  | .status =>
      match q.terminalMessageId with
      | some id =>
          match db.run q.scopeId id with
          | some message =>
              { x with phase := if message.status.terminal then .comparing else .listing }
          | none => { x with phase := .listing }
      | none =>
          match db.currentMessage q.sessionId with
          | some message =>
              { x with phase := if message.status.terminal then .comparing else .listing }
          | none => { x with phase := .done }
  | .comparing =>
      { x with phase := if db.sessionEventCursor q.sessionId ≤ x.cursor then .done else .listing }
  | .done => x

/-- A stream of a client that stays connected, beside the store. -/
def system (d : Deployment) (π : Discipline) (r : Readings) (q : StreamRequest) :
    System Store Stream Unit where
  env := Step d π
  client _ s x t y := t = s ∧ y = x.advance d r q s.db

/-! ## What was written -/

/-- The public form of an event, made at some time. -/
def Sent (d : Deployment) (r : Readings) (e : EventRow) (p : PublicEvent) : Prop :=
  ∃ db, publicEvent d r db e = some p

theorem Sent.spec {d : Deployment} {r : Readings} {e : EventRow} {p : PublicEvent}
    (h : Sent d r e p) : p.seq = e.sessionSeq ∧ p.messageId = e.runId ∧
      eventTypeMap.lookup e.type = some p.type := by
  obtain ⟨db, h⟩ := h
  obtain ⟨p', h', spec⟩ := publicEvent_total d r db e
  rw [h] at h'
  cases h'
  exact spec

/-- The stream has handled the log up to its cursor but for the rest of its page, and written
what belongs to it. -/
structure Inv (d : Deployment) (r : Readings) (q : StreamRequest) (db : Db) (x : Stream) : Prop where
  handled : ∃ seen, Delivered EventRow.sessionSeq (db.eventsOf q.sessionId) q.afterSeq x.cursor
      (seen ++ x.phase.rest) ∧ List.Forall₂ (Sent d r) (seen.filter q.sends) x.written
  /-- A stream that is about to stop has seen the message at its end. -/
  ended : x.phase = .comparing → ∀ id, q.terminalMessageId = some id →
    ∃ result, db.results (q.scopeId, id) = some result ∧ result.state.status.terminal = true

theorem Inv.start (d : Deployment) (r : Readings) (q : StreamRequest) (db : Db) :
    (start q).Inv d r q db where
  handled := ⟨[], .initial _ _ _, .nil⟩
  ended := by rintro ⟨⟩

variable {d : Deployment} {π : Discipline} {r : Readings} {q : StreamRequest} {s t : Store}
  {x : Stream}

/-- The store moves on. -/
theorem Inv.steps (hextra : ∀ extra, π.extra extra → extra = [])
    (hevent : ∀ type : EventType, type.lifecycle = true → ¬ π.event type)
    (reach : Reachable d π s) (st : Steps d π s t) (inv : x.Inv d r q s.db) : x.Inv d r q t.db := by
  obtain ⟨new, hnew⟩ := st.eventsOf q.sessionId
  constructor
  · obtain ⟨seen, delivered, sent⟩ := inv.handled
    have log : Increasing EventRow.sessionSeq (t.db.eventsOf q.sessionId) :=
      (reach.steps st).eventLog.increasing
    rw [hnew] at log ⊢
    exact ⟨seen, delivered.grow log, sent⟩
  · intro phase id message
    obtain ⟨result, known, terminal⟩ := inv.ended phase id message
    exact ⟨result, st.terminal hextra hevent (reach.refines hextra hevent) known terminal, terminal⟩

/-- The stream moves on. -/
theorem Inv.advance (log : s.db.EventLog) (inv : x.Inv d r q s.db) :
    (x.advance d r q s.db).Inv d r q s.db := by
  obtain ⟨seen, delivered, sent⟩ := inv.handled
  cases phase : x.phase with
  | listing =>
      rw [phase, show StreamPhase.listing.rest = [] from rfl, List.append_nil] at delivered
      have page := delivered.page log.increasing 200
      simp only [Stream.advance, phase, log.listSessionEvents_eq]
      exact ⟨⟨seen, page, sent⟩, by rintro ⟨⟩⟩
  | writing rest =>
      cases rest with
      | nil =>
          rw [phase] at delivered
          simp only [Stream.advance, phase]
          exact ⟨⟨seen, delivered, sent⟩, by rintro ⟨⟩⟩
      | cons e rest =>
          rw [phase, StreamPhase.rest, List.append_cons] at delivered
          obtain ⟨p, hp, -⟩ := publicEvent_total d r s.db e
          simp only [Stream.advance, phase]
          refine ⟨⟨seen ++ [e], delivered, ?_⟩, by rintro ⟨⟩⟩
          rw [List.filter_append]
          refine List.rel_append sent ?_
          by_cases mine : q.sends e = true
          · rw [List.filter_cons_of_pos mine, if_pos mine, hp]
            exact .cons ⟨s.db, hp⟩ .nil
          · rw [List.filter_cons_of_neg mine, if_neg mine]
            exact .nil
  | status =>
      rw [phase] at delivered
      simp only [Stream.advance, phase]
      split
      · rename_i id message
        split
        · rename_i row found
          by_cases terminal : row.status.terminal = true
          · rw [if_pos terminal]
            refine ⟨⟨seen, delivered, sent⟩, ?_⟩
            rintro - id' message'
            rw [message] at message'
            cases message'
            exact ⟨row.result, Table.view_of_getIn found _, terminal⟩
          · rw [if_neg terminal]
            exact ⟨⟨seen, delivered, sent⟩, by rintro ⟨⟩⟩
        · exact ⟨⟨seen, delivered, sent⟩, by rintro ⟨⟩⟩
      · rename_i all
        split
        · split
          · exact ⟨⟨seen, delivered, sent⟩, fun _ id message => by rw [all] at message; cases message⟩
          · exact ⟨⟨seen, delivered, sent⟩, by rintro ⟨⟩⟩
        · exact ⟨⟨seen, delivered, sent⟩, by rintro ⟨⟩⟩
  | comparing =>
      rw [phase] at delivered
      simp only [Stream.advance, phase]
      split
      · exact ⟨⟨seen, delivered, sent⟩, by rintro ⟨⟩⟩
      · exact ⟨⟨seen, delivered, sent⟩, by rintro ⟨⟩⟩
  | done =>
      simp only [Stream.advance, phase]
      exact inv

/-! ## What a stream delivers -/

/-- What the stream of a message has written, and has written when it stops. -/
structure Delivers (d : Deployment) (r : Readings) (q : StreamRequest) (m : Uuid) (db : Db)
    (x : Stream) : Prop where
  /-- In order, so each event at most once. -/
  ordered : x.written.Pairwise fun p p' => p.seq < p'.seq
  /-- Only events of the message after the start. -/
  genuine : ∀ p ∈ x.written, ∃ e ∈ db.eventsOf q.sessionId, e.runId = m ∧
    q.afterSeq < e.sessionSeq ∧ Sent d r e p
  /-- None is skipped. -/
  gapless : ∀ p ∈ x.written, ∀ e ∈ db.eventsOf q.sessionId, e.runId = m →
    q.afterSeq < e.sessionSeq → e.sessionSeq < p.seq → ∃ p' ∈ x.written, Sent d r e p'
  /-- When the loop breaks, all events of the message after the start are written, -/
  complete : x.phase = .comparing → (x.advance d r q db).phase = .done →
    ∀ e ∈ db.eventsOf q.sessionId, e.runId = m → q.afterSeq < e.sessionSeq →
      ∃ p ∈ x.written, Sent d r e p
  /-- and its end was recorded. -/
  finished : x.phase = .comparing → ∀ row, db.run q.scopeId m = some row →
    row.sessionId = q.sessionId →
      ∃ e ∈ db.eventsOf q.sessionId, e.runId = m ∧ e.type = .runFinished

theorem sends_iff {m : Uuid} (message : q.terminalMessageId = some m) (e : EventRow) :
    q.sends e = true ↔ e.runId = m := by
  simp [StreamRequest.sends, message]

/-- What is written is what was sent of the events handled. -/
theorem mem_written {seen : List EventRow} {written : List PublicEvent}
    (sent : List.Forall₂ (Sent d r) seen written) :
    (∀ p ∈ written, ∃ e ∈ seen, Sent d r e p) ∧ ∀ e ∈ seen, ∃ p ∈ written, Sent d r e p := by
  induction sent with
  | nil => simp
  | @cons e p seen written h rest ih =>
      constructor
      · intro p' hp'
        rcases List.mem_cons.1 hp' with rfl | hp'
        · exact ⟨e, List.mem_cons_self, h⟩
        · obtain ⟨e', he', h'⟩ := ih.1 p' hp'
          exact ⟨e', List.mem_cons_of_mem _ he', h'⟩
      · intro e' he'
        rcases List.mem_cons.1 he' with rfl | he'
        · exact ⟨p, List.mem_cons_self, h⟩
        · obtain ⟨p', hp', h'⟩ := ih.2 e' he'
          exact ⟨p', List.mem_cons_of_mem _ hp', h'⟩

theorem written_ordered {seen : List EventRow} {written : List PublicEvent}
    (sent : List.Forall₂ (Sent d r) seen written)
    (increasing : Increasing EventRow.sessionSeq seen) :
    written.Pairwise fun p p' => p.seq < p'.seq := by
  induction sent with
  | nil => exact .nil
  | @cons e p seen written h rest ih =>
      obtain ⟨first, tail⟩ := List.pairwise_cons.1 increasing
      refine .cons ?_ (ih tail)
      intro p' hp'
      obtain ⟨e', he', h'⟩ := (mem_written rest).1 p' hp'
      rw [h.spec.1, h'.spec.1]
      exact first e' he'

/-- A run at its end has announced it. -/
theorem exists_finished {row : RunRow} (refines : s.db.Refines) (log : s.db.EventLog)
    (hrow : row ∈ s.db.runs) (terminal : row.status.terminal = true) :
    ∃ e ∈ s.db.eventsOf row.sessionId, e.runId = row.id ∧ e.type = .runFinished := by
  have known : s.db.results (row.scopeId, row.id) = some row.result := Table.view_of_mem hrow _
  obtain ⟨p, hp, -, -, last, length⟩ := refines.traced.path (row.scopeId, row.id) row.status
    row.stateVersion (by rw [known]; rfl)
  have mem : some row.status ∈ p.map some := List.mem_map_of_mem (List.mem_of_getLast? last)
  rw [← hp] at mem
  obtain ⟨e, he, denotes⟩ := List.mem_map.1 mem
  obtain ⟨loud, key⟩ := List.mem_filter.1 he
  obtain ⟨hevents, -⟩ := List.mem_filter.1 loud
  have key : e.runKey = (row.scopeId, row.id) := of_decide_eq_true key
  have session : e.sessionId = row.sessionId := by
    have owner := log.owner e hevents
    rw [key] at owner
    exact Option.some.inj (owner.symm.trans (Table.view_of_mem hrow RunRow.sessionId))
  refine ⟨e, List.mem_filter.2 ⟨hevents, decide_eq_true session⟩, (Prod.mk.inj key).2, ?_⟩
  exact EventRow.finished_of_terminal denotes terminal

theorem Inv.delivered {m : Uuid} (message : q.terminalMessageId = some m) (refines : s.db.Refines)
    (log : s.db.EventLog) (inv : x.Inv d r q s.db) : x.Delivers d r q m s.db := by
  obtain ⟨seen, delivered, sent⟩ := inv.handled
  have increasing : Increasing EventRow.sessionSeq (seen ++ x.phase.rest) :=
    delivered.increasing log.increasing
  obtain ⟨source, target⟩ := mem_written sent
  refine ⟨?_, ?_, ?_, ?_, ?_⟩
  · exact written_ordered sent ((increasing.sublist (List.sublist_append_left _ _)).filter _)
  · intro p hp
    obtain ⟨e, he, h⟩ := source p hp
    obtain ⟨he, mine⟩ := List.mem_filter.1 he
    obtain ⟨hlog, after, -⟩ := delivered.mem.1 (List.mem_append_left _ he)
    exact ⟨e, hlog, (sends_iff message e).1 mine, after, h⟩
  · intro p hp e he mine after below
    obtain ⟨e', he', h⟩ := source p hp
    obtain ⟨he', -⟩ := List.mem_filter.1 he'
    rw [h.spec.1] at below
    have upTo := (delivered.mem.1 (List.mem_append_left x.phase.rest he')).2.2
    have handled : e ∈ seen ++ x.phase.rest := delivered.mem.2 ⟨he, after, by omega⟩
    refine target e (List.mem_filter.2 ⟨?_, (sends_iff message e).2 mine⟩)
    rcases List.mem_append.1 handled with he | he
    · exact he
    · -- what is left of the page comes after what was written of it
      have := (List.pairwise_append.1 increasing).2.2 e' he' e he
      omega
  · intro phase ends e he mine after
    have atEnd : s.db.sessionEventCursor q.sessionId ≤ x.cursor := by
      by_contra behind
      simp only [Stream.advance, phase] at ends
      rw [if_neg behind] at ends
      cases ends
    rw [phase, show StreamPhase.comparing.rest = [] from rfl, List.append_nil] at delivered
    have all := delivered.complete fun e he => Nat.le_trans (Db.le_sessionEventCursor he) atEnd
    refine target e (List.mem_filter.2 ⟨?_, (sends_iff message e).2 mine⟩)
    rw [all]
    exact mem_entriesAfter.2 ⟨he, after⟩
  · intro phase row found session
    obtain ⟨hrow, scope, id⟩ := Db.run_eq_some.1 found
    obtain ⟨result, known, terminal⟩ := inv.ended phase m message
    have ended : row.status.terminal = true := by
      have same := (Table.view_of_getIn found RunRow.result).symm.trans known
      cases same
      exact terminal
    obtain ⟨e, he, mine, type⟩ := exists_finished refines log hrow ended
    exact ⟨e, session ▸ he, mine.trans id, type⟩

/-! ## Sending a message -/

/-- The message was accepted, under a key not used before, after the cursor the stream
starts from was read. -/
structure AfterSend (d : Deployment) (π : Discipline) (q : StreamRequest) (m : Uuid) (s : Store) :
    Prop where
  sent : ∃ (before accepting accepted : Store) (request : RunRequest) (key fingerprint : String)
      (snapshot : RunSnapshot) (run : AcceptedRun),
    Reachable d π before ∧ q.afterSeq = before.db.sessionEventCursor q.sessionId ∧
    Steps d π before accepting ∧ (∀ a ∈ accepting.db.acceptances, a.idempotencyKey ≠ key) ∧
    request.sessionId = q.sessionId ∧
    acceptOnce d request key fingerprint snapshot true accepting = .ok run accepted ∧
    run.id = m ∧ Steps d π accepted s

/-- A new run, and a store without it. -/
theorem AfterSend.fresh {m : Uuid} (h : AfterSend d π q m s) :
    ∃ before, Reachable d π before ∧ q.afterSeq = before.db.sessionEventCursor q.sessionId ∧
      Steps d π before s ∧ (∀ a ∈ before.db.acceptances, a.id ≠ m) ∧
      ∃ a ∈ s.db.acceptances, a.id = m ∧ a.sessionId = q.sessionId := by
  obtain ⟨before, accepting, accepted, request, key, fingerprint, snapshot, run, reach, cursor, st,
    unused, session, ok, rfl, st'⟩ := h.sent
  have call : Steps d π accepting accepted := by
    have step : CodeForge.Step d π accepting _ :=
      .call (.acceptOnce request key fingerprint snapshot true) (fun h => Bool.noConfusion h)
    rw [Op.exec, finalState_of_ok ok] at step
    exact .single step
  refine ⟨before, reach, cursor, (st.trans call).trans st', ?_⟩
  rcases acceptOnce_eq_ok (reach.steps st).names ok with
    ⟨-, -, a, ha, -, used, -⟩ | ⟨-, free, a, added, id, stored⟩
  · exact absurd (RequestKey.mk.inj used).2.2 (unused a ha)
  · have mem : a ∈ accepted.db.acceptances := by
      rw [added]
      exact List.mem_append_right _ (List.mem_singleton_self a)
    refine ⟨?_, a, st'.acceptances.subset mem, id, ?_⟩
    · intro b hb same
      have old : b ∈ accepting.db.acceptances := st.acceptances.subset hb
      have mem' : b ∈ accepted.db.acceptances := call.acceptances.subset old
      cases Db.acceptance_ext mem mem' (id.trans same.symm)
      exact free a old stored.key
    · exact ((RequestKey.mk.inj stored.key).2.1).trans session

/-- The first event of a run that is sent after a store without it is its acceptance. -/
theorem first_accepted {m : Uuid} {before : Store} (reach : Reachable d π before)
    (st : Steps d π before s) (cursor : q.afterSeq = before.db.sessionEventCursor q.sessionId)
    (new : ∀ a ∈ before.db.acceptances, a.id ≠ m) {a : Acceptance} (ha : a ∈ s.db.acceptances)
    (id : a.id = m) (session : a.sessionId = q.sessionId) (message : q.terminalMessageId = some m)
    (inv : x.Inv d r q s.db) {p : PublicEvent} (first : x.written.head? = some p) :
    p.type = .messageAccepted := by
  have reach' := reach.steps st
  have log := reach'.eventLog
  obtain ⟨row, hrow, rfl⟩ := Db.mem_acceptances.1 ha
  obtain ⟨e₀, found, type⟩ := reach'.opened _ ha
  obtain ⟨key₀, earlier, later, rows, none⟩ := List.find?_eq_some_iff_append.1 found
  have key₀ : e₀.runKey = (row.scopeId, row.id) := of_decide_eq_true key₀
  have mem₀ : e₀ ∈ s.db.events := List.mem_of_find?_eq_some found
  -- every event of the message is one of the run, and after the start
  have ofRun : ∀ e ∈ s.db.eventsOf q.sessionId, e.runId = m →
      e.runKey = (row.scopeId, row.id) ∧ q.afterSeq < e.sessionSeq := by
    intro e he mine
    constructor
    · obtain ⟨r', hr', key, -⟩ := log.owner_run (List.mem_filter.1 he).1
      have same : r'.id = row.id := ((Prod.mk.inj key).2.symm.trans mine).trans id.symm
      rw [key, Table.eq_of_key hr' hrow same]
    · rw [st.entriesAfter_cursor reach q.sessionId] at he
      rcases List.mem_append.1 he with old | he
      · obtain ⟨r', hr', key, -⟩ := reach.eventLog.owner_run (List.mem_filter.1 old).1
        exact absurd ((Prod.mk.inj key).2.symm.trans mine)
          (new _ (Db.mem_acceptances.2 ⟨r', hr', rfl⟩))
      · rw [cursor]
        exact (mem_entriesAfter.1 he).2
  have own₀ : e₀ ∈ s.db.eventsOf q.sessionId := by
    have owner := log.owner e₀ mem₀
    rw [key₀] at owner
    have same := Option.some.inj (owner.symm.trans (Table.view_of_mem hrow RunRow.sessionId))
    exact List.mem_filter.2 ⟨mem₀, decide_eq_true (same.trans session)⟩
  have mine₀ : e₀.runId = m := (Prod.mk.inj key₀).2.trans id
  obtain ⟨seen, delivered, sent⟩ := inv.handled
  have increasing : Increasing EventRow.sessionSeq (seen ++ x.phase.rest) :=
    delivered.increasing log.increasing
  generalize hmine : seen.filter q.sends = own at sent
  generalize hwritten : x.written = written at sent first
  cases sent with
  | nil => cases first
  | @cons e p' own' written' h tail =>
      cases first
      have he : e ∈ seen.filter q.sends := by
        rw [hmine]
        exact List.mem_cons_self
      obtain ⟨hseen, mine⟩ := List.mem_filter.1 he
      have mine := (sends_iff message e).1 mine
      obtain ⟨hlog, -, upTo⟩ := delivered.mem.1 (List.mem_append_left x.phase.rest hseen)
      obtain ⟨key, -⟩ := ofRun e hlog mine
      have same : e = e₀ := by
        have hrows : e ∈ earlier ++ e₀ :: later := rows ▸ (List.mem_filter.1 hlog).1
        rcases List.mem_append.1 hrows with he | he
        · have other := none e he
          simp [show e.runKey = row.acceptance.key from key] at other
        · rcases List.mem_cons.1 he with rfl | later'
          · rfl
          · -- the acceptance would be written before
            have lt : e₀.sessionSeq < e.sessionSeq := by
              have order := log.bySession.increasing
              rw [rows] at order
              exact (List.pairwise_cons.1 (List.pairwise_append.1 order).2.1).1 e later'
                (log.sessionKey_eq mem₀ (List.mem_filter.1 hlog).1 (key₀.trans key.symm))
            have handled : e₀ ∈ seen ++ x.phase.rest :=
              delivered.mem.2 ⟨own₀, (ofRun e₀ own₀ mine₀).2, by omega⟩
            rcases List.mem_append.1 handled with h₀ | h₀
            · have listed : e₀ ∈ e :: own' := by
                rw [← hmine]
                exact List.mem_filter.2 ⟨h₀, (sends_iff message e₀).2 mine₀⟩
              have sorted : Increasing EventRow.sessionSeq (e :: own') := by
                rw [← hmine]
                exact (increasing.sublist (List.sublist_append_left _ _)).filter _
              rcases List.mem_cons.1 listed with rfl | listed
              · rfl
              · have := (List.pairwise_cons.1 sorted).1 e₀ listed
                omega
            · have := (List.pairwise_append.1 increasing).2.2 e hseen e₀ h₀
              omega
      rw [same] at h
      exact (eventTypeMap_accepted h.spec.2.2).2 type

/-! ## Runs -/

section Runs

variable (hextra : ∀ extra, π.extra extra → extra = [])
  (hevent : ∀ type : EventType, type.lifecycle = true → ¬ π.event type)

include hextra hevent

theorem run_inv {s₀ : Store} {c : Unit → Stream} (reach : Reachable d π s₀)
    (run : (system d π r q).Run (s₀, fun _ => start q) (s, c)) :
    Steps d π s₀ s ∧ (c ()).Inv d r q s.db := by
  refine run.invariant (I := fun s c => Steps d π s₀ s ∧ (c ()).Inv d r q s.db) ?_ ?_
    ⟨.refl, .start d r q _⟩
  · rintro s t c st ⟨st₀, inv⟩
    exact ⟨st₀.tail st, inv.steps hextra hevent (reach.steps st₀) (.single st)⟩
  · rintro s t c x ⟨⟩ ⟨rfl, rfl⟩ ⟨st₀, inv⟩
    exact ⟨st₀, by rw [Function.update_self]; exact inv.advance (reach.steps st₀).eventLog⟩

/-- Whatever the store does meanwhile, a stream of a message delivers the events of the
message after its start, in order, each once, and all of them before it stops.  Where it
starts from a cursor read before the message was sent, it begins with the acceptance. -/
theorem delivers {m : Uuid} {s₀ : Store} {c : Unit → Stream} (reach : Reachable d π s₀)
    (message : q.terminalMessageId = some m)
    (run : (system d π r q).Run (s₀, fun _ => start q) (s, c)) :
    (c ()).Delivers d r q m s.db ∧
      (AfterSend d π q m s₀ → ∀ p, (c ()).written.head? = some p → p.type = .messageAccepted) := by
  obtain ⟨st, inv⟩ := run_inv hextra hevent reach run
  have reach' := reach.steps st
  refine ⟨inv.delivered message (reach'.refines hextra hevent) reach'.eventLog, ?_⟩
  intro sent p first
  obtain ⟨before, old, cursor, st₀, new, a, ha, id, session⟩ := sent.fresh
  exact first_accepted old (st₀.trans st) cursor new (st.acceptances.subset ha) id session message
    inv first

end Runs

/-- A stream that is left alone. -/
theorem advance_run {c : Unit → Stream} (n : Nat) :
    (system d π r q).Run (s, c) (s, fun _ => (Stream.advance d r q s.db)^[n] (c ())) := by
  induction n with
  | zero => exact .refl
  | succ n ih =>
      refine ih.tail ?_
      have moved : (fun _ : Unit => (Stream.advance d r q s.db)^[n + 1] (c ())) =
          Function.update (fun _ => (Stream.advance d r q s.db)^[n] (c ())) ()
            (((Stream.advance d r q s.db)^[n] (c ())).advance d r q s.db) := by
        funext u
        rw [Function.iterate_succ_apply', Function.update_self]
      rw [moved]
      exact .client () ⟨rfl, rfl⟩

/-- A stream of the first message, after a number. -/
def firstRequest (afterSeq : Nat) : StreamRequest := ⟨"ada", ⟨0⟩, some ⟨2⟩, afterSeq⟩

/-- The stream of the first message that watches it succeed. -/
theorem delivers_firstSuccess :
    let s := Op.execAll .plain Op.firstSuccess {}
    ∃ x : Stream, x.Delivers .plain .empty (firstRequest 0) ⟨2⟩ s.db ∧ x.phase = .comparing ∧
      x.written.map PublicEvent.type = [.messageAccepted, .messageStarted, .messageFinished] := by
  have reach : Reachable .plain .callers (Op.execAll .plain Op.firstSuccess {}) :=
    .execAll Op.firstSuccess_obeys
  have ends : let x := (Stream.advance .plain .empty (firstRequest 0)
      (Op.execAll .plain Op.firstSuccess {}).db)^[6] (start (firstRequest 0))
      x.phase = .comparing ∧ x.written.map PublicEvent.type =
        [.messageAccepted, .messageStarted, .messageFinished] := by decide +kernel
  generalize Op.execAll .plain Op.firstSuccess {} = s at reach ends ⊢
  have run := advance_run (d := .plain) (π := .callers) (r := .empty) (q := firstRequest 0) (s := s)
    (c := fun _ => start (firstRequest 0)) 6
  have holds := delivers (fun _ => Discipline.callers_extra) (fun _ => Discipline.callers_event) reach
    rfl run
  exact ⟨_, holds.1, ends⟩

/-- A stream that starts after the end of its message stops without writing it. -/
theorem misses_firstSuccess :
    let s := Op.execAll .plain Op.firstSuccess {}
    Reachable .plain .callers s ∧ ∃ x : Stream,
      (system .plain .callers .empty (firstRequest 3)).Run (s, fun _ => start (firstRequest 3))
        (s, fun _ => x) ∧
      x.phase = .comparing ∧ (x.advance .plain .empty (firstRequest 3) s.db).phase = .done ∧
      x.written.length = 0 ∧ ∃ e ∈ s.db.eventsOf ⟨0⟩, e.runId = ⟨2⟩ ∧ e.type = .runFinished := by
  have reach : Reachable .plain .callers (Op.execAll .plain Op.firstSuccess {}) :=
    .execAll Op.firstSuccess_obeys
  have ends : let s := Op.execAll .plain Op.firstSuccess {}
      let x := (Stream.advance .plain .empty (firstRequest 3) s.db)^[3] (start (firstRequest 3))
      x.phase = .comparing ∧ (x.advance .plain .empty (firstRequest 3) s.db).phase = .done ∧
        x.written.length = 0 ∧ ∃ e ∈ s.db.eventsOf ⟨0⟩, e.runId = ⟨2⟩ ∧ e.type = .runFinished := by
    decide +kernel
  generalize Op.execAll .plain Op.firstSuccess {} = s at reach ends ⊢
  exact ⟨reach, _, advance_run 3, ends⟩

end Stream

end CodeForge
