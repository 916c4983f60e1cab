import CodeForge.Persistence.Offers
import CodeForge.Transport.Events

/-!
# Replaying events

An event that was sent is sent again when a client reconnects or lists the events of
a session.  Its public form is made anew from the store as it is then, from the
row of the event and its content, which stay as they are.  `message.waiting` also
takes the request that is open in the session at the time.  So it is sent again as it was if
the same request is offered, or none as before, and changes once the request is
answered or another one is opened (`replay_eq_live_iff`).

Content that can be read stays as it is, so one `Readings` serves for all times.
-/

namespace CodeForge

open Lib

variable {d : Deployment} {π : Discipline} {s t : Store} {r : Readings}

/-! ## What is offered -/

/-- A request as it is offered. -/
def PendingRow.offer (p : PendingRow) : PendingReply := ⟨p.id, p.runId, p.kind, p.payloadRef⟩

/-- A request is offered as it is in the tables. -/
theorem Db.pendingReply_offer {db : Db} {sessionId : Uuid} {reply : PendingReply}
    (h : db.pendingReply sessionId = some reply) : ∃ p ∈ db.pendings, reply = p.offer := by
  obtain ⟨⟨run, p⟩, chosen, rfl⟩ := Option.map_eq_some_iff.1 h
  have mem := List.mem_of_head? chosen
  rw [List.mem_insertionSort, List.mem_filterMap] at mem
  obtain ⟨q, hq, h⟩ := mem
  obtain ⟨run', -, h⟩ := Option.bind_eq_some_iff.1 h
  split at h
  · cases h
    exact ⟨p, hq, rfl⟩
  · cases h

/-- No step changes what a request is offered as. -/
theorem Step.offer (st : Step d π s t) {p : PendingRow} (known : p ∈ s.db.pendings) :
    ∃ q ∈ t.db.pendings, q.offer = p.offer := by
  rcases st.pendings with same | ⟨p', insert⟩ | ⟨p', key, text, h⟩
  · exact ⟨p, same ▸ known, rfl⟩
  · exact ⟨p, Table.mem_of_insert? insert known, rfl⟩
  · obtain ⟨file, n, m, actor, row⟩ := h.row
    rw [row, Table.updateIn]
    refine ⟨_, Table.mem_updateWhere.2 ⟨p, known, rfl⟩, ?_⟩
    split
    · rfl
    · rfl

theorem Steps.offer (st : Steps d π s t) {p : PendingRow} (known : p ∈ s.db.pendings) :
    ∃ q ∈ t.db.pendings, q.offer = p.offer := by
  induction st with
  | refl => exact ⟨p, known, rfl⟩
  | tail _ last ih =>
      obtain ⟨q, hq, same⟩ := ih
      obtain ⟨q', hq', same'⟩ := last.offer hq
      exact ⟨q', hq', same'.trans same⟩

/-- What is offered is told by the identifier. -/
theorem Steps.pendingReply_eq (st : Steps d π s t) {sessionId : Uuid} :
    t.db.pendingReply sessionId = s.db.pendingReply sessionId ↔
      (t.db.pendingReply sessionId).map PendingReply.pendingId =
        (s.db.pendingReply sessionId).map PendingReply.pendingId := by
  refine ⟨fun same => by rw [same], fun same => ?_⟩
  cases before : s.db.pendingReply sessionId with
  | none =>
      rw [before] at same
      exact Option.map_eq_none_iff.1 same
  | some reply =>
      rw [before, Option.map_some] at same
      obtain ⟨later, after, id⟩ := Option.map_eq_some_iff.1 same
      obtain ⟨p, hp, rfl⟩ := Db.pendingReply_offer before
      obtain ⟨q, hq, rfl⟩ := Db.pendingReply_offer after
      obtain ⟨q', hq', offer⟩ := st.offer hp
      have one : q = q' := by
        refine Table.eq_of_key hq hq' ?_
        have ids := congrArg PendingReply.pendingId offer
        exact id.trans ids.symm
      rw [after, one, offer]

/-! ## What is sent -/

/-- The identifier is sent. -/
theorem pendingReplyJson_id {sessionId : Uuid} {reply reply' : Option PendingReply}
    (h : pendingReplyJson d r sessionId reply = pendingReplyJson d r sessionId reply') :
    reply.map PendingReply.pendingId = reply'.map PendingReply.pendingId := by
  cases reply with
  | none =>
      cases reply' with
      | none => rfl
      | some q => cases h
  | some p =>
      cases reply' with
      | none => cases h
      | some q =>
          rw [pendingReplyJson, pendingReplyJson] at h
          injection h with members
          have first := (List.cons.inj members).1
          have id := congrArg Prod.snd first
          injection id with id
          exact congrArg some id

/-- Two stores tell an event alike unless it says that its run waits, and the stores offer
different requests. -/
theorem publicEvent_eq_iff {db db' : Db} {e : EventRow} :
    publicEvent d r db e = publicEvent d r db' e ↔
      (e.type = .runWaiting → pendingReplyJson d r e.sessionId (db.pendingReply e.sessionId) =
        pendingReplyJson d r e.sessionId (db'.pendingReply e.sessionId)) := by
  obtain ⟨type, sent⟩ := eventTypeMap_total e.type
  have bodies : publicEvent d r db e = publicEvent d r db' e ↔
      publicData d r db e = publicData d r db' e := by
    rw [publicEvent, publicEvent, sent, Option.map_some, Option.map_some, Option.some.injEq,
      PublicEvent.mk.injEq]
    simp only [true_and]
  rw [bodies]
  cases waits : decide (e.type = .runWaiting) with
  | true =>
      have waits := of_decide_eq_true waits
      simp only [publicData, waits, true_implies]
      constructor
      · intro same
        injection same with members
        have third := (List.cons.inj (List.cons.inj (List.cons.inj members).2).2).1
        exact congrArg Prod.snd third
      · intro same
        rw [same]
  | false =>
      have other := of_decide_eq_false waits
      refine iff_of_true ?_ fun waits => absurd waits other
      cases type : e.type with
      | runWaiting => exact absurd type other
      | _ => simp only [publicData, type]

/-- An event is sent again as it was if and only if it does not say that its run waits, or the
same request is offered. -/
theorem Steps.publicEvent_eq_iff (st : Steps d π s t) {e : EventRow} :
    publicEvent d r t.db e = publicEvent d r s.db e ↔
      (e.type = .runWaiting → (t.db.pendingReply e.sessionId).map PendingReply.pendingId =
        (s.db.pendingReply e.sessionId).map PendingReply.pendingId) := by
  rw [CodeForge.publicEvent_eq_iff]
  refine imp_congr_right fun _ => ⟨pendingReplyJson_id, fun ids => ?_⟩
  rw [st.pendingReply_eq.2 ids]

/-! ## Live and replayed -/

/-- Events that are made public one by one. -/
theorem filterMap_publicEvent_eq_iff {f g : EventRow → Db} {events : List EventRow} :
    (events.filterMap fun e => publicEvent d r (f e) e) =
        (events.filterMap fun e => publicEvent d r (g e) e) ↔
      ∀ e ∈ events, publicEvent d r (f e) e = publicEvent d r (g e) e := by
  induction events with
  | nil => simp
  | cons e events ih =>
      obtain ⟨p, sent, -⟩ := publicEvent_total d r (f e) e
      obtain ⟨q, sent', -⟩ := publicEvent_total d r (g e) e
      simp only [List.filterMap_cons, sent, sent', List.cons.injEq, ih, List.forall_mem_cons,
        Option.some.injEq]

/-- Any two reachable stores that have an event tell it alike, and what is replayed of a session
is what was delivered live, if and only if events that say that a run waits find the same
request offered. -/
theorem replay_eq_live_iff (d : Deployment) (π : Discipline) (r : Readings) :
    (∀ s t e, Reachable d π s → Reachable d π t → e ∈ s.db.events → e ∈ t.db.events →
      (publicEvent d r s.db e = publicEvent d r t.db e ↔
        (e.type = .runWaiting → pendingReplyJson d r e.sessionId (s.db.pendingReply e.sessionId) =
          pendingReplyJson d r e.sessionId (t.db.pendingReply e.sessionId)))) ∧
    ∀ (sentAt : EventRow → Store) t sessionId,
      (∀ e ∈ t.db.eventsOf sessionId, Reachable d π (sentAt e) ∧ e ∈ (sentAt e).db.events ∧
        Steps d π (sentAt e) t) →
      (((t.db.eventsOf sessionId).filterMap fun e => publicEvent d r t.db e) =
          ((t.db.eventsOf sessionId).filterMap fun e => publicEvent d r (sentAt e).db e) ↔
        ∀ e ∈ t.db.eventsOf sessionId, e.type = .runWaiting →
          (t.db.pendingReply sessionId).map PendingReply.pendingId =
            ((sentAt e).db.pendingReply sessionId).map PendingReply.pendingId) := by
  refine ⟨fun s t e _ _ _ _ => publicEvent_eq_iff, fun sentAt t sessionId live => ?_⟩
  rw [filterMap_publicEvent_eq_iff]
  refine forall_congr' fun e => forall_congr' fun he => ?_
  obtain ⟨-, -, st⟩ := live e he
  have own : e.sessionId = sessionId := of_decide_eq_true (List.mem_filter.1 he).2
  rw [st.publicEvent_eq_iff, own]

/-- The first run asks and is answered. -/
def Op.answered : List Op :=
  Op.asked ++ [.respondToRun "ada" ⟨2⟩ "q" "k" 2 "a" "user:ada"]

/-- The event of the wait, once the answer is there, is not the one that was sent. -/
theorem replay_answered :
    ∃ s t e, Reachable .plain {} s ∧ Steps .plain {} s t ∧ e ∈ s.db.events ∧ e ∈ t.db.events ∧
      publicEvent .plain .empty s.db e ≠ publicEvent .plain .empty t.db e := by
  have reach : Reachable .plain {} (Op.execAll .plain Op.asked {}) :=
    .execAll fun op _ => op.obeys_default
  have st : Steps .plain {} (Op.execAll .plain Op.asked {}) (Op.execAll .plain Op.answered {}) :=
    .execAll_append fun op _ => op.obeys_default
  have waits : ((Op.execAll .plain Op.asked {}).db.events.rows.any fun e =>
      e.type = .runWaiting && e.sessionId = ⟨0⟩) = true := by decide +kernel
  have offered : ((Op.execAll .plain Op.asked {}).db.pendingReply ⟨0⟩).map
      PendingReply.pendingId = some "q" := by decide +kernel
  have consumed : (Op.execAll .plain Op.answered {}).db.pendingReply ⟨0⟩ = none := by
    decide +kernel
  generalize Op.execAll .plain Op.asked {} = s at reach st waits offered
  generalize Op.execAll .plain Op.answered {} = t at st consumed
  obtain ⟨e, he, waits⟩ := List.any_eq_true.1 waits
  obtain ⟨type, session⟩ := Bool.and_eq_true_iff.1 waits
  refine ⟨s, t, e, reach, st, he, st.events.subset he, fun same => ?_⟩
  have ids := st.publicEvent_eq_iff.1 same.symm (of_decide_eq_true type)
  rw [of_decide_eq_true session, offered, consumed] at ids
  cases ids

end CodeForge
