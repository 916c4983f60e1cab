import CodeForge.Transport.Binding
import CodeForge.Transport.Events

/-!
# Reconnecting to a session

A client that lost its stream asks for the state of the session, and subscribes to the
events after the cursor in the answer.  The server reads the current message first
and the cursor last, each in a transaction of its own, so the cursor may be past
events the status does not know of.

What the client ends with is right exactly if the current message and its status are
the same at both reads, as they are when no lifecycle event of the session is
recorded between them.
-/

namespace CodeForge

open Lib

/-! ## The answer -/

/-- `_require_session_id` -/
def requireSession (db : Db) (sessionId : Uuid) : Except StoreError SessionView :=
  match db.getSessionUnscoped sessionId with
  | some view => .ok view
  | none => .error (.domain .sessionNotFound "Session not found")

/-- A session as it is sent. -/
structure PublicSession where
  sessionId : Uuid
  title : String
  userRelPath : String
  projectRef : Option String
  projectRelPath : String
  dateCreated : Timestamp
  dateUpdated : Timestamp
deriving DecidableEq, Repr

/-- `_project_rel_path` -/
def projectRelPathView (w : WorkspaceRow) : String :=
  if w.userPath = "" ∨ w.projectPath = "" then ""
  else match (PurePath.parse w.projectPath).relativeTo (.parse w.userPath) with
    | some path => path.render
    | none => ""

/-- `_session_view` -/
def sessionView (view : SessionView) : PublicSession where
  sessionId := view.session.id
  title := view.session.title
  userRelPath := view.workspace.userRelPath
  projectRef :=
    if isInternalRef view.workspace.projectRef then none else some view.workspace.projectRef
  projectRelPath := projectRelPathView view.workspace
  dateCreated := view.session.audit.dateCreated
  dateUpdated := view.session.audit.dateUpdated

/-- The answer to `get-session-state`. -/
structure SessionState where
  session : PublicSession
  currentMessage : Option (Uuid × MessageStatus)
  pendingReply : Json
  eventCursor : Nat

/-- `_get_session_state`: four reads, each of the store at its time. -/
def getSessionState (d : Deployment) (r : Readings) (sessionAt messageAt pendingAt cursorAt : Db)
    (sessionId : Uuid) : Except StoreError SessionState := do
  let view ← requireSession sessionAt sessionId
  let id := view.session.id
  return {
    session := sessionView view
    currentMessage := publicMessage (messageAt.current id)
    pendingReply := pendingReplyJson d r id (pendingAt.pendingReply id)
    eventCursor := cursorAt.sessionEventCursor id }

/-- What an answer is made of. -/
theorem getSessionState_eq_ok {d : Deployment} {r : Readings}
    {sessionAt messageAt pendingAt cursorAt : Db} {sessionId : Uuid} {state : SessionState}
    (h : getSessionState d r sessionAt messageAt pendingAt cursorAt sessionId = .ok state) :
    state.currentMessage = publicMessage (messageAt.current sessionId) ∧
      state.eventCursor = cursorAt.sessionEventCursor sessionId := by
  obtain ⟨view, row, h⟩ := except_bind_eq_ok.1 h
  cases h
  have hid : view.session.id = sessionId := by
    unfold requireSession at row
    split at row
    · rename_i found
      cases row
      obtain ⟨s', hs', found⟩ := Option.bind_eq_some_iff.1 found
      obtain ⟨w', -, view⟩ := Option.bind_eq_some_iff.1 found
      cases view
      exact (Table.get?_eq_some.1 hs').2
    · cases row
  rw [hid]
  exact ⟨rfl, rfl⟩

/-! ## The client -/

/-- The client that starts from the answer, given at a store, and takes all later events
knows the current message and its status. -/
def SessionState.Follows (d : Deployment) (π : Discipline) (r : Readings) (state : SessionState)
    (sessionId : Uuid) (s : Store) : Prop :=
  ∀ t, Steps d π s t → ∀ sentAt : EventRow → Db,
    ((entriesAfter EventRow.sessionSeq (t.db.eventsOf sessionId) state.eventCursor).filterMap
      fun e => publicEvent d r (sentAt e) e).foldl followPublic state.currentMessage =
        publicMessage (t.db.current sessionId)

/-- Every lifecycle event up to the cursor was there when the status was read. -/
def SessionState.Covers (state : SessionState) (sessionId : Uuid) (messageAt cursorAt : Db) :
    Prop :=
  ∀ e ∈ cursorAt.eventsOf sessionId, e.type.lifecycle = true → e.sessionSeq ≤ state.eventCursor →
    e ∈ messageAt.eventsOf sessionId

/-- The lifecycle events of a session. -/
def Db.lifecycleOf (db : Db) (sessionId : Uuid) : List EventRow :=
  (db.eventsOf sessionId).filter fun e => e.type.lifecycle

section Reconnect

variable {d : Deployment} {π : Discipline} {s t : Store} {sessionId : Uuid}
  (hextra : ∀ extra, π.extra extra → extra = [])
  (hevent : ∀ type : EventType, type.lifecycle = true → ¬ π.event type)

include hextra hevent

/-- Every lifecycle event denotes a status. -/
theorem Reachable.denotes (h : Reachable d π s) {e : EventRow} (he : e ∈ s.db.eventsOf sessionId)
    (loud : e.type.lifecycle = true) : ∃ status, e.denotes = some status :=
  (h.refines hextra hevent).traced.denotes_of_mem
    (List.mem_filter.2 ⟨(List.mem_filter.1 he).1, loud⟩)

/-- The current message depends on the lifecycle events of the session only. -/
theorem Reachable.current_congr (hs : Reachable d π s) (ht : Reachable d π t)
    (h : t.db.lifecycleOf sessionId = s.db.lifecycleOf sessionId) :
    t.db.current sessionId = s.db.current sessionId := by
  have silent : ∀ e : EventRow, e.type.lifecycle = false → e.denotes = none :=
    fun e => EventRow.denotes_eq_none
  rw [hs.current_eq_follow hextra hevent, ht.current_eq_follow hextra hevent]
  have heard : ∀ db : Db, (db.eventsOf sessionId).foldl followMessage none =
      (db.lifecycleOf sessionId).foldl followMessage none := fun db =>
    (foldl_follow_filter (fun e _ => silent e) none).symm
  rw [heard, heard, h]

/-- A client that knows the current message of a store, right or not, knows at any later
store what the later events make of it. -/
theorem Reachable.foldl_afterCursor {u : Store} (reach : Reachable d π t) (st : Steps d π t u)
    (r : Readings) (sentAt : EventRow → Db) (seen : Option (Uuid × RunStatus)) :
    ∃ new, u.db.eventsOf sessionId = t.db.eventsOf sessionId ++ new ∧
      ((entriesAfter EventRow.sessionSeq (u.db.eventsOf sessionId)
        (t.db.sessionEventCursor sessionId)).filterMap fun e =>
          publicEvent d r (sentAt e) e).foldl followPublic (publicMessage seen) =
            publicMessage (new.foldl followMessage seen) := by
  refine ⟨_, st.entriesAfter_cursor reach sessionId, foldl_followPublic ?_ seen⟩
  intro e he
  exact (reach.steps st).denotes hextra hevent (mem_entriesAfter.1 he).1

/-- The client follows if and only if the current message was still the same when the
cursor was read. -/
theorem Reachable.follows_iff (reach : Reachable d π s) (st : Steps d π s t) (r : Readings)
    {state : SessionState} (message : state.currentMessage = publicMessage (s.db.current sessionId))
    (cursor : state.eventCursor = t.db.sessionEventCursor sessionId) :
    state.Follows d π r sessionId t ↔ t.db.current sessionId = s.db.current sessionId := by
  have reach' := reach.steps st
  unfold SessionState.Follows
  rw [message, cursor]
  constructor
  · intro follows
    -- no event is after the cursor yet
    obtain ⟨new, hnew, hfold⟩ := reach'.foldl_afterCursor hextra hevent
      .refl r (fun _ => t.db) (s.db.current sessionId)
    rw [follows t .refl fun _ => t.db] at hfold
    cases List.append_cancel_left ((List.append_nil _).trans hnew)
    exact publicMessage_injective hfold
  · intro same u st' sentAt
    obtain ⟨new, hnew, hfold⟩ := reach'.foldl_afterCursor hextra hevent st' r
      sentAt (s.db.current sessionId)
    rw [hfold, ← same, reach'.current_eq_follow hextra hevent,
      (reach'.steps st').current_eq_follow hextra hevent, hnew, List.foldl_append]

omit hextra hevent in
/-- The answer covers all lifecycle events up to its cursor if and only if none was
recorded between the two reads. -/
theorem Reachable.covers_iff (reach : Reachable d π s) (st : Steps d π s t) {state : SessionState}
    (cursor : state.eventCursor = t.db.sessionEventCursor sessionId) :
    state.Covers sessionId s.db t.db ↔ t.db.lifecycleOf sessionId = s.db.lifecycleOf sessionId := by
  obtain ⟨new, hnew⟩ := st.eventsOf sessionId
  have increasing : Increasing EventRow.sessionSeq (s.db.eventsOf sessionId ++ new) := by
    rw [← hnew]
    exact (reach.steps st).eventLog.increasing
  unfold SessionState.Covers
  rw [cursor, Db.lifecycleOf, Db.lifecycleOf, hnew, List.filter_append, List.append_right_eq_self,
    List.filter_eq_nil_iff]
  constructor
  · intro covers e he loud
    have mem : e ∈ s.db.eventsOf sessionId ++ new := List.mem_append_right _ he
    have old := covers e mem loud (Db.le_sessionEventCursor (hnew ▸ mem))
    exact absurd ((List.pairwise_append.1 increasing).2.2 e old e he) (Nat.lt_irrefl _)
  · intro quiet e he loud _
    rcases List.mem_append.1 he with he | he
    · exact he
    · exact absurd loud (quiet e he)

/-- What a client ends with that resumes from an answer.  The answer covers all
lifecycle events up to its cursor, and leads to the truth, if and only if no lifecycle
event of the session was recorded between the reads of the message and of the cursor;
to the truth alone, if and only if message and status were the same at both. -/
theorem getSessionState_resumes {sessionAt pendingAt : Store} (reach : Reachable d π sessionAt)
    (toMessage : Steps d π sessionAt s) (toPending : Steps d π s pendingAt)
    (toCursor : Steps d π pendingAt t) (r : Readings) {state : SessionState}
    (h : getSessionState d r sessionAt.db s.db pendingAt.db t.db sessionId = .ok state) :
    (state.Follows d π r sessionId t ∧ state.Covers sessionId s.db t.db ↔
      t.db.lifecycleOf sessionId = s.db.lifecycleOf sessionId) ∧
    (state.Follows d π r sessionId t ↔ t.db.current sessionId = s.db.current sessionId) := by
  obtain ⟨message, cursor⟩ := getSessionState_eq_ok h
  have reach' := reach.steps toMessage
  have st := toPending.trans toCursor
  have follows := reach'.follows_iff hextra hevent st r message cursor
  have covers := reach'.covers_iff st cursor
  refine ⟨⟨fun h => covers.1 h.2, fun quiet => ⟨follows.2 ?_, covers.2 quiet⟩⟩, follows⟩
  exact reach'.current_congr hextra hevent (reach'.steps st) quiet

end Reconnect

/-- The worker of the first run says something. -/
def Op.firstDelta : List Op :=
  Op.firstClaim ++ [.appendEvent "ada" ⟨2⟩ .messageDelta [("text", .str "d")] "w1"]

theorem Op.firstDelta_obeys : ∀ op ∈ Op.firstDelta, op.Obeys .callers := by
  intro op hop
  rcases List.mem_append.1 hop with hop | hop
  · exact Op.firstClaim_obeys trivial trivial op hop
  · rw [List.mem_singleton.1 hop]
    rfl

/-- The answer for a session that exists. -/
theorem getSessionState_isOk (d : Deployment) (r : Readings) {sessionAt : Db}
    (messageAt pendingAt cursorAt : Db) {sessionId : Uuid}
    (h : (sessionAt.getSessionUnscoped sessionId).isSome = true) :
    ∃ state, getSessionState d r sessionAt messageAt pendingAt cursorAt sessionId = .ok state := by
  obtain ⟨view, found⟩ := Option.isSome_iff_exists.1 h
  rw [getSessionState, requireSession, found]
  exact ⟨_, rfl⟩

/-- A client resumes while the worker of the first run says something. -/
theorem getSessionState_resumes_firstDelta :
    let s := Op.execAll .plain Op.firstClaim {}
    let t := Op.execAll .plain Op.firstDelta {}
    ∃ state, getSessionState .plain .empty s.db s.db s.db t.db ⟨0⟩ = .ok state ∧
      state.Follows .plain .callers .empty ⟨0⟩ t ∧ state.Covers ⟨0⟩ s.db t.db := by
  have reach : Reachable .plain .callers (Op.execAll .plain Op.firstClaim {}) :=
    .execAll (Op.firstClaim_obeys trivial trivial)
  have st : Steps .plain .callers (Op.execAll .plain Op.firstClaim {})
      (Op.execAll .plain Op.firstDelta {}) :=
    .execAll_append fun op hop => Op.firstDelta_obeys op (List.mem_append_right _ hop)
  have found : ((Op.execAll .plain Op.firstClaim {}).db.getSessionUnscoped ⟨0⟩).isSome = true := by
    decide +kernel
  have length : ((Op.execAll .plain Op.firstDelta {}).db.lifecycleOf ⟨0⟩).length =
      ((Op.execAll .plain Op.firstClaim {}).db.lifecycleOf ⟨0⟩).length := by decide +kernel
  generalize Op.execAll .plain Op.firstDelta {} = t at st length ⊢
  generalize Op.execAll .plain Op.firstClaim {} = s at reach st found length ⊢
  obtain ⟨state, h⟩ := getSessionState_isOk .plain .empty s.db s.db t.db found
  obtain ⟨new, hnew⟩ := st.eventsOf ⟨0⟩
  have quiet : t.db.lifecycleOf ⟨0⟩ = s.db.lifecycleOf ⟨0⟩ := by
    rw [Db.lifecycleOf, Db.lifecycleOf, hnew, List.filter_append] at length ⊢
    simpa using length
  exact ⟨state, h, (getSessionState_resumes (fun _ => Discipline.callers_extra)
    (fun _ => Discipline.callers_event) reach .refl .refl st .empty h).1.2 quiet⟩

/-- The first run ends between the reads of the message and of the cursor: the client is
told that it is running, and never hears that it succeeded. -/
theorem getSessionState_misses_firstSuccess :
    let s := Op.execAll .plain Op.firstClaim {}
    let t := Op.execAll .plain Op.firstSuccess {}
    Reachable .plain .callers s ∧ Steps .plain .callers s t ∧
      ∃ state, getSessionState .plain .empty s.db s.db s.db t.db ⟨0⟩ = .ok state ∧
        ¬ state.Follows .plain .callers .empty ⟨0⟩ t ∧ ¬ state.Covers ⟨0⟩ s.db t.db := by
  have reach : Reachable .plain .callers (Op.execAll .plain Op.firstClaim {}) :=
    .execAll (Op.firstClaim_obeys trivial trivial)
  have st : Steps .plain .callers (Op.execAll .plain Op.firstClaim {})
      (Op.execAll .plain Op.firstSuccess {}) :=
    .execAll_append fun op hop => Op.firstSuccess_obeys op (List.mem_append_right _ hop)
  have found : ((Op.execAll .plain Op.firstClaim {}).db.getSessionUnscoped ⟨0⟩).isSome = true := by
    decide +kernel
  have running : (Op.execAll .plain Op.firstClaim {}).db.current ⟨0⟩ = some (⟨2⟩, .running) := by
    decide +kernel
  have succeeded : (Op.execAll .plain Op.firstSuccess {}).db.current ⟨0⟩ =
      some (⟨2⟩, .succeeded) := by decide +kernel
  generalize Op.execAll .plain Op.firstSuccess {} = t at st succeeded ⊢
  generalize Op.execAll .plain Op.firstClaim {} = s at reach st found running ⊢
  obtain ⟨state, h⟩ := getSessionState_isOk .plain .empty s.db s.db t.db found
  obtain ⟨message, cursor⟩ := getSessionState_eq_ok h
  have changed : t.db.current ⟨0⟩ ≠ s.db.current ⟨0⟩ := by
    rw [running, succeeded]
    decide
  refine ⟨reach, st, state, h, fun follows => changed ?_, fun covers => changed ?_⟩
  · exact (reach.follows_iff (fun _ => Discipline.callers_extra)
      (fun _ => Discipline.callers_event) st .empty message cursor).1 follows
  · exact reach.current_congr (fun _ => Discipline.callers_extra)
      (fun _ => Discipline.callers_event) (reach.steps st) ((reach.covers_iff st cursor).1 covers)

end CodeForge
