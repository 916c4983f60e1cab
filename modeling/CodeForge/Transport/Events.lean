import CodeForge.Persistence.SessionLog

/-!
# Events as the Platform sees them

The server hides runs: a run is a message, its status the status of the message, and
its events are sent under public types with a body of their own (`_public_event`).

A client keeps the current message and its status by the events it receives.  What it
knows is what the stored events tell, put in public terms (`foldl_followPublic`).

Bodies are read from content files, `Readings` says what is found there.
-/

namespace CodeForge

open Lib

/-! ## Vocabulary -/

/-- The status of a message. -/
inductive MessageStatus where
  | queued
  | running
  | waitingUser
  | waitingExternal
  | recovering
  | cancelling
  | succeeded
  | failed
  | cancelled
  | timedOut
deriving DecidableEq, Repr

namespace MessageStatus

/-- The text that is sent. -/
def value : MessageStatus → String
  | .queued => "QUEUED"
  | .running => "RUNNING"
  | .waitingUser => "WAITING_USER"
  | .waitingExternal => "WAITING_EXTERNAL"
  | .recovering => "RECOVERING"
  | .cancelling => "CANCELLING"
  | .succeeded => "SUCCEEDED"
  | .failed => "FAILED"
  | .cancelled => "CANCELLED"
  | .timedOut => "TIMED_OUT"

/-- Every status. -/
def all : List MessageStatus :=
  [.queued, .running, .waitingUser, .waitingExternal, .recovering, .cancelling, .succeeded,
    .failed, .cancelled, .timedOut]

/-- The status of a text. -/
def ofValue? (s : String) : Option MessageStatus := all.find? fun status => status.value = s

@[simp] theorem ofValue?_value (status : MessageStatus) : ofValue? status.value = some status := by
  cases status <;> decide

end MessageStatus

/-- The public type of an event. -/
inductive PlatformEventType where
  | messageAccepted
  | messageStarted
  | messageWaiting
  | messageResumed
  | messageRecovering
  | messageCancelRequested
  | messageFinished
  | messageDelta
  | messageCompleted
  | toolPrepared
  | toolStarted
  | toolOutput
  | toolFinished
  | toolUnknown
  | skillActivated
  | skillStarted
  | skillFinished
  | workspaceCommitted
deriving DecidableEq, Repr

/-- The text that is sent. -/
def PlatformEventType.value : PlatformEventType → String
  | .messageAccepted => "message.accepted"
  | .messageStarted => "message.started"
  | .messageWaiting => "message.waiting"
  | .messageResumed => "message.resumed"
  | .messageRecovering => "message.recovering"
  | .messageCancelRequested => "message.cancel_requested"
  | .messageFinished => "message.finished"
  | .messageDelta => "message.delta"
  | .messageCompleted => "message.completed"
  | .toolPrepared => "tool.prepared"
  | .toolStarted => "tool.started"
  | .toolOutput => "tool.output"
  | .toolFinished => "tool.finished"
  | .toolUnknown => "tool.unknown"
  | .skillActivated => "skill.activated"
  | .skillStarted => "skill.started"
  | .skillFinished => "skill.finished"
  | .workspaceCommitted => "workspace.committed"

/-- `EVENT_TYPE_MAP` -/
def eventTypeMap : List (EventType × PlatformEventType) :=
  [(.runAccepted, .messageAccepted), (.runStarted, .messageStarted),
    (.runWaiting, .messageWaiting), (.runResumed, .messageResumed),
    (.runRecovering, .messageRecovering), (.runCancelRequested, .messageCancelRequested),
    (.runFinished, .messageFinished), (.messageDelta, .messageDelta),
    (.messageCompleted, .messageCompleted), (.toolPrepared, .toolPrepared),
    (.toolStarted, .toolStarted), (.toolOutput, .toolOutput), (.toolFinished, .toolFinished),
    (.toolUnknown, .toolUnknown), (.skillActivated, .skillActivated),
    (.skillStarted, .skillStarted), (.skillFinished, .skillFinished),
    (.workspaceCommitted, .workspaceCommitted)]

/-- Every event has a public type. -/
theorem eventTypeMap_total (type : EventType) : ∃ sent, eventTypeMap.lookup type = some sent := by
  cases type <;> exact ⟨_, rfl⟩

theorem eventTypeMap_accepted {type : EventType} {sent : PlatformEventType}
    (h : eventTypeMap.lookup type = some sent) :
    sent = .messageAccepted ↔ type = .runAccepted := by
  cases type <;> cases h <;> simp

/-- The code of a response. -/
inductive BusinessCode where
  | ok
  | invalidRequest
  | sessionNotFound
  | messageNotFound
  | stateConflict
  | messageBusy
  | skillInvalid
  | executionFailed
  | executionUnknown
  | modelUnavailable
  | dependencyUnavailable
  | internalError
deriving DecidableEq, Repr

/-- The text that is sent. -/
def BusinessCode.value : BusinessCode → String
  | .ok => "0000"
  | .invalidRequest => "1001"
  | .sessionNotFound => "1002"
  | .messageNotFound => "1003"
  | .stateConflict => "1004"
  | .messageBusy => "1005"
  | .skillInvalid => "2001"
  | .executionFailed => "3001"
  | .executionUnknown => "3002"
  | .modelUnavailable => "4001"
  | .dependencyUnavailable => "5001"
  | .internalError => "9001"

/-- The status of the message of a run. -/
def messageStatus : RunStatus → MessageStatus
  | .queued => .queued
  | .running => .running
  | .waitingUser => .waitingUser
  | .waitingExternal => .waitingExternal
  | .recovering => .recovering
  | .cancelling => .cancelling
  | .succeeded => .succeeded
  | .failed => .failed
  | .cancelled => .cancelled
  | .timedOut => .timedOut

theorem messageStatus_injective : Function.Injective messageStatus := by
  intro status status' h
  cases status <;> cases status' <;> first | rfl | cases h

/-- `_message_status`: what is no status is a failure. -/
def messageStatusOf (status : String) : MessageStatus :=
  ((RunStatus.ofValue? status).map messageStatus).getD .failed

/-! ## Bodies -/

/-- What is found in content files, and the text of a value that is none. -/
structure Readings where
  /-- The content of a message file of a session, by its reference. -/
  message : Uuid → Json → Json
  /-- The prompt in a payload file of a session. -/
  prompt : Uuid → String → Json
  /-- `str(...)` -/
  str : Json → String

/-- Content files with nothing in them. -/
def Readings.empty : Readings := ⟨fun _ _ => .null, fun _ _ => .null, fun _ => ""⟩

/-- Python takes the value for true. -/
def truthy : Json → Bool
  | .null => false
  | .bool b => b
  | .num literal =>
      !(literal.toList.takeWhile fun c => c ≠ 'e' && c ≠ 'E').all fun c =>
        c = '-' || c = '0' || c = '.'
  | .str s => s ≠ ""
  | .arr items => !items.isEmpty
  | .obj members => !members.isEmpty

/-- `str(value)` -/
def Readings.strOf (r : Readings) : Json → String
  | .str s => s
  | value => r.str value

/-- `str(value or default)` for a member of an object. -/
def Readings.strOr (r : Readings) (object : Json) (name fallback : String) : String :=
  match object.get? name with
  | some value => if truthy value then r.strOf value else fallback
  | none => fallback

/-- `object.get(name)` -/
def getOrNull (object : Json) (name : String) : Json := (object.get? name).getD .null

/-- Members with a value for a name that is missing or null. -/
def putMissing (data : List (String × Json)) (name : String) (value : Json) :
    List (String × Json) :=
  match (Json.obj data).get? name with
  | none => data ++ [(name, value)]
  | some .null => data.map fun m => if m.1 = name then (m.1, value) else m
  | some _ => data

/-- `_event_payload`: the reference of an output is replaced by the output. -/
def eventPayload (r : Readings) (e : EventRow) : Json :=
  let data := e.data.members.filter fun m => m.1 ≠ "output_ref"
  let ref := getOrNull e.data "output_ref"
  .obj (if truthy ref then putMissing data "output" (r.message e.sessionId ref) else data)

/-- The business code of an error in a run. -/
def publicErrorCode (code : String) : BusinessCode :=
  ([("INVALID_REQUEST", BusinessCode.invalidRequest), ("SKILL_INCOMPATIBLE", .skillInvalid),
    ("SKILL_NOT_FOUND", .skillInvalid), ("MODEL_NOT_CONFIGURED", .modelUnavailable),
    ("EXECUTION_FAILED", .executionFailed), ("EXECUTION_UNKNOWN", .executionUnknown),
    ("DEPENDENCY_UNAVAILABLE", .dependencyUnavailable)].lookup code).getD .executionFailed

/-- `_public_error` -/
def publicError (r : Readings) (error : Json) (messageId : String) : Json :=
  if truthy error then
    let error := match error with
      | .str message => .obj [("message", .str message)]
      | error => error
    .obj [("code", .str (publicErrorCode (r.strOr error "code" "")).value),
      ("message", .str (r.strOr error "message" "Execution failed")),
      ("retryable", .bool (truthy (getOrNull error "retryable"))),
      ("request_id", .str (r.strOr error "request_id" messageId))]
  else .null

/-- What `get_pending_reply` answers. -/
def pendingReplyJson (d : Deployment) (r : Readings) (sessionId : Uuid) : Option PendingReply → Json
  | none => .null
  | some p => .obj [("pending_id", .str p.pendingId), ("message_id", .str (d.uuidText p.messageId)),
      ("kind", .str p.kind), ("prompt", r.prompt sessionId p.payloadRef)]

/-- An event as it is sent. -/
structure PublicEvent where
  eventId : Uuid
  sessionId : Uuid
  messageId : Uuid
  seq : Nat
  type : PlatformEventType
  occurredAt : Timestamp
  data : Json

/-- The body of a public event, and the store it is made at. -/
def publicData (d : Deployment) (r : Readings) (db : Db) (e : EventRow) : Json :=
  let messageId := ("message_id", Json.str (d.uuidText e.runId))
  let data := eventPayload r e
  let status := ("status", Json.str (messageStatusOf (r.strOr data "status" "")).value)
  match e.type with
  | .runAccepted => .obj [messageId, ("status", .str MessageStatus.queued.value)]
  | .runStarted => .obj [messageId, ("status", .str MessageStatus.running.value)]
  | .runResumed => .obj [messageId, ("status", .str MessageStatus.queued.value)]
  | .runWaiting =>
      .obj [messageId, status,
        ("pending_reply", pendingReplyJson d r e.sessionId (db.pendingReply e.sessionId))]
  | .runRecovering => .obj [messageId, ("reason", (data.get? "reason").getD (.str ""))]
  | .runCancelRequested => .obj [messageId, ("status", .str MessageStatus.cancelling.value)]
  | .runFinished =>
      .obj [messageId, status, ("task_outcome", getOrNull data "task_outcome"),
        ("output", getOrNull data "output"),
        ("error", publicError r (getOrNull data "error") (d.uuidText e.runId))]
  | .messageDelta | .messageCompleted => .obj [("text", (data.get? "text").getD (.str ""))]
  | _ => data

/-- `_public_event` -/
def publicEvent (d : Deployment) (r : Readings) (db : Db) (e : EventRow) : Option PublicEvent :=
  (eventTypeMap.lookup e.type).map fun type =>
    { eventId := e.eventId, sessionId := e.sessionId, messageId := e.runId, seq := e.sessionSeq,
      type, occurredAt := e.occurredAt, data := publicData d r db e }

/-- Every event is sent. -/
theorem publicEvent_total (d : Deployment) (r : Readings) (db : Db) (e : EventRow) :
    ∃ p, publicEvent d r db e = some p ∧ p.seq = e.sessionSeq ∧ p.messageId = e.runId ∧
      eventTypeMap.lookup e.type = some p.type := by
  obtain ⟨type, ht⟩ := eventTypeMap_total e.type
  exact ⟨_, by rw [publicEvent, ht, Option.map_some], rfl, rfl, ht⟩

/-! ## What a client knows -/

/-- The status an event tells a client. -/
def PublicEvent.status (p : PublicEvent) : Option MessageStatus :=
  match p.type with
  | .messageAccepted | .messageStarted | .messageWaiting | .messageResumed
  | .messageCancelRequested | .messageFinished =>
      match p.data.get? "status" with
      | some (.str s) => MessageStatus.ofValue? s
      | _ => none
  | .messageRecovering => some .recovering
  | _ => none

/-- A client takes an event to the current message it knows. -/
def followPublic : Option (Uuid × MessageStatus) → PublicEvent → Option (Uuid × MessageStatus) :=
  follow PublicEvent.messageId PublicEvent.status fun p => p.type = .messageAccepted

/-- What a client knows of the current message, when it knows the truth. -/
def publicMessage (current : Option (Uuid × RunStatus)) : Option (Uuid × MessageStatus) :=
  current.map fun x => (x.1, messageStatus x.2)

theorem publicMessage_injective : Function.Injective publicMessage :=
  Option.map_injective fun x y h => by
    obtain ⟨hid, hstatus⟩ := Prod.mk.inj h
    exact Prod.ext hid (messageStatus_injective hstatus)

theorem putMissing_get? (data : List (String × Json)) {name other : String} (value : Json)
    (h : other ≠ name) :
    (Json.obj (putMissing data name value)).get? other = (Json.obj data).get? other := by
  unfold putMissing
  split
  · simp [Json.get?, List.find?_append, Ne.symm h]
  · clear * - h
    induction data with
    | nil => rfl
    | cons m data ih =>
        simp only [Json.get?, List.map_cons, List.find?_cons] at ih ⊢
        by_cases hm : m.1 = name
        · simpa [hm, Ne.symm h] using ih
        · rw [if_neg hm]
          by_cases hn : m.1 = other
          · simp [hn]
          · simpa [hn] using ih
  · rfl

/-- Of the body of an event only its output is not as it was recorded. -/
theorem eventPayload_get? (r : Readings) (e : EventRow) {name : String}
    (href : name ≠ "output_ref") (hout : name ≠ "output") :
    (eventPayload r e).get? name = e.data.get? name := by
  have rest : (Json.obj (e.data.members.filter fun m => m.1 ≠ "output_ref")).get? name =
      e.data.get? name := by
    cases hd : e.data with
    | obj members =>
        simp only [Json.get?, Json.members, List.find?_filter]
        congr 2
        funext m
        by_cases hm : m.1 = name
        · simp [hm, href]
        · simp [hm]
    | _ => rfl
  rw [eventPayload]
  split
  · rw [putMissing_get? _ _ hout, rest]
  · exact rest

/-- A public event tells the status the stored event denotes. -/
theorem publicEvent_status {d : Deployment} {r : Readings} {db : Db} {e : EventRow}
    {p : PublicEvent} (h : publicEvent d r db e = some p)
    (told : e.type.lifecycle = true → ∃ status, e.denotes = some status) :
    p.status = e.denotes.map messageStatus := by
  obtain ⟨type, htype, rfl⟩ := Option.map_eq_some_iff.1 h
  -- the status of a waiting or finished message is read from the recorded body
  have spoken : ∀ status p, (statusOf e.data).filter p = some status →
      messageStatusOf (r.strOr (eventPayload r e) "status" "") = messageStatus status := by
    intro status p hs
    obtain ⟨hs, -⟩ := Option.filter_eq_some_iff.1 hs
    unfold statusOf at hs
    split at hs
    · rename_i text htext
      have hne : text ≠ "" := by
        rintro rfl
        cases hs
      rw [Readings.strOr, eventPayload_get? r e (by decide) (by decide), htext]
      simp [truthy, hne, Readings.strOf, messageStatusOf, hs]
    · cases hs
  cases ht : e.type with
  | runWaiting =>
      obtain ⟨status, hstatus⟩ := told (by rw [ht]; rfl)
      have hs := hstatus
      rw [EventRow.denotes, ht] at hs
      rw [ht] at htype
      cases htype
      rw [hstatus]
      simp [PublicEvent.status, publicData, ht, Json.get?, spoken _ _ hs]
  | runFinished =>
      obtain ⟨status, hstatus⟩ := told (by rw [ht]; rfl)
      have hs := hstatus
      rw [EventRow.denotes, ht] at hs
      rw [ht] at htype
      cases htype
      rw [hstatus]
      simp [PublicEvent.status, publicData, ht, Json.get?, spoken _ _ hs]
  | _ =>
      rw [ht] at htype
      cases htype
      simp [PublicEvent.status, publicData, EventRow.denotes, ht, Json.get?, messageStatus]

/-- A client that takes the events it is sent knows what the stored events tell.  The
bodies may be made at any time. -/
theorem foldl_followPublic {d : Deployment} {r : Readings} {sentAt : EventRow → Db}
    {events : List EventRow}
    (told : ∀ e ∈ events, e.type.lifecycle = true → ∃ status, e.denotes = some status)
    (seen : Option (Uuid × RunStatus)) :
    (events.filterMap fun e => publicEvent d r (sentAt e) e).foldl followPublic
      (publicMessage seen) = publicMessage (events.foldl followMessage seen) := by
  induction events generalizing seen with
  | nil => rfl
  | cons e events ih =>
      have ih := ih fun e' he' => told e' (List.mem_cons_of_mem _ he')
      obtain ⟨p, hp, -, hid, htype⟩ := publicEvent_total d r (sentAt e) e
      have hstatus := publicEvent_status hp (told e List.mem_cons_self)
      have haccepted := eventTypeMap_accepted htype
      have step : followPublic (publicMessage seen) p = publicMessage (followMessage seen e) := by
        unfold followPublic followMessage follow publicMessage
        rw [hstatus, hid]
        cases e.denotes with
        | none => rfl
        | some status =>
            simp only [Option.map_some, haccepted]
            split
            · rfl
            · cases seen with
              | none => rfl
              | some x =>
                  simp only [Option.map_some]
                  split <;> rfl
      rw [List.filterMap_cons_some (f := fun e => publicEvent d r (sentAt e) e) hp, List.foldl_cons, List.foldl_cons, step]
      exact ih _

end CodeForge
