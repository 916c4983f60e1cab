import CodeForge.Lib.JsonRoundTrip
import CodeForge.Persistence.SessionLog

/-!
# Reading bodies

A row keeps references, and the readers of the store put the bodies in their
place.  Messages and objects are read whole, `_read_message` and
`_read_object_json`: a file that is missing, or is not the text of a JSON value,
is `DEPENDENCY_UNAVAILABLE`.  The record of an event is cut out of a log,
`read_verified`, and its digest is compared.  What goes wrong before the digest
is compared is not mapped, and leaves the store as the exception it is.

The files are whatever they are at the time of reading, so a `Reader` is given
them as a function.  It also says which file a reference stands for, where a body
holds one as a text.
-/

namespace CodeForge

open Lib

/-! ## Outcomes -/

/-- Why content is unavailable. -/
inductive Cause where
  /-- `Content object is unavailable: {ref}` -/
  | missing (ref : ContentPath)
  /-- `Content digest mismatch for {ref}` -/
  | mismatch (ref : ContentPath)
  /-- What `UnicodeDecodeError` says. -/
  | undecodable
  /-- What `JSONDecodeError` says. -/
  | malformed
deriving DecidableEq, Repr

/-- An exception that is no `DomainError`. -/
inductive Uncaught where
  /-- `FileNotFoundError` and the like. -/
  | os
  /-- `UnicodeDecodeError` -/
  | undecodable
  /-- `JSONDecodeError` -/
  | malformed
  /-- `UnicodeEncodeError` -/
  | unencodable
  /-- `AttributeError` -/
  | attribute
  /-- `TypeError` or `ValueError` -/
  | value
deriving DecidableEq, Repr

/-- What a reader raises. -/
inductive ReadError where
  /-- `DomainError(DEPENDENCY_UNAVAILABLE, f"Content is unavailable: {cause}")` -/
  | unavailable (cause : Cause)
  | uncaught (e : Uncaught)
deriving DecidableEq, Repr

/-- A body that was read. -/
inductive Body where
  | json (j : Json)
  /-- A value with half of a surrogate pair in it, which no body that was written has. -/
  | surrogate

/-- What a reader of the store finds around it. -/
structure Reader where
  numerals : Json.Numerals
  /-- The bytes of a file, none where opening or reading it fails. -/
  disk : FileKey → Option (List UInt8)
  /-- The file a reference stands for. -/
  locate : String → ContentPath

namespace Reader

variable (R : Reader)

/-! ## Objects -/

/-- `read_object` -/
def readObject (base : String) (ref : ContentPath) : Except ReadError (List UInt8) :=
  match R.disk (base, ref) with
  | some b => .ok b
  | none => .error (.unavailable (.missing ref))

/-- `json.loads(payload.decode("utf-8"))`, its errors mapped. -/
def loadObject (payload : List UInt8) : Except ReadError Body :=
  match loadBytes R.numerals payload with
  | .value j => .ok (.json j)
  | .surrogate => .ok .surrogate
  | .malformed => .error (.unavailable .malformed)
  | .undecodable => .error (.unavailable .undecodable)

/-- `_read_object_json` -/
def readObjectJson (base : String) (ref : ContentPath) : Except ReadError Body := do
  let payload ← R.readObject base ref
  R.loadObject payload

/-- `record.get("content", "")` -/
def contentOf : Body → Except ReadError Body
  | .json (.obj members) => .ok (.json (((Json.obj members).get? "content").getD (.str "")))
  | .json _ => .error (.uncaught .attribute)
  | .surrogate => .ok .surrogate

/-- `_read_message` -/
def readMessage (base : String) (ref : ContentPath) : Except ReadError Body := do
  let payload ← R.readObject base ref
  let record ← R.loadObject payload
  contentOf record

/-- The record of a message is a value. -/
theorem messageRecord_valid (numerals : Json.Numerals) (d : Deployment) (sessionId runId : Uuid)
    (role : Role) (content : String) (runSeq : Nat) :
    (Json.obj [("schema_version", .str "1"), ("session_id", .str (d.uuidText sessionId)),
      ("run_id", .str (d.uuidText runId)), ("run_seq", .nat runSeq), ("role", .str role.value),
      ("content", .str content)]).Valid numerals := by
  simp only [Json.Valid, Json.ValidMembers, Json.valid_nat, List.map_cons, List.map_nil, and_true]
  decide

/-- The content of a message is what was written. -/
theorem loadObject_message (d : Deployment) (sessionId runId : Uuid) (role : Role)
    (content : String) (runSeq : Nat) :
    (R.loadObject (messagePayload d sessionId runId role content runSeq) >>= contentOf) =
      .ok (.json (.str content)) := by
  have valid := messageRecord_valid R.numerals d sessionId runId role content runSeq
  have loaded := loadBytes_utf8 Json.Separators.compact valid
  unfold loadObject messagePayload Json.canonical
  rw [loaded, except_ok_bind]
  have found := Json.get?_sorted valid.1 "content"
  rw [Json.sorted] at found ⊢
  rw [contentOf, found]
  rfl

/-! ## Records of a log -/

/-- `read_record` -/
def readRecord (base : String) (ref : ContentPath) (offset length : Nat) :
    Except ReadError Body :=
  match R.disk (base, ref) with
  | none => .error (.uncaught .os)
  | some b =>
      match loadBytes R.numerals ((b.drop offset).take length) with
      | .value j => .ok (.json j)
      | .surrogate => .ok .surrogate
      | .malformed => .error (.uncaught .malformed)
      | .undecodable => .error (.uncaught .undecodable)

/-- `read_verified` -/
def readVerified (d : Deployment) (base : String) (ref : ContentPath) (offset length : Nat)
    (digest : String) : Except ReadError Body := do
  let record ← R.readRecord base ref offset length
  if digest = "" then .ok record
  else
    match record with
    | .json j =>
        if d.sha256 (utf8 j.canonical) ≠ digest then .error (.unavailable (.mismatch ref))
        else .ok record
    | .surrogate => .error (.uncaught .unencodable)

/-- `dict(record.get("data") or {})` -/
def dataOf : Json → Except ReadError (List (String × Json))
  | .obj members =>
      match (Json.obj members).get? "data" with
      | some (.obj data) => .ok data
      | some j => if j.truthy then .error (.uncaught .value) else .ok []
      | none => .ok []
  | _ => .error (.uncaught .attribute)

/-- The output an event refers to is put in the place of the reference. -/
def withOutput (base : String) (data : List (String × Json)) : Except ReadError Body :=
  let rest := data.filter fun m => m.1 ≠ "output_ref"
  let output := ((Json.obj rest).get? "output").getD .null
  match (Json.obj data).get? "output_ref", output with
  | some (.str ref), .null =>
      if ref = "" then .ok (.json (.obj rest))
      else do
        match ← R.readMessage base (R.locate ref) with
        | .json j => return .json (.obj ((rest.filter fun m => m.1 ≠ "output") ++ [("output", j)]))
        | .surrogate => return .surrogate
  | some ref, .null => if ref.truthy then .error (.uncaught .value) else .ok (.json (.obj rest))
  | _, _ => .ok (.json (.obj rest))

/-- `_event_payload` -/
def eventPayload (d : Deployment) (db : Db) (e : EventRow) : Except ReadError Body := do
  let base := db.baseForSession d e.sessionId
  match ← R.readVerified d base e.dataRef e.dataOffset e.dataBytes e.dataDigest with
  | .json record => do
      let data ← dataOf record
      R.withOutput base data
  | .surrogate => return .surrogate

/-! ## Readers of the store -/

/-- A run as the readers give it: its row, with bodies for the references. -/
structure RunView where
  row : RunRow
  configSnapshot : Body
  input : Body
  output : Option Body

/-- An event as the readers give it: its row, with the body for the reference. -/
structure EventView where
  row : EventRow
  data : Body

/-- `_decode_run` -/
def decodeRun (d : Deployment) (db : Db) (r : RunRow) : Except ReadError RunView := do
  let base := db.baseForSession d r.sessionId
  let configSnapshot ← R.readObjectJson base r.configSnapshotRef
  let input ← R.readMessage base r.inputRef
  let output ← r.outputRef.mapM fun ref => R.readMessage base ref
  return { row := r, configSnapshot, input, output }

/-- A run that was read has its row. -/
theorem decodeRun_row {R : Reader} {d : Deployment} {db : Db} {r : RunRow} {v : RunView}
    (h : R.decodeRun d db r = .ok v) : v.row = r := by
  simp only [decodeRun, except_bind_eq_ok] at h
  obtain ⟨_, -, _, -, _, -, h⟩ := h
  cases h
  rfl

/-- `get_run` -/
def getRun (d : Deployment) (db : Db) (scopeId : String) (runId : Uuid) :
    Except ReadError (Option RunView) :=
  (db.run scopeId runId).mapM fun r => R.decodeRun d db r

/-- The rows `list_runs` selects, one more than asked for. -/
def runPage (db : Db) (scopeId : String) (sessionId : Uuid) (cursor : Option Nat)
    (limit : Nat) : List RunRow :=
  ((db.runs.rows.filter fun r =>
      r.scopeId = scopeId && r.sessionId = sessionId &&
        cursor.all fun after => decide (after < r.runSeq)).insertionSort
    fun r s => r.runSeq ≤ s.runSeq).take (limit + 1)

/-- `list_runs` -/
def listRuns (d : Deployment) (db : Db) (scopeId : String) (sessionId : Uuid)
    (cursor : Option Nat) (limit : Nat) : Except ReadError (List RunView × Option Nat) := do
  let rows := runPage db scopeId sessionId cursor limit
  let items ← (rows.take limit).mapM fun r => R.decodeRun d db r
  -- `rows[limit - 1]` is the last row where the limit is zero
  let last := if limit = 0 then rows.getLast? else rows[limit - 1]?
  return (items, if limit < rows.length then last.map RunRow.runSeq else none)

/-- The rows `list_events` selects. -/
def eventPage (db : Db) (scopeId : String) (runId : Uuid) (afterSeq limit : Nat) :
    List EventRow :=
  ((db.events.rows.filter fun e =>
      e.scopeId = scopeId && e.runId = runId && decide (afterSeq < e.seq)).insertionSort
    fun e f => e.seq ≤ f.seq).take limit

/-- `_event_view` -/
def eventView (d : Deployment) (db : Db) (e : EventRow) : Except ReadError EventView := do
  let data ← R.eventPayload d db e
  return { row := e, data }

/-- `list_events` -/
def listEvents (d : Deployment) (db : Db) (scopeId : String) (runId : Uuid)
    (afterSeq limit : Nat) : Except ReadError (List EventView × Nat) := do
  let rows := eventPage db scopeId runId afterSeq limit
  let events ← rows.mapM fun e => R.eventView d db e
  return (events, (rows.getLast?.map EventRow.seq).getD afterSeq)

/-- `list_session_events` -/
def listSessionEvents (d : Deployment) (db : Db) (sessionId : Uuid) (afterSeq limit : Nat) :
    Except ReadError (List EventView × Nat) := do
  let (rows, nextAfter) := db.listSessionEvents sessionId afterSeq limit
  let events ← rows.mapM fun e => R.eventView d db e
  return (events, nextAfter)

/-! ## Snapshots -/

/-- A request for the user's input as `get_snapshot` gives it. -/
structure PendingView where
  id : String
  kind : String
  responseKey : Option String
  responseDigest : Option String
  resolvedAt : Option Timestamp
  prompt : Body

/-- `(... or {}).get("prompt", "")` -/
def promptOf : Body → Except ReadError Body
  | .json (.obj members) => .ok (.json (((Json.obj members).get? "prompt").getD (.str "")))
  | .json j => if j.truthy then .error (.uncaught .attribute) else .ok (.json (.str ""))
  | .surrogate => .ok .surrogate

/-- A pending response with its prompt. -/
def pendingView (base : String) (p : PendingRow) : Except ReadError PendingView := do
  let payload ← R.readObjectJson base (R.locate p.payloadRef)
  let prompt ← promptOf payload
  return { id := p.id, kind := p.kind, responseKey := p.responseKey,
           responseDigest := p.responseDigest, resolvedAt := p.resolvedAt, prompt }

/-- The pending responses of a run, the oldest first. -/
def pendingsOf (db : Db) (scopeId : String) (runId : Uuid) : List PendingRow :=
  (db.pendings.rows.filter fun p => p.scopeId = scopeId && p.runId = runId).insertionSort
    fun p q => p.audit.dateCreated ≤ q.audit.dateCreated

/-- `event_cursor`, without the identifier of the run in front. -/
def eventCursor (db : Db) (scopeId : String) (runId : Uuid) : Nat :=
  ((db.events.rows.filter fun e => e.scopeId = scopeId && e.runId = runId).map
    EventRow.seq).foldr max 0

/-- What `get_snapshot` gives. -/
structure SnapshotView where
  run : RunView
  eventCursor : Nat
  pendingResponses : List PendingView

/-- `get_snapshot` -/
def getSnapshot (d : Deployment) (db : Db) (scopeId : String) (runId : Uuid) :
    Except ReadError (Option SnapshotView) := do
  match ← R.getRun d db scopeId runId with
  | none => return none
  | some run => do
      let base := db.baseForSession d run.row.sessionId
      let pending ← (pendingsOf db scopeId runId).mapM fun p => R.pendingView base p
      return some { run, eventCursor := eventCursor db scopeId runId,
                    pendingResponses := pending }

end Reader

end CodeForge
