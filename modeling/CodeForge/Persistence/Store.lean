import CodeForge.Persistence.Schema
import CodeForge.Lib.Fallible

/-!
# Transactions over the store

A store is the database, the content files, and how many identifiers and clock
readings were drawn so far.  A `Deployment` fixes what the code reads from its
surroundings: the host's file system, the digest function, the text of the n-th
identifier, the n-th reading of the clock (any texts, in any order), the
directory of the database and the size at which a log is full.

Operations are programs in `StoreM`.  `transaction` undoes the tables when its
body stops with an error.  The files and the identifiers drawn stay: a body is
written before the rows that refer to it, and never taken back.

Every operation records its events through `insertEventLocked`.
-/

namespace CodeForge

open Lib

/-- What the Runtime finds around it. -/
structure Deployment where
  host : Host
  /-- `hashlib.sha256(...).hexdigest()` -/
  sha256 : List UInt8 → String
  /-- The text of an identifier. -/
  uuidText : Uuid → String
  /-- The readings of the clock, as `_iso` renders them. -/
  clock : Nat → Timestamp
  /-- The directory of the database. -/
  legacyRoot : String
  maxFileBytes : Nat := 8 * 1024 * 1024

/-- The state of the store. -/
structure Store where
  db : Db := {}
  files : Files := ∅
  /-- Identifiers drawn so far. -/
  drawn : Nat := 0
  /-- Clock readings so far. -/
  ticks : Nat := 0

/-- A program over the store. -/
abbrev StoreM := EStateM StoreError Store

namespace StoreM

/-! ## Statements -/

/-- The tables as the transaction sees them. -/
def getDb : StoreM Db := fun s => .ok s.db s

/-- Rewrite the tables. -/
def modifyDb (f : Db → Db) : StoreM Unit := fun s => .ok () { s with db := f s.db }

/-- `str(uuid4())` -/
def uuid4 : StoreM Uuid := fun s => .ok ⟨s.drawn⟩ { s with drawn := s.drawn + 1 }

/-- `_now()` -/
def now (d : Deployment) : StoreM Timestamp :=
  fun s => .ok (d.clock s.ticks) { s with ticks := s.ticks + 1 }

/-- Undo the tables if the body stops with an error. -/
def transaction {α : Type} (body : StoreM α) : StoreM α := fun s =>
  match body s with
  | .ok a s' => .ok a s'
  | .error e s' => .error e { s' with db := s.db }

/-- Write an object file. -/
def writeObject (d : Deployment) (base : String) (path : ContentPath) (payload : List UInt8) :
    StoreM ObjectRef := fun s =>
  let written := s.files.writeObject d.sha256 base path payload
  .ok written.1 { s with files := written.2 }

/-- Append a record to a log. -/
def appendRecord (d : Deployment) (base : String) (session : Uuid) (record : Json) :
    StoreM ContentRef := fun s =>
  let written := s.files.appendRecord d.sha256 d.maxFileBytes base session record
  .ok written.1 { s with files := written.2 }

variable {α : Type}

theorem getDb_bind_eq_ok {f : Db → StoreM α} {s s' : Store} {a : α} :
    (getDb >>= f) s = .ok a s' ↔ f s.db s = .ok a s' := Iff.rfl

theorem modifyDb_eq_ok {f : Db → Db} {s s' : Store} {u : Unit} :
    modifyDb f s = .ok u s' ↔ s' = { s with db := f s.db } := by
  simp [modifyDb, eq_comm]

theorem modifyDb_bind_eq_ok {g : Db → Db} {f : Unit → StoreM α} {s s' : Store} {a : α} :
    (modifyDb g >>= f) s = .ok a s' ↔ f () { s with db := g s.db } = .ok a s' := Iff.rfl

theorem uuid4_bind_eq_ok {f : Uuid → StoreM α} {s s' : Store} {a : α} :
    (uuid4 >>= f) s = .ok a s' ↔ f ⟨s.drawn⟩ { s with drawn := s.drawn + 1 } = .ok a s' := Iff.rfl

theorem now_bind_eq_ok {d : Deployment} {f : Timestamp → StoreM α} {s s' : Store} {a : α} :
    (now d >>= f) s = .ok a s' ↔
      f (d.clock s.ticks) { s with ticks := s.ticks + 1 } = .ok a s' := Iff.rfl

theorem writeObject_bind_eq_ok {d : Deployment} {base : String} {path : ContentPath}
    {payload : List UInt8} {f : ObjectRef → StoreM α} {s s' : Store} {a : α} :
    (writeObject d base path payload >>= f) s = .ok a s' ↔
      f (s.files.writeObject d.sha256 base path payload).1
        { s with files := (s.files.writeObject d.sha256 base path payload).2 } = .ok a s' :=
  Iff.rfl

theorem appendRecord_bind_eq_ok {d : Deployment} {base : String} {session : Uuid}
    {record : Json} {f : ContentRef → StoreM α} {s s' : Store} {a : α} :
    (appendRecord d base session record >>= f) s = .ok a s' ↔
      f (s.files.appendRecord d.sha256 d.maxFileBytes base session record).1
        { s with
          files := (s.files.appendRecord d.sha256 d.maxFileBytes base session record).2 } =
        .ok a s' :=
  Iff.rfl

theorem transaction_eq_ok {body : StoreM α} {s s' : Store} {a : α} :
    transaction body s = .ok a s' ↔ body s = .ok a s' := by
  unfold transaction
  cases body s <;> simp

theorem transaction_ends {body : StoreM α} {s : Store} (h : Ends body s) :
    Ends (transaction body) s := by
  obtain ⟨a, s', h⟩ := h
  exact ⟨a, s', transaction_eq_ok.2 h⟩

/-- A transaction that fails leaves the tables as they were. -/
theorem transaction_error_db {body : StoreM α} {s s' : Store} {e : StoreError}
    (h : transaction body s = .error e s') : s'.db = s.db := by
  unfold transaction at h
  cases hb : body s with
  | ok a s1 => simp [hb] at h
  | error e1 s1 =>
      simp only [hb] at h
      cases h
      rfl

end StoreM

/-! ## Events -/

/-- `_base_for_session`: the user root of the session, or the directory of the
database. -/
def Db.baseForSession (d : Deployment) (db : Db) (sessionId : Uuid) : String :=
  match (db.sessions.get? sessionId).bind fun s => db.workspace s.scopeId s.workspaceId with
  | some w => if w.userPath ≠ "" then w.userPath else d.legacyRoot
  | none => d.legacyRoot

/-- The record of an event in the log of its session. -/
def eventRecord (d : Deployment) (e : EventRow) (runSeq : Nat) (actor : String) : Json :=
  .obj [("schema_version", .str "1"), ("record_id", .str (d.uuidText e.eventId)),
    ("session_id", .str (d.uuidText e.sessionId)), ("run_id", .str (d.uuidText e.runId)),
    ("run_seq", .nat runSeq), ("session_seq", .nat e.sessionSeq), ("kind", .str "event"),
    ("type", .str e.type.value), ("occurred_at", .str e.occurredAt),
    ("actor_ref", .str actor), ("data", e.data)]

/-- An event whose body was written. -/
def EventRow.withContent (e : EventRow) (content : ContentRef) : EventRow :=
  { e with
    dataRef := content.ref, dataOffset := content.offset, dataBytes := content.bytes,
    dataDigest := content.digest }

/-- The record of an event does not mention where it stands. -/
theorem eventRecord_withContent (d : Deployment) (e : EventRow) (content : ContentRef)
    (runSeq : Nat) (actor : String) :
    eventRecord d (e.withContent content) runSeq actor = eventRecord d e runSeq actor := rfl

/-- A row of a run, its event counter set. -/
def RunRow.setNextEventSeq (r : RunRow) (n : Nat) (now : Timestamp) (actor : String) : RunRow :=
  { r with nextEventSeq := n, audit := r.audit.update now actor }

/-- A row of a session, its event counter set. -/
def SessionRow.setNextEventSeq (s : SessionRow) (n : Nat) (now : Timestamp) (actor : String) :
    SessionRow :=
  { s with nextEventSeq := n, audit := s.audit.update now actor }

/-- Set the event counters of a run and its session. -/
def Db.setEventSeqs (db : Db) (e : EventRow) (now : Timestamp) (actor : String) : Db :=
  { db with
    runs := db.runs.updateIn e.scopeId e.runId
      (fun r => r.setNextEventSeq (e.seq + 1) now actor)
    sessions := db.sessions.updateIn e.scopeId e.sessionId
      (fun s => s.setNextEventSeq (e.sessionSeq + 1) now actor) }

/-- `_insert_event_locked`: write the body, insert the row, advance both
counters. -/
def insertEventLocked (d : Deployment) (scopeId : String) (runId : Uuid) (type : EventType)
    (data : Json) (actor : String) (occurredAt : Timestamp) : StoreM EventRow := do
  let db ← StoreM.getDb
  let run ← orThrow (db.run scopeId runId) (.domain .runNotFound "Run not found")
  let session ← orThrow (db.session run.scopeId run.sessionId)
    (.domain .runNotFound "Run not found")
  let eventId ← StoreM.uuid4
  let now ← StoreM.now d
  let unwritten : EventRow :=
    { eventId, scopeId, runId, sessionId := run.sessionId, seq := run.nextEventSeq,
      sessionSeq := session.nextEventSeq, type, data, dataRef := .log run.sessionId 0,
      dataOffset := 0, dataBytes := 0, dataDigest := "", occurredAt,
      audit := .insert now actor }
  let content ← StoreM.appendRecord d (db.baseForSession d run.sessionId) run.sessionId
    (eventRecord d unwritten run.runSeq actor)
  let event := unwritten.withContent content
  let events ← orThrow (db.events.insert? event) (.integrity "run_events")
  StoreM.modifyDb fun db => ({ db with events }).setEventSeqs event now actor
  return event

end CodeForge
