import Mathlib.Logic.Relation
import CodeForge.Persistence.Tools

/-!
# What an operation can do to the tables

Every transaction is a short sequence of *changes*.  A `Change` is the smallest
rewriting of the tables that keeps the invariants of the store: a run enters the
queue together with its first event, a claim moves four rows at once, a change
of status comes with the event that announces it.  There are eleven of them.
The module on operations shows that each operation comes down to these, so an
invariant is proved for eleven changes once instead of for every operation.

A change depends on what its caller is held to, the `Discipline`: the targets
and extra data passed to `transition_run`, the types passed to `append_event`,
the bindings passed to `create_session`.
-/

namespace CodeForge

open Lib

/-- What the callers of the store keep to. -/
structure Discipline where
  /-- The targets passed to `transition_run`. -/
  target : RunStatus → Prop := fun _ => True
  /-- The extra data passed to `transition_run`. -/
  extra : List (String × Json) → Prop := fun _ => True
  /-- The types passed to `append_event`. -/
  event : EventType → Prop := fun _ => True
  /-- The bindings passed to `create_session`. -/
  binding : String → UserBinding → Prop := fun _ _ => True
  /-- The sessions in which a run may be accepted while another is active. -/
  busy : String → Uuid → Prop := fun _ _ => True
  extra_nil : extra [] := by trivial

/-! ## Recording an event -/

/-- The body of an event stands where its row says. -/
def EventRow.Written (d : Deployment) (files : Files) (e : EventRow) : Prop :=
  ∃ base runSeq actor,
    Files.Holds files (base, e.dataRef) e.dataOffset
      (Files.encodeRecord (eventRecord d e runSeq actor)) ∧
    e.dataBytes = (Files.encodeRecord (eventRecord d e runSeq actor)).length ∧
    e.dataDigest = d.sha256 (utf8 (eventRecord d e runSeq actor).canonical)

theorem EventRow.Written.mono {d : Deployment} {f g : Files} {e : EventRow}
    (h : e.Written d f) (hfg : Files.Grows f g) : e.Written d g := by
  obtain ⟨base, runSeq, actor, hh, hb, hd⟩ := h
  exact ⟨base, runSeq, actor, hfg.holds hh, hb, hd⟩

/-- Appending the record of an event writes its body. -/
theorem EventRow.written_of_append (d : Deployment) (f : Files) (base : String) (session : Uuid)
    (e : EventRow) (runSeq : Nat) (actor : String) :
    let written :=
      f.appendRecord d.sha256 d.maxFileBytes base session (eventRecord d e runSeq actor)
    (e.withContent written.1).Written d written.2 := by
  refine ⟨base, runSeq, actor, ?_⟩
  rw [eventRecord_withContent]
  exact ⟨Files.appendRecord_holds d.sha256 d.maxFileBytes f base session _,
    Files.appendRecord_bytes d.sha256 d.maxFileBytes f base session _,
    Files.appendRecord_digest d.sha256 d.maxFileBytes f base session _⟩

/-- An event of run `r` in session `s` is added, and both counters advance. -/
structure Records (d : Deployment) (files : Files) (db : Db) (r : RunRow) (s : SessionRow)
    (e : EventRow) (db' : Db) : Prop where
  run : db.run e.scopeId e.runId = some r
  session : db.session e.scopeId e.sessionId = some s
  ofRun : e.sessionId = r.sessionId
  seq : e.seq = r.nextEventSeq
  sessionSeq : e.sessionSeq = s.nextEventSeq
  written : e.Written d files
  result : ∃ events now actor, db.events.insert? e = some events ∧
    db' = ({ db with events }).setEventSeqs e now actor

theorem Records.mono {d : Deployment} {f g : Files} {db db' : Db} {r : RunRow} {s : SessionRow}
    {e : EventRow} (h : Records d f db r s e db') (hfg : Files.Grows f g) :
    Records d g db r s e db' :=
  { h with written := h.written.mono hfg }

/-! ## The changes -/

/-- The tables with a new attempt that occupies session, workspace and run. -/
def Db.startAttempt (db : Db) (attempts : Table AttemptRow) (c : Candidate) (a : AttemptRow)
    (actor : String) : Db :=
  ((({ db with attempts }).occupySession a actor).occupyWorkspace a c.workspace.workspaceEpoch
    actor).startRun a c.run.stateVersion actor

/-- One change of the tables. -/
inductive Change (d : Deployment) (π : Discipline) (files : Files) (drawn : Nat) :
    Db → Db → Prop
  /-- A workspace is added: a project's, or one without a project. -/
  | addWorkspace {db : Db} {w : WorkspaceRow} {workspaces : Table WorkspaceRow}
      (free : w.activeAttemptId = none ∧ w.workspaceEpoch = 0)
      (bound : w.projectPath = "" ∨
        ∃ b, π.binding w.scopeId b ∧ w.Bound b)
      (insert : db.workspaces.insert? w = some workspaces) :
      Change d π files drawn db { db with workspaces }
  /-- A workspace is pointed at the paths of a binding of its project. -/
  | rebind {db : Db} {scopeId : String} {w : WorkspaceRow} {b : UserBinding} {now : Timestamp}
      {actor : String} (known : db.workspace scopeId w.id = some w)
      (project : w.projectRef = b.projectRef)
      (owner : w.tenantRef = b.tenantRef ∧ w.userRef = b.userRef) (bound : π.binding scopeId b) :
      Change d π files drawn db
        { db with
          workspaces := db.workspaces.updateIn scopeId w.id (fun v => v.rebind b now actor) }
  /-- A workspace gets a new revision. -/
  | revise {db : Db} {revisions : Table RevisionRow} {scopeId revision : String} {id : Uuid}
      {now : Timestamp} {actor : String} :
      Change d π files drawn db
        { db with
          revisions
          workspaces := db.workspaces.updateIn scopeId id (fun v => v.revise revision now actor) }
  /-- A session is added, with the request it answers. -/
  | addSession {db : Db} {id : Uuid} {scopeId : String} {workspaceId : Uuid} {title : String}
      {externalRef : Option String} {now : Timestamp} {actor : String}
      {sessions : Table SessionRow} {sessionRequests : Table SessionRequestRow}
      {w : WorkspaceRow} (known : db.workspace scopeId workspaceId = some w)
      (insert : db.sessions.insert?
        (.create id scopeId workspaceId title externalRef now actor) = some sessions) :
      Change d π files drawn db { db with sessions, sessionRequests }
  /-- A run enters the queue of its session. -/
  | accept {db db₁ : Db} {id : Uuid} {request : RunRequest} {s s₁ : SessionRow}
      {idempotencyKey fingerprint : String} {inputRef snapshotRef : ObjectRef}
      {now : Timestamp} {actor : String} {runs : Table RunRow} {r : RunRow} {e : EventRow}
      (known : db.session request.context.scopeId request.sessionId = some s)
      (insert : db.runs.insert? (.accept id request s.workspaceId s.nextRunSeq idempotencyKey
        fingerprint inputRef snapshotRef now actor) = some runs)
      (record : Records d files { db with runs } r s₁ e db₁)
      (event : e.scopeId = request.context.scopeId ∧ e.runId = id ∧ e.type = .runAccepted ∧
        e.data = acceptedData snapshotRef (ContentPath.text d.uuidText))
      (idle : db.hasActiveRun request.context.scopeId request.sessionId = true →
        π.busy request.context.scopeId request.sessionId) (fresh : e.eventId.draw < drawn) :
      Change d π files drawn db
        (db₁.setNextRunSeq request.context.scopeId request.sessionId (s.nextRunSeq + 1) now actor)
  /-- A worker claims a run. -/
  | claim {db db₁ : Db} {c : Candidate} {nowIso leaseUntil : Timestamp} {scopeId : Option String}
      {id : Uuid} {binding : Option UserBinding} {workerId actor : String}
      {attempts : Table AttemptRow} {r : RunRow} {s : SessionRow} {e : EventRow}
      (run : c.run ∈ db.runs) (candidate : db.candidate c.run = some c)
      (claimable : db.Claimable nowIso scopeId c) (earlier : id.draw < drawn)
      (insert : db.attempts.insert?
        (c.attempt id binding workerId nowIso leaseUntil actor) = some attempts)
      (record : Records d files
        (db.startAttempt attempts c (c.attempt id binding workerId nowIso leaseUntil actor) actor)
        r s e db₁)
      (event : e.scopeId = c.run.scopeId ∧ e.runId = c.run.id ∧ e.type = .runStarted ∧
        e.data = startedData d id) (fresh : e.eventId.draw < drawn) :
      Change d π files drawn db db₁
  /-- A run changes its status, and gives everything back where that is its end. -/
  | move {db db₁ : Db} {row : RunRow} {after : RunState} {target : RunStatus}
      {outcome : Option TaskOutcome} {reason : Option String} {outputRef : Option ObjectRef}
      {outputChars : Option Nat} {error : Option (List (String × Json))}
      {extra : List (String × Json)} {now : Timestamp} {actor : String}
      {r : RunRow} {s : SessionRow} {e : EventRow}
      (run : row ∈ db.runs)
      (change : transition row.state target row.stateVersion outcome reason = .ok after)
      (allowed : π.target target) (extra_allowed : π.extra extra)
      (record : Records d files
        (db.moveRun row.scopeId row.id row.stateVersion after outputRef outputChars
          (storedError error) now actor) r s e db₁)
      (event : e.scopeId = row.scopeId ∧ e.runId = row.id ∧ e.type = announcedBy target ∧
        e.data = transitionData d after reason outputRef error extra)
      (fresh : e.eventId.draw < drawn) :
      Change d π files drawn db (if target.terminal then db₁.release row now actor else db₁)
  /-- A caller or a tool records an event. -/
  | note {db db₁ : Db} {r : RunRow} {s : SessionRow} {e : EventRow}
      (record : Records d files db r s e db₁)
      (allowed : e.type.lifecycle = true → π.event e.type) (fresh : e.eventId.draw < drawn) :
      Change d π files drawn db db₁
  /-- The ledger of tools changes. -/
  | tools {db : Db} {tools : Table ToolRow} : Change d π files drawn db { db with tools }
  /-- The pending responses change. -/
  | pendings {db : Db} {pendings : Table PendingRow} :
      Change d π files drawn db { db with pendings }

/-- A change stays one when files grow and identifiers are drawn. -/
theorem Change.mono {d : Deployment} {π : Discipline} {f g : Files} {m n : Nat} {db db' : Db}
    (h : Change d π f m db db') (hfg : Files.Grows f g) (hmn : m ≤ n) :
    Change d π g n db db' := by
  cases h with
  | addWorkspace free bound insert => exact .addWorkspace free bound insert
  | rebind known project owner bound => exact .rebind known project owner bound
  | revise => exact .revise
  | addSession known insert => exact .addSession known insert
  | accept known insert record event idle fresh =>
      exact .accept known insert (record.mono hfg) event idle (Nat.lt_of_lt_of_le fresh hmn)
  | claim run candidate claimable earlier insert record event fresh =>
      exact .claim run candidate claimable (Nat.lt_of_lt_of_le earlier hmn) insert
        (record.mono hfg) event (Nat.lt_of_lt_of_le fresh hmn)
  | move run change allowed extra_allowed record event fresh =>
      exact .move run change allowed extra_allowed (record.mono hfg) event
        (Nat.lt_of_lt_of_le fresh hmn)
  | note record allowed fresh =>
      exact .note (record.mono hfg) allowed (Nat.lt_of_lt_of_le fresh hmn)
  | tools => exact .tools
  | pendings => exact .pendings

/-- Changes one after the other. -/
abbrev Changes (d : Deployment) (π : Discipline) (files : Files) (drawn : Nat) : Db → Db → Prop :=
  Relation.ReflTransGen (Change d π files drawn)

theorem Changes.mono {d : Deployment} {π : Discipline} {f g : Files} {m n : Nat} {db db' : Db}
    (h : Changes d π f m db db') (hfg : Files.Grows f g) (hmn : m ≤ n) :
    Changes d π g n db db' :=
  Relation.ReflTransGen.mono (fun _ _ c => Change.mono c hfg hmn) _ _ h

/-- What every change keeps, changes keep. -/
theorem Changes.preserves {d : Deployment} {π : Discipline} {files : Files} {drawn : Nat}
    {db db' : Db} (h : Changes d π files drawn db db') {I : Files → Nat → Db → Prop}
    (change : ∀ {f n db db'}, Change d π f n db db' → I f n db → I f n db')
    (hdb : I files drawn db) : I files drawn db' := by
  induction h with
  | refl => exact hdb
  | tail _ c ih => exact change c ih

end CodeForge
