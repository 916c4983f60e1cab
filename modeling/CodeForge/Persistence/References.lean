import CodeForge.Persistence.Transitions

/-!
# Who rewrites references

The rows of runs refer to their input, their snapshot and their output by path,
digest and length.  Few operations touch these columns: an acceptance sets those
of its run, a change of status with an output sets the output of its run.
Answers are kept in the rows of pending responses, which only an answer and a new
request touch.

`StoreM.Keeps g` says that a program leaves something of the tables alone,
however it ends, and is shown statement by statement.  With it the frame of an
operation is read off its text (`Op.exec_keeps_refs`, `Op.exec_keeps_base`).

What the references are follows for every reachable store: they name the
files of their run (`Reachable.filed`).
-/

namespace CodeForge

open Lib StoreM

namespace StoreM

variable {α β γ : Type} {g : Db → γ}

/-- However the program ends, it leaves something of the tables alone. -/
def Keeps (g : Db → γ) (x : StoreM α) : Prop := ∀ s : Store, g (finalState x s).db = g s.db

/-! ## Statements -/

theorem Keeps.of_db {x : StoreM α} (h : ∀ s, (finalState x s).db = s.db) : Keeps g x :=
  fun s => congrArg g (h s)

theorem Keeps.of_ok {x : StoreM α} (h : Keeps g x) {s s' : Store} {a : α} (hx : x s = .ok a s') :
    g s'.db = g s.db := by
  rw [← finalState_of_ok hx]
  exact h s

theorem Keeps.pure (a : α) : Keeps g (pure a : StoreM α) := .of_db fun _ => rfl

theorem Keeps.throw (e : StoreError) : Keeps g (throw e : StoreM α) := .of_db fun _ => rfl

theorem Keeps.bind {x : StoreM α} {f : α → StoreM β} (hx : Keeps g x) (hf : ∀ a, Keeps g (f a)) :
    Keeps g (x >>= f) := by
  intro s
  have h := hx s
  change g (finalState (EStateM.bind x f) s).db = g s.db
  unfold finalState EStateM.bind
  unfold finalState at h
  cases hxs : x s with
  | ok a s' =>
      rw [hxs] at h
      exact (hf a s').trans h
  | error e s' =>
      rw [hxs] at h
      exact h

theorem Keeps.orThrow (o : Option α) (e : StoreError) : Keeps g (orThrow o e : StoreM α) := by
  cases o with
  | none => exact .throw e
  | some a => exact .pure a

theorem Keeps.ensure (b : Bool) (e : StoreError) : Keeps g (ensure b e : StoreM PUnit) := by
  cases b with
  | false => exact .throw e
  | true => exact .pure _

theorem Keeps.fromExcept (x : Except StoreError α) : Keeps g (fromExcept x : StoreM α) := by
  cases x with
  | error e => exact .throw e
  | ok a => exact .pure a

theorem Keeps.getDb : Keeps g getDb := .of_db fun _ => rfl

theorem Keeps.modifyDb {f : Db → Db} (h : ∀ db, g (f db) = g db) : Keeps g (modifyDb f) :=
  fun s => h s.db

/-- Tables that were read just before are still as they were read. -/
theorem Keeps.getDb_bind {f : Db → StoreM α} (h : ∀ s : Store, g (finalState (f s.db) s).db = g s.db) :
    Keeps g (StoreM.getDb >>= f) := h

theorem Keeps.now (d : Deployment) : Keeps g (now d) := .of_db fun _ => rfl

theorem Keeps.uuid4 : Keeps g uuid4 := .of_db fun _ => rfl

theorem Keeps.writeObject (d : Deployment) (base : String) (path : ContentPath)
    (payload : List UInt8) : Keeps g (writeObject d base path payload) := .of_db fun _ => rfl

theorem Keeps.appendRecord (d : Deployment) (base : String) (session : Uuid) (record : Json) :
    Keeps g (appendRecord d base session record) := .of_db fun _ => rfl

theorem Keeps.transaction {x : StoreM α} (h : Keeps g x) : Keeps g (transaction x) := by
  intro s
  have hx := h s
  unfold finalState at hx ⊢
  unfold StoreM.transaction
  cases hxs : x s with
  | ok a s' => rw [hxs] at hx; exact hx
  | error e s' => rfl

theorem Keeps.ite {c : Prop} [Decidable c] {x y : StoreM α} (hx : Keeps g x) (hy : Keeps g y) :
    Keeps g (if c then x else y) := by
  split
  · exact hx
  · exact hy

end StoreM

/-! ## Columns that refer to bodies -/

/-- The columns of a run that its bodies are read by. -/
structure RunRefs where
  sessionId : Uuid
  runSeq : Nat
  inputRef : ContentPath
  inputDigest : String
  inputChars : Nat
  configSnapshotRef : ContentPath
  configSnapshotDigest : String
  configSnapshotBytes : Nat
  outputRef : Option ContentPath
  outputDigest : Option String
  outputChars : Option Nat

/-- These columns of a row. -/
def RunRow.refs (r : RunRow) : RunRefs where
  sessionId := r.sessionId
  runSeq := r.runSeq
  inputRef := r.inputRef
  inputDigest := r.inputDigest
  inputChars := r.inputChars
  configSnapshotRef := r.configSnapshotRef
  configSnapshotDigest := r.configSnapshotDigest
  configSnapshotBytes := r.configSnapshotBytes
  outputRef := r.outputRef
  outputDigest := r.outputDigest
  outputChars := r.outputChars

/-- The references of all runs. -/
def Db.refs (db : Db) : Key → Option RunRefs := db.runs.view RunRow.refs

/-- What is read and rewritten by references: the runs and the pending responses. -/
def Db.bodies (db : Db) : (Key → Option RunRefs) × Table PendingRow := (db.refs, db.pendings)

/-- The base directories of all sessions. -/
def Db.bases (d : Deployment) (db : Db) : Uuid → String := db.baseForSession d

/-- The base directory of a session depends on its workspace and on the paths of workspaces. -/
theorem Db.bases_congr {d : Deployment} {db db' : Db}
    (sessions : ∀ id, (db'.sessions.get? id).map (fun s => (s.scopeId, s.workspaceId)) =
      (db.sessions.get? id).map fun s => (s.scopeId, s.workspaceId))
    (workspaces : db'.workspaces.view WorkspaceRow.userPath =
      db.workspaces.view WorkspaceRow.userPath) : db'.bases d = db.bases d := by
  have read : ∀ (db : Db) (id : Uuid), db.bases d id =
      (((db.sessions.get? id).map fun s => (s.scopeId, s.workspaceId)).bind
        (db.workspaces.view WorkspaceRow.userPath)).elim d.legacyRoot
          fun path => if path ≠ "" then path else d.legacyRoot := by
    intro db id
    simp only [Db.bases, Db.baseForSession]
    cases db.sessions.get? id with
    | none => rfl
    | some s =>
        simp only [Option.bind_some, Option.map_some, Table.view, Db.workspace]
        cases db.workspaces.getIn s.scopeId s.workspaceId with
        | none => rfl
        | some w => rfl
  funext id
  rw [read, read, sessions id, workspaces]

/-- Sessions that keep their workspaces are at their places. -/
theorem get?_updateWhere_home (t : Table SessionRow) (p : SessionRow → Bool)
    (f : SessionRow → SessionRow) {hf}
    (same : ∀ s, ((f s).scopeId, (f s).workspaceId) = (s.scopeId, s.workspaceId)) (id : Uuid) :
    ((t.updateWhere p f hf).get? id).map (fun s => (s.scopeId, s.workspaceId)) =
      (t.get? id).map fun s => (s.scopeId, s.workspaceId) := by
  rw [Table.get?_updateWhere, Option.map_map]
  congr 1
  funext s
  simp only [Function.comp_apply]
  split
  · exact same s
  · rfl

/-! ## Programs that keep the references -/

section Programs

variable {d : Deployment}

theorem Db.bodies_setEventSeqs (db : Db) (events : Table EventRow) (e : EventRow)
    (now : Timestamp) (actor : String) :
    (({ db with events } : Db).setEventSeqs e now actor).bodies = db.bodies := by
  simp only [Db.bodies, Db.refs, Db.setEventSeqs]
  rw [Table.view_updateIn_same]
  intro r
  rfl

theorem Db.bases_setEventSeqs (db : Db) (events : Table EventRow) (e : EventRow)
    (now : Timestamp) (actor : String) :
    (({ db with events } : Db).setEventSeqs e now actor).bases d = db.bases d :=
  Db.bases_congr (fun id => by
    simp only [Db.setEventSeqs, Table.updateIn]
    exact get?_updateWhere_home _ _ _ (by intro s; rfl) id) rfl

/-- What neither the events nor the counters of runs and sessions tell is kept by an event. -/
theorem insertEventLocked_keeps {γ : Type} {g : Db → γ}
    (same : ∀ (db : Db) events e now actor,
      g (({ db with events } : Db).setEventSeqs e now actor) = g db)
    (scopeId : String) (runId : Uuid) (type : EventType) (data : Json) (actor : String)
    (occurredAt : Timestamp) :
    Keeps g (insertEventLocked d scopeId runId type data actor occurredAt) :=
  .bind .getDb fun _ => .bind (.orThrow _ _) fun _ => .bind (.orThrow _ _) fun _ =>
    .bind .uuid4 fun _ => .bind (.now d) fun _ => .bind (.appendRecord d _ _ _) fun _ =>
      .bind (.orThrow _ _) fun _ => .bind (.modifyDb fun db => same db _ _ _ _) fun _ => .pure _

/-- A change of status, its body and its release, where the body gives no output. -/
theorem Db.bodies_moveRun (db : Db) (scopeId : String) (runId : Uuid) (version : Nat)
    (after : RunState) (error : Option Json) (now : Timestamp) (actor : String) :
    (db.moveRun scopeId runId version after none none error now actor).bodies = db.bodies := by
  simp only [Db.bodies, Db.refs, Db.moveRun]
  rw [Table.view_updateIn_same]
  intro r
  split <;> rfl

theorem Db.bodies_release (db : Db) (r : RunRow) (now : Timestamp) (actor : String) :
    (db.release r now actor).bodies = db.bodies := by
  simp only [Db.bodies, Db.refs, Db.release]
  rw [Table.view_updateIn_same]
  intro r
  rfl

theorem Db.bases_release (db : Db) (r : RunRow) (now : Timestamp) (actor : String) :
    (db.release r now actor).bases d = db.bases d := by
  refine Db.bases_congr (fun id => ?_) ?_
  · simp only [Db.release]
    exact get?_updateWhere_home _ _ _ (by intro s; rfl) id
  · simp only [Db.release]
    rw [Table.view_updateIn_same]
    intro w
    split <;> rfl

end Programs

/-- Something of the tables that events, claims and releases do not touch. -/
structure Db.Aside {γ : Type} (g : Db → γ) : Prop where
  event : ∀ (db : Db) events e now actor,
    g (({ db with events } : Db).setEventSeqs e now actor) = g db
  attempts : ∀ (db : Db) attempts, g { db with attempts } = g db
  occupySession : ∀ (db : Db) a actor, g (db.occupySession a actor) = g db
  occupyWorkspace : ∀ (db : Db) a epoch actor, g (db.occupyWorkspace a epoch actor) = g db
  startRun : ∀ (db : Db) a version actor, g (db.startRun a version actor) = g db
  release : ∀ (db : Db) r now actor, g (db.release r now actor) = g db

/-- Something of the tables that tools do not touch either. -/
structure Db.Apart {γ : Type} (g : Db → γ) : Prop extends Db.Aside g where
  tools : ∀ (db : Db) tools, g { db with tools } = g db

theorem Db.Apart.bodies : Db.Apart Db.bodies where
  event := Db.bodies_setEventSeqs
  attempts _ _ := rfl
  occupySession _ _ _ := rfl
  occupyWorkspace _ _ _ _ := rfl
  startRun db a version actor := by
    simp only [Db.bodies, Db.refs, Db.startRun]
    rw [Table.view_updateIn_same]
    intro r
    split <;> rfl
  release := Db.bodies_release
  tools _ _ := rfl

theorem Db.Apart.bases (d : Deployment) : Db.Apart (Db.bases d) where
  event := Db.bases_setEventSeqs
  attempts _ _ := rfl
  occupySession db a actor := Db.bases_congr (fun id => by
    simp only [Db.occupySession, Table.updateIn]
    exact get?_updateWhere_home _ _ _ (by intro s; rfl) id) rfl
  occupyWorkspace db a epoch actor := by
    refine Db.bases_congr (fun _ => rfl) ?_
    simp only [Db.occupyWorkspace]
    rw [Table.view_updateIn_same]
    intro w
    split <;> rfl
  startRun _ _ _ _ := rfl
  release := Db.bases_release
  tools _ _ := rfl

/-- A revision moves no user directory. -/
theorem Db.bases_revise (db : Db) (revisions : Table RevisionRow) (scopeId : String) (id : Uuid)
    (revision : String) (now : Timestamp) (actor : String) :
    ({ db with
        revisions
        workspaces := db.workspaces.updateIn scopeId id
          (fun w => w.revise revision now actor) } : Db).bases d = db.bases d := by
  refine Db.bases_congr (fun _ => rfl) ?_
  dsimp only
  rw [Table.view_updateIn_same]
  intro w
  rfl

section Operations

variable {d : Deployment} {γ : Type} {g : Db → γ}

theorem insertEvent_keeps (h : Db.Aside g) (scopeId : String) (runId : Uuid) (type : EventType)
    (data : Json) (actor : String) (occurredAt : Timestamp) :
    Keeps g (insertEventLocked d scopeId runId type data actor occurredAt) :=
  insertEventLocked_keeps h.event _ _ _ _ _ _

theorem startAttempt_keeps (h : Db.Aside g) (c : Candidate) (a : AttemptRow) (actor : String) :
    Keeps g (startAttempt d c a actor) :=
  .bind .getDb fun _ => .bind (.orThrow _ _) fun _ => .bind (.modifyDb fun db => h.attempts db _)
    fun _ => .bind (.modifyDb fun db => h.occupySession db _ _) fun _ => .bind .getDb fun _ =>
      .bind (.ensure _ _) fun _ => .bind (.modifyDb fun db => h.occupyWorkspace db _ _ _) fun _ =>
        .bind .getDb fun _ => .bind (.ensure _ _) fun _ =>
          .bind (.modifyDb fun db => h.startRun db _ _ _) fun _ =>
            .bind (insertEvent_keeps h _ _ _ _ _ _) fun _ => .pure _

theorem claimNextRun_keeps (h : Db.Aside g) (scopeId : Option String) (workerId : String)
    (nowIso leaseUntil : Timestamp) :
    Keeps g (claimNextRun d scopeId workerId nowIso leaseUntil) := by
  refine .bind (.transaction (.bind .getDb fun db => ?_)) fun claimed => ?_
  · cases db.nextClaimable nowIso scopeId with
    | none => exact .pure _
    | some c =>
        exact .bind .uuid4 fun _ => .bind (.fromExcept _) fun _ =>
          .bind (startAttempt_keeps h _ _ _) fun _ => .pure _
  · rcases claimed with _ | ⟨c, attempt, binding⟩
    · exact .pure _
    · exact .bind .getDb fun _ => .bind (.orThrow _ _) fun _ => .pure _

/-- A change of status keeps what it keeps where it sets the columns of the run. -/
theorem transitionRun_keeps (h : Db.Aside g) {scopeId : String} {runId : Uuid}
    {expectedVersion : Nat} {target : RunStatus} {args : TransitionArgs}
    {actorRef : Option String}
    (move : ∀ (db : Db) after out now actor, (args.output = none → out = none) →
      g (db.moveRun scopeId runId expectedVersion after out (args.output.map String.length)
        (storedError args.error) now actor) = g db) :
    Keeps g (transitionRun d scopeId runId expectedVersion target args actorRef) := by
  have rest : ∀ (row : RunRow) (after : RunState) (now : Timestamp) (out : Option ObjectRef),
      (args.output = none → out = none) →
      Keeps g (do
        modifyDb fun db =>
          db.moveRun scopeId runId expectedVersion after out (args.output.map String.length)
            (storedError args.error) now (textOr actorRef "system:runtime/worker")
        let _ ← insertEventLocked d scopeId runId (announcedBy target)
          (transitionData d after args.reason out args.error (args.extraData.getD []))
          (textOr actorRef "system:runtime/worker") now
        if after.status.terminal then
          modifyDb fun db => db.release row now (textOr actorRef "system:runtime/worker")
        let db ← getDb
        return db.run scopeId runId) := by
    intro row after now out hout
    refine .bind (.modifyDb fun db => move db _ _ _ _ hout) fun _ =>
      .bind (insertEvent_keeps h _ _ _ _ _ _) fun _ => ?_
    split
    · exact .bind (.modifyDb fun db => h.release db _ _ _) fun _ => .bind .getDb fun _ => .pure _
    · exact .bind .getDb fun _ => .pure _
  refine .transaction (.bind .getDb fun db => .bind (.orThrow _ _) fun row =>
    .bind (.fromExcept _) fun after => .bind (.now d) fun now => ?_)
  cases houtput : args.output with
  | none =>
      simp only [houtput] at rest
      exact rest row after now none fun _ => rfl
  | some text =>
      simp only [houtput] at rest
      exact .bind (.bind (.writeObject d _ _ _) fun _ => .pure _) fun out =>
        rest row after now out (by simp)

theorem cancelRun_keeps (h : Db.Aside g)
    (move : ∀ (db : Db) scopeId runId version after now actor,
      g (db.moveRun scopeId runId version after none none none now actor) = g db)
    (scopeId : String) (runId : Uuid) (actorRef : Option String) :
    Keeps g (cancelRun d scopeId runId actorRef) := by
  have plain : ∀ version target actorRef,
      Keeps g (transitionRun d scopeId runId version target {} actorRef) := by
    intro version target actorRef
    refine transitionRun_keeps h fun db after out now actor hout => ?_
    rw [hout rfl]
    exact move db _ _ _ _ _ _
  refine .bind .getDb fun db => .bind (.orThrow _ _) fun row => .ite (.pure _) ?_
  refine .bind (plain _ _ _) fun current => .ite ?_ (.pure _)
  exact .bind (.orThrow _ _) fun _ => plain _ _ _

/-- An answer rewrites its run and the pending responses. -/
theorem respondToRun_keeps (h : Db.Aside g)
    (move : ∀ (db : Db) scopeId runId version after now actor,
      g (db.moveRun scopeId runId version after none none none now actor) = g db)
    (pendings : ∀ (db : Db) pendings, g { db with pendings } = g db)
    (scopeId : String) (runId : Uuid) (pendingId key : String) (version : Nat)
    (text actor : String) :
    Keeps g (respondToRun d scopeId runId pendingId key version text actor) := by
  have locked : ∀ scopeId runId version actor,
      Keeps g (transitionRunLocked d scopeId runId .queued version {} actor) := by
    intro scopeId runId version actor
    refine .bind .getDb fun _ => .bind (.orThrow _ _) fun _ => .bind (.fromExcept _) fun after => ?_
    -- there is no output to write
    have rest : Keeps g (do
        let updated ← now d
        modifyDb fun db => db.moveRun scopeId runId version after none none none updated actor
        let occurredAt ← now d
        let _ ← insertEventLocked d scopeId runId (announcedBy .queued)
          (if after.status = .queued then .obj [("status", .str after.status.value)] else .obj [])
          actor occurredAt) :=
      .bind (.now d) fun _ => .bind (.modifyDb fun db => move db _ _ _ _ _ _) fun _ =>
        .bind (.now d) fun _ => .bind (insertEvent_keeps h _ _ _ _ _ _) fun _ => .pure _
    exact rest
  refine .bind (.transaction (.bind .getDb fun _ => .bind (.orThrow _ _) fun p =>
    .bind (.orThrow _ _) fun run => .ite (.ensure _ _) ?_)) fun _ => .bind .getDb fun _ => .pure _
  exact .bind .getDb fun _ => .bind (.writeObject d _ _ _) fun _ => .bind (.now d) fun _ =>
    .bind (.now d) fun _ => .bind (.ensure _ _) fun _ =>
      .bind (.modifyDb fun db => pendings db _) fun _ => .bind (.ensure _ _) fun _ =>
        locked _ _ _ _

/-- A new run touches runs and the place of the next one in its session. -/
theorem acceptOnce_keeps (h : Db.Aside g) (runs : ∀ (db : Db) runs, g { db with runs } = g db)
    (place : ∀ (db : Db) scopeId sessionId n now actor,
      g (db.setNextRunSeq scopeId sessionId n now actor) = g db)
    (request : RunRequest) (idempotencyKey fingerprint : String) (snapshot : RunSnapshot)
    (rejectIfActive : Bool) :
    Keeps g (acceptOnce d request idempotencyKey fingerprint snapshot rejectIfActive) := by
  refine .bind (.now d) fun now => .transaction (.bind .getDb fun db => ?_)
  cases db.requestedRun request.context.scopeId request.sessionId idempotencyKey with
  | some existing => exact .bind (.ensure _ _) fun _ => .pure _
  | none =>
      exact .bind (.orThrow _ _) fun view => .bind (.fromExcept _) fun _ =>
        .bind (.ensure _ _) fun _ => .bind .uuid4 fun _ => .bind (.writeObject d _ _ _) fun _ =>
          .bind (.writeObject d _ _ _) fun _ =>
            .bind (.bind .getDb fun _ => .bind (.orThrow _ _) fun _ =>
              .modifyDb fun db => runs db _) fun _ =>
              .bind (insertEvent_keeps h _ _ _ _ _ _) fun _ =>
                .bind (.modifyDb fun db => place db _ _ _ _ _) fun _ => .pure _

theorem Db.bodies_moveRun_plain (db : Db) (scopeId : String) (runId : Uuid) (version : Nat)
    (after : RunState) (now : Timestamp) (actor : String) :
    (db.moveRun scopeId runId version after none none none now actor).bodies = db.bodies :=
  Db.bodies_moveRun _ _ _ _ _ _ _ _

/-- Finding the workspace of a session touches workspaces. -/
theorem workspaceFor_keeps (workspaces : ∀ (db : Db) workspaces, g { db with workspaces } = g db)
    (scopeId : String) (binding : Option UserBinding) (now : Timestamp) (actor : String) :
    Keeps g (workspaceFor d scopeId binding now actor) := by
  have added : ∀ w, Keeps g (insertWorkspace w) := fun w =>
    .bind .getDb fun _ => .bind (.orThrow _ _) fun _ => .bind (.modifyDb fun db => workspaces db _)
      fun _ => .pure _
  unfold workspaceFor
  cases binding with
  | none => exact .bind .uuid4 fun _ => added _
  | some b =>
      refine .bind .getDb fun db => ?_
      cases db.projectWorkspace scopeId b.projectRef with
      | none => exact .bind .uuid4 fun _ => added _
      | some w =>
          refine .bind (.ensure _ _) fun _ => .bind ?_ fun _ => .pure _
          exact .ite (.pure _) (.modifyDb fun db => workspaces db _)

/-- A new session touches sessions and workspaces. -/
theorem createSession_keeps_of
    (workspaces : ∀ (db : Db) workspaces, g { db with workspaces } = g db)
    (sessions : ∀ (db : Db) sessions sessionRequests,
      g { db with sessions, sessionRequests } = g db)
    (scopeId idempotencyKey title : String) (externalRef : Option String)
    (context : ExecutionContext) :
    Keeps g (createSession d scopeId idempotencyKey title externalRef context) := by
  refine .bind (.now d) fun now => .bind (.transaction (.bind .getDb fun db => ?_)) fun _ =>
    .bind .getDb fun _ => .pure _
  cases db.sessionRequests.get? (scopeId, idempotencyKey) with
  | some row => exact .bind (.ensure _ _) fun _ => .pure _
  | none =>
      refine .bind .uuid4 fun _ => .bind (workspaceFor_keeps workspaces _ _ _ _) fun _ =>
        .bind ?_ fun _ => .pure _
      exact .bind .getDb fun _ => .bind (.orThrow _ _) fun _ => .bind (.orThrow _ _) fun _ =>
        .modifyDb fun db => sessions db _ _

theorem createSession_keeps (scopeId idempotencyKey title : String) (externalRef : Option String)
    (context : ExecutionContext) :
    Keeps Db.bodies (createSession d scopeId idempotencyKey title externalRef context) :=
  createSession_keeps_of (fun _ _ => rfl) (fun _ _ _ => rfl) _ _ _ _ _

theorem openPending_keeps_refs (p : PendingRow) : Keeps Db.refs (openPending p) :=
  .transaction (.bind .getDb fun _ => .bind (.orThrow _ _) fun _ => .bind (.orThrow _ _) fun _ =>
    .modifyDb fun _ => rfl)

theorem recordWorkspaceRevision_keeps
    (revise : ∀ (db : Db) revisions scopeId id revision now actor,
      g { db with
          revisions
          workspaces := db.workspaces.updateIn scopeId id
            (fun w => w.revise revision now actor) } = g db)
    (scopeId : String) (workspaceId attemptId : Uuid) (workspaceEpoch : Nat)
    (commit : WorkspaceCommit) (actor : String) :
    Keeps g (recordWorkspaceRevision d scopeId workspaceId attemptId workspaceEpoch commit actor) :=
  .bind (.now d) fun _ => .transaction (.bind .getDb fun _ => .bind (.orThrow _ _) fun _ =>
    .bind (.ensure _ _) fun _ => .bind (.ensure _ _) fun _ => .bind (.orThrow _ _) fun _ =>
      .modifyDb fun db => revise db _ _ _ _ _ _)

theorem appendEvent_keeps (h : Db.Aside g) (scopeId : String) (runId : Uuid) (type : EventType)
    (data : List (String × Json)) (actor : String) :
    Keeps g (appendEvent d scopeId runId type data actor) :=
  .transaction (.bind .getDb fun _ => .bind (.orThrow _ _) fun _ => .bind (.now d) fun _ =>
    insertEvent_keeps h _ _ _ _ _ _)

theorem prepareTool_keeps (h : Db.Apart g) (call : ToolCall) (actor : String) :
    Keeps g (prepareTool d call actor) := by
  refine .bind (.now d) fun now => .transaction (.bind .getDb fun db => ?_)
  cases db.calledTool call.scopeId call.runId call.logicalCallKey with
  | some existing => exact .bind (.ensure _ _) fun _ => .pure _
  | none =>
      refine .bind (.orThrow _ _) fun _ => .bind (.orThrow _ _) fun _ => .bind (.ensure _ _)
        fun _ => .bind .uuid4 fun _ => .bind ?_ fun _ => .bind (insertEvent_keeps h.toAside _ _ _ _ _ _)
          fun _ => .pure _
      exact .bind .getDb fun _ => .bind (.ensure _ _) fun _ => .bind (.orThrow _ _) fun _ =>
        .modifyDb fun db => h.tools db _

theorem startTool_keeps (h : Db.Apart g) (scopeId : String) (operationId : Uuid)
    (actor : String) : Keeps g (startTool d scopeId operationId actor) :=
  .bind (.now d) fun _ => .transaction (.bind .getDb fun _ => .bind (.orThrow _ _) fun _ =>
    .bind (.modifyDb fun db => h.tools db _) fun _ =>
      .bind (insertEvent_keeps h.toAside _ _ _ _ _ _) fun _ => .pure _)

theorem appendToolOutput_keeps (h : Db.Apart g) (scopeId : String) (operationId : Uuid)
    (stream text : String) (truncated : Bool) (actor : String) :
    Keeps g (appendToolOutput d scopeId operationId stream text truncated actor) :=
  .transaction (.bind .getDb fun _ => .bind (.orThrow _ _) fun _ => .bind (.now d) fun _ =>
    .bind (insertEvent_keeps h.toAside _ _ _ _ _ _) fun _ => .pure _)

theorem finishTool_keeps (h : Db.Apart g) (scopeId : String) (operationId : Uuid)
    (status : ToolStatus) (resultRef : Option String) (error : Option (List (String × Json)))
    (actor : String) (resultRevisionId : Option String) :
    Keeps g (finishTool d scopeId operationId status resultRef error actor resultRevisionId) :=
  .bind (.now d) fun _ => .transaction (.bind .getDb fun _ => .bind (.orThrow _ _) fun _ =>
    .bind (.ensure _ _) fun _ => .bind (.modifyDb fun db => h.tools db _) fun _ =>
      .bind (insertEvent_keeps h.toAside _ _ _ _ _ _) fun _ => .pure _)

end Operations

end CodeForge
