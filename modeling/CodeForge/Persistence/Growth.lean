import CodeForge.Persistence.Tools

/-!
# Growth of the store

Whatever an operation does and however it ends, the files only grow, the count
of identifiers only goes up, and the files of an acceptance are named after
identifiers drawn before.  `StoreM.Grows` states this of a program, and each
statement a program is made of keeps it.  The operations follow statement by
statement.

A file of an acceptance is named after the run, so its program is known to grow
the store only after the identifier of the run was drawn: `Grows n` speaks of
states with at least `n` identifiers drawn.
-/

namespace CodeForge

open Lib

/-- A state the store can be in later on. -/
structure Store.Extends (s t : Store) : Prop where
  files : Files.Grows s.files t.files
  drawn : s.drawn ≤ t.drawn
  names : Files.NamesDrawn s.files s.drawn → Files.NamesDrawn t.files t.drawn

theorem Store.Extends.refl (s : Store) : s.Extends s := ⟨.refl _, le_rfl, id⟩

theorem Store.Extends.trans {s t u : Store} (h : s.Extends t) (h' : t.Extends u) : s.Extends u :=
  ⟨h.files.trans h'.files, h.drawn.trans h'.drawn, h'.names ∘ h.names⟩

namespace StoreM

variable {α β : Type}

/-- Once `n` identifiers are drawn, the program extends the store, however it
ends. -/
def Grows (n : Nat) (x : StoreM α) : Prop := ∀ s : Store, n ≤ s.drawn → s.Extends (finalState x s)

/-! ## Statements -/

theorem Grows.mono {m n : Nat} {x : StoreM α} (h : Grows m x) (hmn : m ≤ n) : Grows n x :=
  fun s hs => h s (hmn.trans hs)

theorem Grows.of_ok {x : StoreM α} (h : Grows 0 x) {s s' : Store} {a : α}
    (hx : x s = .ok a s') : s.Extends s' := by
  rw [← finalState_of_ok hx]
  exact h s (Nat.zero_le _)

theorem Grows.bind {n : Nat} {x : StoreM α} {f : α → StoreM β} (hx : Grows n x)
    (hf : ∀ a, Grows n (f a)) : Grows n (x >>= f) := by
  intro s hs
  have h := hx s hs
  change s.Extends (finalState (EStateM.bind x f) s)
  unfold finalState EStateM.bind
  unfold finalState at h
  cases hxs : x s with
  | ok a s' =>
      rw [hxs] at h
      exact h.trans (hf a s' (hs.trans h.drawn))
  | error e s' =>
      rw [hxs] at h
      exact h

theorem Grows.pure {n : Nat} (a : α) : Grows n (pure a : StoreM α) := fun s _ => .refl s

theorem Grows.throw {n : Nat} (e : StoreError) : Grows n (throw e : StoreM α) :=
  fun s _ => .refl s

theorem Grows.orThrow {n : Nat} (o : Option α) (e : StoreError) :
    Grows n (orThrow o e : StoreM α) := by
  cases o with
  | none => exact .throw e
  | some a => exact .pure a

theorem Grows.ensure {n : Nat} (b : Bool) (e : StoreError) :
    Grows n (ensure b e : StoreM PUnit) := by
  cases b with
  | false => exact .throw e
  | true => exact .pure _

theorem Grows.fromExcept {n : Nat} (x : Except StoreError α) :
    Grows n (fromExcept x : StoreM α) := by
  cases x with
  | error e => exact .throw e
  | ok a => exact .pure a

theorem Grows.getDb {n : Nat} : Grows n getDb := fun s _ => .refl s

theorem Grows.modifyDb {n : Nat} (f : Db → Db) : Grows n (modifyDb f) :=
  fun s _ => ⟨.refl s.files, le_rfl, id⟩

theorem Grows.now {n : Nat} (d : Deployment) : Grows n (now d) :=
  fun s _ => ⟨.refl s.files, le_rfl, id⟩

theorem Grows.uuid4 {n : Nat} : Grows n uuid4 :=
  fun s _ => ⟨.refl s.files, Nat.le_succ _, fun h => h.mono (Nat.le_succ _)⟩

/-- What comes after drawing an identifier may use it as a name. -/
theorem Grows.uuid4_bind {n : Nat} {f : Uuid → StoreM β} (hf : ∀ m, Grows (m + 1) (f ⟨m⟩)) :
    Grows n (StoreM.uuid4 >>= f) := by
  intro s hs
  exact (Grows.uuid4 s hs).trans (hf s.drawn { s with drawn := s.drawn + 1 } le_rfl)

theorem Grows.writeObject {n : Nat} (d : Deployment) (base : String) {path : ContentPath}
    (payload : List UInt8) (hp : ∀ r, path.run? = some r → r.draw < n) :
    Grows n (writeObject d base path payload) :=
  fun _ hs => ⟨Files.writeObject_grows d.sha256 _ _ _ _, le_rfl,
    fun h => h.writeObject d.sha256 _ _ fun r hr => Nat.lt_of_lt_of_le (hp r hr) hs⟩

theorem Grows.appendRecord {n : Nat} (d : Deployment) (base : String) (session : Uuid)
    (record : Json) : Grows n (appendRecord d base session record) :=
  fun _ _ => ⟨Files.appendRecord_grows d.sha256 _ _ _ _ _, le_rfl,
    fun h => h.appendRecord d.sha256 _ _ _ _⟩

theorem Grows.transaction {n : Nat} {x : StoreM α} (h : Grows n x) :
    Grows n (transaction x) := by
  intro s hs
  have hx := h s hs
  unfold finalState at hx ⊢
  unfold StoreM.transaction
  cases hxs : x s with
  | ok a s' => rw [hxs] at hx; exact hx
  | error e s' => rw [hxs] at hx; exact ⟨hx.files, hx.drawn, hx.names⟩

theorem Grows.ite {n : Nat} {c : Prop} [Decidable c] {x y : StoreM α} (hx : Grows n x)
    (hy : Grows n y) : Grows n (if c then x else y) := by
  split
  · exact hx
  · exact hy

end StoreM

open StoreM

/-! ## Operations -/

theorem insertEventLocked_grows (d : Deployment) (scopeId : String) (runId : Uuid)
    (type : EventType) (data : Json) (actor : String) (occurredAt : Timestamp) {n : Nat} :
    Grows n (insertEventLocked d scopeId runId type data actor occurredAt) := by
  refine .bind .getDb fun db => .bind (.orThrow _ _) fun run => .bind (.orThrow _ _) fun ss => ?_
  refine .bind .uuid4 fun id => .bind (.now d) fun now => .bind (.appendRecord _ _ _ _) fun c => ?_
  exact .bind (.orThrow _ _) fun events => .bind (.modifyDb _) fun _ => .pure _

theorem workspaceFor_grows (d : Deployment) (scopeId : String) (binding : Option UserBinding)
    (now : Timestamp) (actor : String) {n : Nat} :
    Grows n (workspaceFor d scopeId binding now actor) := by
  have hinsert : ∀ w, Grows n (insertWorkspace w) := fun w =>
    .bind .getDb fun db => .bind (.orThrow _ _) fun _ => .bind (.modifyDb _) fun _ => .pure _
  cases binding with
  | none => exact .bind .uuid4 fun id => hinsert _
  | some b =>
      refine .bind .getDb fun db => ?_
      cases db.projectWorkspace scopeId b.projectRef with
      | none => exact .bind .uuid4 fun id => hinsert _
      | some w =>
          refine .bind (.ensure _ _) fun _ => .bind ?_ fun _ => .pure _
          exact .ite (.pure _) (.modifyDb _)

theorem createSession_grows (d : Deployment) (scopeId idempotencyKey title : String)
    (externalRef : Option String) (context : ExecutionContext) {n : Nat} :
    Grows n (createSession d scopeId idempotencyKey title externalRef context) := by
  refine .bind (.now d) fun now => .bind (.transaction (.bind .getDb fun db => ?_)) fun _ =>
    .bind .getDb fun _ => .pure _
  cases db.sessionRequests.get? (scopeId, idempotencyKey) with
  | some row => exact .bind (.ensure _ _) fun _ => .pure _
  | none =>
      refine .bind .uuid4 fun id => .bind (workspaceFor_grows _ _ _ _ _) fun w => ?_
      refine .bind ?_ fun _ => .pure _
      exact .bind .getDb fun db => .bind (.orThrow _ _) fun _ => .bind (.orThrow _ _) fun _ =>
        .modifyDb _

theorem acceptOnce_grows (d : Deployment) (request : RunRequest)
    (idempotencyKey fingerprint : String) (snapshot : RunSnapshot) (rejectIfActive : Bool)
    {n : Nat} :
    Grows n (acceptOnce d request idempotencyKey fingerprint snapshot rejectIfActive) := by
  refine .bind (.now d) fun now => .transaction (.bind .getDb fun db => ?_)
  cases db.requestedRun request.context.scopeId request.sessionId idempotencyKey with
  | some r => exact .bind (.ensure _ _) fun _ => .pure _
  | none =>
      refine .bind (.orThrow _ _) fun view => .bind (.fromExcept _) fun _ =>
        .bind (.ensure _ _) fun _ => .uuid4_bind fun m => ?_
      -- both files are named after the run drawn just now
      refine .bind (.writeObject _ _ _ fun r hr => ?_) fun input =>
        .bind (.writeObject _ _ _ fun r hr => ?_) fun snap => ?_
      · cases hr; exact Nat.lt_succ_self m
      · cases hr; exact Nat.lt_succ_self m
      refine .bind ?_ fun _ => .bind (insertEventLocked_grows _ _ _ _ _ _ _) fun _ =>
        .bind (.modifyDb _) fun _ => .pure _
      exact .bind .getDb fun _ => .bind (.orThrow _ _) fun _ => .modifyDb _

theorem startAttempt_grows (d : Deployment) (c : Candidate) (a : AttemptRow) (actor : String)
    {n : Nat} : Grows n (startAttempt d c a actor) := by
  refine .bind .getDb fun _ => .bind (.orThrow _ _) fun _ => .bind (.modifyDb _) fun _ =>
    .bind (.modifyDb _) fun _ => .bind .getDb fun _ => .bind (.ensure _ _) fun _ => ?_
  refine .bind (.modifyDb _) fun _ => .bind .getDb fun _ => .bind (.ensure _ _) fun _ => ?_
  exact .bind (.modifyDb _) fun _ => .bind (insertEventLocked_grows _ _ _ _ _ _ _) fun _ =>
    .pure _

theorem claimNextRun_grows (d : Deployment) (scopeId : Option String) (workerId : String)
    (nowIso leaseUntil : Timestamp) {n : Nat} :
    Grows n (claimNextRun d scopeId workerId nowIso leaseUntil) := by
  refine .bind (.transaction (.bind .getDb fun db => ?_)) fun claimed => ?_
  · cases db.nextClaimable nowIso scopeId with
    | none => exact .pure _
    | some c =>
        exact .bind .uuid4 fun id => .bind (.fromExcept _) fun _ =>
          .bind (startAttempt_grows _ _ _ _) fun _ => .pure _
  · cases claimed with
    | none => exact .pure _
    | some c => exact .bind .getDb fun _ => .bind (.orThrow _ _) fun _ => .pure _

theorem writeOutput_grows (d : Deployment) (db : Db) (r : RunRow) (output : Option String)
    {n : Nat} : Grows n (writeOutput d db r output) := by
  cases output with
  | none => exact .pure _
  | some o => exact .bind (.writeObject _ _ _ fun r hr => by cases hr) fun _ => .pure _

theorem transitionRun_grows (d : Deployment) (scopeId : String) (runId : Uuid)
    (expectedVersion : Nat) (target : RunStatus) (args : TransitionArgs)
    (actorRef : Option String) {n : Nat} :
    Grows n (transitionRun d scopeId runId expectedVersion target args actorRef) := by
  refine .transaction (.bind .getDb fun db => .bind (.orThrow _ _) fun row =>
    .bind (.fromExcept _) fun after => .bind (.now d) fun now => ?_)
  refine .bind (writeOutput_grows _ _ _ _) fun out => .bind (.modifyDb _) fun _ =>
    .bind (insertEventLocked_grows _ _ _ _ _ _ _) fun _ => ?_
  exact .ite (.bind (.modifyDb _) fun _ => .bind .getDb fun _ => .pure _)
    (.bind .getDb fun _ => .pure _)

theorem cancelRun_grows (d : Deployment) (scopeId : String) (runId : Uuid)
    (actorRef : Option String) {n : Nat} : Grows n (cancelRun d scopeId runId actorRef) := by
  refine .bind .getDb fun db => .bind (.orThrow _ _) fun row => .ite (.pure _) ?_
  refine .bind (transitionRun_grows _ _ _ _ _ _ _) fun current => .ite ?_ (.pure _)
  exact .bind (.orThrow _ _) fun _ => transitionRun_grows _ _ _ _ _ _ _

theorem respondToRun_grows (d : Deployment) (scopeId : String) (runId : Uuid)
    (pendingId responseKey : String) (expectedStateVersion : Nat) (text actor : String) {n : Nat} :
    Grows n
      (respondToRun d scopeId runId pendingId responseKey expectedStateVersion text actor) := by
  refine .bind (.transaction (.bind .getDb fun db => .bind (.orThrow _ _) fun p =>
    .bind (.orThrow _ _) fun run => .ite (.ensure _ _) ?_)) fun _ => .bind .getDb fun _ => .pure _
  refine .bind .getDb fun db => .bind (.writeObject _ _ _ fun r hr => by cases hr) fun payload =>
    .bind (.now d) fun _ => .bind (.now d) fun _ => .bind (.ensure _ _) fun _ =>
    .bind (.modifyDb _) fun _ => .bind (.ensure _ _) fun _ => ?_
  refine .bind .getDb fun db => .bind (.orThrow _ _) fun row => .bind (.fromExcept _) fun after =>
    .bind (writeOutput_grows _ _ _ _) fun out => ?_
  exact .bind (.now d) fun _ => .bind (.modifyDb _) fun _ => .bind (.now d) fun _ =>
    .bind (insertEventLocked_grows _ _ _ _ _ _ _) fun _ => .pure _

theorem recordWorkspaceRevision_grows (d : Deployment) (scopeId : String)
    (workspaceId attemptId : Uuid) (workspaceEpoch : Nat) (commit : WorkspaceCommit)
    (actor : String) {n : Nat} :
    Grows n
      (recordWorkspaceRevision d scopeId workspaceId attemptId workspaceEpoch commit actor) :=
  .bind (.now d) fun _ => .transaction (.bind .getDb fun _ => .bind (.orThrow _ _) fun _ =>
    .bind (.ensure _ _) fun _ => .bind (.ensure _ _) fun _ => .bind (.orThrow _ _) fun _ =>
    .modifyDb _)

theorem appendEvent_grows (d : Deployment) (scopeId : String) (runId : Uuid) (type : EventType)
    (data : List (String × Json)) (actor : String) {n : Nat} :
    Grows n (appendEvent d scopeId runId type data actor) :=
  .transaction (.bind .getDb fun _ => .bind (.orThrow _ _) fun _ => .bind (.now d) fun _ =>
    insertEventLocked_grows _ _ _ _ _ _ _)

theorem prepareTool_grows (d : Deployment) (call : ToolCall) (actor : String) {n : Nat} :
    Grows n (prepareTool d call actor) := by
  refine .bind (.now d) fun now => .transaction (.bind .getDb fun db => ?_)
  cases db.calledTool call.scopeId call.runId call.logicalCallKey with
  | some t => exact .bind (.ensure _ _) fun _ => .pure _
  | none =>
      refine .bind (.orThrow _ _) fun run => .bind (.orThrow _ _) fun w =>
        .bind (.ensure _ _) fun _ => .bind .uuid4 fun id => .bind ?_ fun _ => ?_
      · exact .bind .getDb fun _ => .bind (.ensure _ _) fun _ => .bind (.orThrow _ _) fun _ =>
          .modifyDb _
      · exact .bind (insertEventLocked_grows _ _ _ _ _ _ _) fun _ => .pure _

theorem startTool_grows (d : Deployment) (scopeId : String) (operationId : Uuid)
    (actor : String) {n : Nat} : Grows n (startTool d scopeId operationId actor) :=
  .bind (.now d) fun _ => .transaction (.bind .getDb fun _ => .bind (.orThrow _ _) fun _ =>
    .bind (.modifyDb _) fun _ => .bind (insertEventLocked_grows _ _ _ _ _ _ _) fun _ => .pure _)

theorem appendToolOutput_grows (d : Deployment) (scopeId : String) (operationId : Uuid)
    (stream text : String) (truncated : Bool) (actor : String) {n : Nat} :
    Grows n (appendToolOutput d scopeId operationId stream text truncated actor) :=
  .transaction (.bind .getDb fun _ => .bind (.orThrow _ _) fun _ => .bind (.now d) fun _ =>
    .bind (insertEventLocked_grows _ _ _ _ _ _ _) fun _ => .pure _)

theorem finishTool_grows (d : Deployment) (scopeId : String) (operationId : Uuid)
    (status : ToolStatus) (resultRef : Option String) (error : Option (List (String × Json)))
    (actor : String) (resultRevisionId : Option String) {n : Nat} :
    Grows n
      (finishTool d scopeId operationId status resultRef error actor resultRevisionId) :=
  .bind (.now d) fun _ => .transaction (.bind .getDb fun _ => .bind (.orThrow _ _) fun _ =>
    .bind (.ensure _ _) fun _ => .bind (.modifyDb _) fun _ =>
    .bind (insertEventLocked_grows _ _ _ _ _ _ _) fun _ => .pure _)

end CodeForge
