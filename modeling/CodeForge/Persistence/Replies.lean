import CodeForge.Persistence.Access
import CodeForge.Persistence.Queue

/-!
# Calls and their replies

`claim_next_run`, `transition_run`, `cancel_run` and `respond_to_run` give their
caller the run, and read its bodies from the content files to do so.  They read
them after the transaction is committed.  A caller that is told of an error may
therefore have changed the rows: its reply is lost, not its change.

`Call.Clean` says that a call that fails leaves the tables alone, and `Call.Safe`
when it does (`Reachable.clean_iff`): wherever the change would be committed, the
bodies of its run can be read.  The content files are arbitrary there, as files
may be lost, and any of those that are there may be unreadable.
-/

namespace CodeForge

open Lib StoreM

/-! ## Programs that also read content -/

/-- What a call raises. -/
inductive CallError where
  | store (e : StoreError)
  | read (e : ReadError)
deriving DecidableEq, Repr

/-- A program over the store and the bodies. -/
abbrev CallM := EStateM CallError Store

variable {α β : Type}

/-- A program over the store. -/
def stored (x : StoreM α) : CallM α := fun s =>
  match x s with
  | .ok a t => .ok a t
  | .error e t => .error (.store e) t

/-- `get_run` -/
def readRun (A : Access) (d : Deployment) (scopeId : String) (runId : Uuid) :
    CallM (Option Reader.RunView) := fun s =>
  match (A.reader s.files).getRun d s.db scopeId runId with
  | .ok view => .ok view s
  | .error e => .error (.read e) s

/-! ## The calls -/

section Calls

variable (A : Access) (d : Deployment)

/-- `claim_next_run` -/
def claimNextRunReply (scopeId : Option String) (workerId : String)
    (nowIso leaseUntil : Timestamp) : CallM (Option (ClaimedRun × Reader.RunView)) := do
  match ← stored (claimNextRun d scopeId workerId nowIso leaseUntil) with
  | none => return none
  | some claimed => do
      let view ← readRun A d claimed.run.scopeId claimed.run.id
      let view ← orThrow view (.store .assertion)
      return some (claimed, view)

/-- `transition_run` -/
def transitionRunReply (scopeId : String) (runId : Uuid) (expectedVersion : Nat)
    (target : RunStatus) (args : TransitionArgs) (actorRef : Option String) :
    CallM (Option Reader.RunView) := do
  let _ ← stored (transitionRun d scopeId runId expectedVersion target args actorRef)
  readRun A d scopeId runId

/-- `cancel_run` -/
def cancelRunReply (scopeId : String) (runId : Uuid) (actorRef : Option String) :
    CallM (Option Reader.RunView) := do
  let view ← readRun A d scopeId runId
  let view ← orThrow view (.store (.domain .runNotFound "Run not found"))
  if view.row.status.terminal || view.row.status = .cancelling then
    readRun A d scopeId runId
  else do
    let actor := textOr actorRef "system:runtime/api"
    let current ← transitionRunReply A d scopeId runId view.row.stateVersion .cancelling {}
      (some actor)
    -- `current["state_version"]` of None
    let current ← orThrow current (.read (.uncaught .value))
    if view.row.status = .queued then
      transitionRunReply A d scopeId runId current.row.stateVersion .cancelled {} (some actor)
    else return some current

/-- `respond_to_run` -/
def respondToRunReply (scopeId : String) (runId : Uuid) (pendingId responseKey : String)
    (expectedStateVersion : Nat) (text actor : String) : CallM (Option Reader.RunView) := do
  let _ ← stored
    (respondToRun d scopeId runId pendingId responseKey expectedStateVersion text actor)
  readRun A d scopeId runId

end Calls

/-- A call of one of the four. -/
inductive Call where
  | claimNextRun (scopeId : Option String) (workerId : String) (nowIso leaseUntil : Timestamp)
  | transitionRun (scopeId : String) (runId : Uuid) (expectedVersion : Nat) (target : RunStatus)
      (args : TransitionArgs) (actorRef : Option String)
  | cancelRun (scopeId : String) (runId : Uuid) (actorRef : Option String)
  | respondToRun (scopeId : String) (runId : Uuid) (pendingId responseKey : String)
      (expectedStateVersion : Nat) (text actor : String)

/-! ## Failing without a trace -/

/-- A call that fails leaves the tables alone. -/
def CallM.Clean (x : CallM α) (s : Store) : Prop := ∀ e t, x s = .error e t → t.db = s.db

namespace Call

variable (A : Access) (d : Deployment) (s : Store)

/-- If the call fails, the tables are as they were. -/
def Clean : Call → Prop
  | .claimNextRun scopeId workerId nowIso leaseUntil =>
      CallM.Clean (claimNextRunReply A d scopeId workerId nowIso leaseUntil) s
  | .transitionRun scopeId runId version target args actorRef =>
      CallM.Clean (transitionRunReply A d scopeId runId version target args actorRef) s
  | .cancelRun scopeId runId actorRef =>
      CallM.Clean (cancelRunReply A d scopeId runId actorRef) s
  | .respondToRun scopeId runId pendingId key version text actor =>
      CallM.Clean (respondToRunReply A d scopeId runId pendingId key version text actor) s

/-- Where the call would change the rows, the bodies of its run can be read.  For `cancel_run`
this is no condition, as it reads them before it starts. -/
def Safe : Call → Prop
  | .claimNextRun scopeId _ nowIso _ =>
      ∀ c b, s.db.nextClaimable nowIso scopeId = some c → c.binding d.host = .ok b →
        A.Reads d s c.run.scopeId c.run.id
  | .transitionRun scopeId runId version target args _ =>
      ∀ row after, s.db.run scopeId runId = some row →
        transition row.state target version args.taskOutcome args.reason = .ok after →
          A.ReadsWith d s row args.output
  | .cancelRun _ _ _ => True
  | .respondToRun scopeId runId pendingId key version _ _ =>
      ∀ p r after, s.db.pendings.getIn scopeId pendingId = some p → p.runId = runId →
        s.db.run scopeId runId = some r → p.resolved = false →
          s.db.responseKeyTaken p key = false →
            transition r.state .queued version none none = .ok after →
              A.Reads d s scopeId runId

end Call

/-! ## Calls that go through -/

section Totality

variable {d : Deployment} {s : Store}

/-- A claim keeps what runs are read from. -/
theorem startAttempt_bodies {c : Candidate} {a : AttemptRow} {actor : String} {u : Unit}
    {t : Store} (h : startAttempt d c a actor s = .ok u t) :
    t.db.refs = s.db.refs ∧ t.db.bases d = s.db.bases d := by
  have bodies := (startAttempt_keeps Db.Apart.bodies.toAside c a actor).of_ok h
  have bases := (startAttempt_keeps (Db.Apart.bases d).toAside c a actor).of_ok h
  exact ⟨congrArg Prod.fst bodies, bases⟩

/-- An attempt at a run that may be claimed is started. -/
theorem startAttempt_total (ready : s.db.Ready s.drawn) {c : Candidate} {nowIso : Timestamp}
    {scopeId : Option String} (run : c.run ∈ s.db.runs) (candidate : s.db.candidate c.run = some c)
    (claimable : s.db.Claimable nowIso scopeId c) {id : Uuid} {binding : Option UserBinding}
    {workerId actor : String} {now leaseUntil : Timestamp}
    (fits : ∃ attempts, s.db.attempts.insert?
      (c.attempt id binding workerId now leaseUntil actor) = some attempts) :
    Ends (startAttempt d c (c.attempt id binding workerId now leaseUntil actor) actor) s := by
  obtain ⟨attempts, insert⟩ := fits
  obtain ⟨-, hsession, hworkspace⟩ := Db.candidate_eq_some.1 candidate
  obtain ⟨-, hscope, -⟩ := Db.session_eq_some.1 hsession
  rw [hscope] at hworkspace
  have hrun : s.db.run c.run.scopeId c.run.id = some c.run := Table.getIn_of_mem run
  refine .bind rfl (.orThrow_bind insert (.bind rfl (.bind rfl (.bind rfl (.ensure_bind ?_
    (.bind rfl (.bind rfl (.ensure_bind ?_ (.bind rfl ?_)))))))))
  · change ((s.db.workspace c.run.scopeId c.session.workspaceId).filter _).isSome = true
    simp [hworkspace, WorkspaceRow.leaseFree, claimable.2.2.2.1]
  · change ((s.db.run c.run.scopeId c.run.id).filter _).isSome = true
    simp [hrun]
  · have started : ∃ r, (s.db.startAttempt attempts c
        (c.attempt id binding workerId now leaseUntil actor) actor).run c.run.scopeId c.run.id =
          some r := by
      simp only [Db.startAttempt, Db.startRun, Db.occupyWorkspace, Db.occupySession, Db.run]
      exact ⟨_, Table.getIn_updateIn_of hrun _ _⟩
    obtain ⟨r, hr⟩ := started
    have room : (s.db.startAttempt attempts c
        (c.attempt id binding workerId now leaseUntil actor) actor).Ready s.drawn := by
      refine ready.frame (Nat.le_refl _) rfl ?_ ?_ ?_
      all_goals
        simp only [Db.startAttempt, Db.startRun, Db.occupyWorkspace, Db.occupySession]
        rw [Table.view_updateIn_same]
        intro x
        first | rfl | (split <;> rfl)
    have recorded := insertEventLocked_total (d := d) (s := { s with db := _ }) room hr .runStarted
      (startedData d id) actor now
    obtain ⟨e, s₁, hev⟩ := recorded
    exact .bind hev (.pure _ _)

/-- A run that may be claimed is claimed. -/
theorem claimNextRun_total (ready : s.db.Ready s.drawn) (fits : s.ClaimFits)
    {scopeId : Option String} {nowIso : Timestamp} {c : Candidate} {binding : Option UserBinding}
    (next : s.db.nextClaimable nowIso scopeId = some c) (bound : c.binding d.host = .ok binding)
    (workerId : String) (leaseUntil : Timestamp) :
    ∃ claimed t, claimNextRun d scopeId workerId nowIso leaseUntil s = .ok (some claimed) t := by
  obtain ⟨run, candidate, claimable⟩ := Db.nextClaimable_spec next
  obtain ⟨u, t, start⟩ := startAttempt_total (d := d) (s := { s with drawn := s.drawn + 1 })
    (ready.frame (Nat.le_succ _) rfl rfl rfl rfl) run candidate claimable
    (fits nowIso scopeId c next binding workerId leaseUntil s!"system:runtime/{workerId}")
  have body : claimCandidate d scopeId workerId nowIso leaseUntil s = .ok
      (some (c, c.attempt ⟨s.drawn⟩ binding workerId nowIso leaseUntil
        s!"system:runtime/{workerId}", binding)) t := by
    unfold claimCandidate
    rw [getDb_bind_eq_ok, next]
    simp only [uuid4_bind_eq_ok, fromExcept_bind_eq_ok]
    exact ⟨binding, bound, bind_eq_ok.2 ⟨u, t, start, rfl⟩⟩
  have kept : t.db.refs (c.run.scopeId, c.run.id) = some c.run.refs :=
    (congrFun (startAttempt_bodies start).1 _).trans (Table.view_of_mem run _)
  obtain ⟨r, known⟩ := Db.run_of_refs kept
  have ends : Ends (claimNextRun d scopeId workerId nowIso leaseUntil) s :=
    .bind (transaction_eq_ok.2 body) (.bind rfl (.orThrow_bind known (.pure _ _)))
  obtain ⟨o, t', h⟩ := ends
  cases o with
  | none =>
      have none_ := (claimNextRun_none h).1
      rw [next] at none_
      cases none_
  | some claimed => exact ⟨claimed, t', h⟩

/-- A run that is put back is put back. -/
theorem transitionRunLocked_total (ready : s.db.Ready s.drawn) {scopeId : String} {runId : Uuid}
    {row : RunRow} {after : RunState} {target : RunStatus} {expectedVersion : Nat}
    (run : s.db.run scopeId runId = some row)
    (change : transition row.state target expectedVersion none none = .ok after) (actor : String) :
    Ends (transitionRunLocked d scopeId runId target expectedVersion {} actor) s := by
  obtain ⟨r, moved⟩ := Db.run_moveRun run expectedVersion after none none (storedError none)
    (d.clock s.ticks) actor
  have recorded := insertEventLocked_total (d := d)
    (s := { s with db := _, ticks := s.ticks + 1 + 1 })
    (ready.moveRun (Nat.le_refl _) _ _ _ _ _ _ _) moved (announcedBy target)
    (if after.status = .queued then .obj [("status", .str after.status.value)] else .obj [])
    actor (d.clock (s.ticks + 1))
  obtain ⟨e, t, hev⟩ := recorded
  exact .bind rfl (.orThrow_bind run (.fromExcept_bind change (.bind rfl (.bind rfl (.bind rfl
    (.bind rfl (.bind hev (.pure _ _))))))))

/-- An answer to an open request of a run that waits goes through. -/
theorem respondToRun_total (ready : s.db.Ready s.drawn) {scopeId : String} {runId : Uuid}
    {pendingId responseKey : String} {expectedStateVersion : Nat} {p : PendingRow} {r : RunRow}
    {after : RunState} (found : s.db.pendings.getIn scopeId pendingId = some p)
    (ofRun : p.runId = runId) (run : s.db.run scopeId runId = some r)
    (unresolved : p.resolved = false) (free : s.db.responseKeyTaken p responseKey = false)
    (change : transition r.state .queued expectedStateVersion none none = .ok after)
    (text actor : String) :
    Ends (respondToRun d scopeId runId pendingId responseKey expectedStateVersion text actor)
      s := by
  have chosen : (s.db.pendings.getIn scopeId pendingId).filter (fun p => p.runId = runId) =
      some p := by
    rw [found]
    simp [ofRun]
  obtain ⟨-, rfl, rfl⟩ := Db.run_eq_some.1 run
  have version : r.stateVersion = expectedStateVersion := (transition_eq_ok.1 change).1
  have resolving : Ends (resolveResponse d p r responseKey expectedStateVersion text actor) s := by
    refine .bind rfl (.bind rfl (.bind rfl (.bind rfl (.ensure_bind ?_ (.bind rfl
      (.ensure_bind ?_ ?_))))))
    · rw [free]
      rfl
    · exact decide_eq_true version
    · refine transitionRunLocked_total ?_ ?_ change actor
      · exact ready.frame (Nat.le_refl _) rfl rfl rfl rfl
      · exact run
  obtain ⟨u, t, resolved⟩ := resolving
  have body : Ends (transaction do
      let db ← getDb
      let p ← orThrow ((db.pendings.getIn r.scopeId pendingId).filter fun p => p.runId = r.id)
        (.domain .runNotFound "Pending response not found")
      let run ← orThrow (db.run r.scopeId r.id) (.domain .runNotFound "Pending response not found")
      if p.resolved then
        ensure (p.responseKey = some responseKey &&
            p.responseDigest = some (fingerprintOf d (.obj [("text", .str text)])))
          (.domain .stateConflict "Response is already resolved")
      else resolveResponse d p run responseKey expectedStateVersion text actor) s := by
    refine transaction_ends (.bind rfl (.orThrow_bind chosen (.orThrow_bind run ?_)))
    rw [if_neg (by simp [unresolved])]
    exact ⟨u, t, resolved⟩
  obtain ⟨u', t', hbody⟩ := body
  exact .bind hbody (.bind rfl (.pure _ _))

end Totality

/-! ## Failing without a trace, exactly -/

section Clean

variable {A : Access} {d : Deployment} {s t : Store} {scopeId : String} {runId : Uuid}

theorem stored_of_ok {x : StoreM α} {a : α} (h : x s = .ok a t) : stored x s = .ok a t := by
  rw [stored, h]

theorem stored_of_error {x : StoreM α} {e : CallError} (h : stored x s = .error e t) :
    ∃ e', x s = .error e' t := by
  unfold stored at h
  cases hx : x s with
  | ok a s₁ =>
      rw [hx] at h
      cases h
  | error e' s₁ =>
      rw [hx] at h
      cases h
      exact ⟨e', rfl⟩

theorem ok_of_stored {x : StoreM α} {a : α} (h : stored x s = .ok a t) : x s = .ok a t := by
  unfold stored at h
  cases hx : x s with
  | ok a' s₁ =>
      rw [hx] at h
      cases h
      rfl
  | error e' s₁ =>
      rw [hx] at h
      cases h

/-- A run that cannot be read is not read. -/
theorem readRun_error (h : ¬ A.Reads d s scopeId runId) :
    ∃ e, readRun A d scopeId runId s = .error e s := by
  unfold readRun
  cases hread : (A.reader s.files).getRun d s.db scopeId runId with
  | ok view => exact absurd ⟨view, hread⟩ h
  | error e => exact ⟨.read e, rfl⟩

/-- Reading leaves the store alone, and fails only where the run cannot be read. -/
theorem error_of_readRun {e : CallError} (h : readRun A d scopeId runId s = .error e t) :
    t = s ∧ ¬ A.Reads d s scopeId runId := by
  unfold readRun at h
  cases hread : (A.reader s.files).getRun d s.db scopeId runId with
  | ok view =>
      rw [hread] at h
      cases h
  | error e =>
      rw [hread] at h
      cases h
      refine ⟨rfl, ?_⟩
      rintro ⟨view, hview⟩
      rw [hread] at hview
      cases hview

/-- A run that is there is read with its row. -/
theorem ok_of_readRun {o : Option Reader.RunView}
    (h : readRun A d scopeId runId s = .ok o t) :
    t = s ∧ A.Reads d s scopeId runId ∧ o.map Reader.RunView.row = s.db.run scopeId runId := by
  unfold readRun at h
  cases hread : (A.reader s.files).getRun d s.db scopeId runId with
  | error e =>
      rw [hread] at h
      cases h
  | ok view =>
      rw [hread] at h
      cases h
      refine ⟨rfl, ⟨o, hread⟩, ?_⟩
      unfold Reader.getRun at hread
      cases hrun : s.db.run scopeId runId with
      | none =>
          rw [hrun] at hread
          cases hread
          rfl
      | some r =>
          rw [hrun] at hread
          obtain ⟨v, hv, hread⟩ := except_bind_eq_ok.1 hread
          cases hread
          simp only [Reader.decodeRun, except_bind_eq_ok] at hv
          obtain ⟨_, -, _, -, _, -, hv⟩ := hv
          cases hv
          rfl

theorem Db.ne_of_event {db db' : Db} (h : ∃ e, db'.events.rows = db.events.rows ++ [e]) :
    db' ≠ db := by
  rintro rfl
  obtain ⟨e, he⟩ := h
  have := congrArg List.length he
  rw [List.length_append, List.length_singleton] at this
  omega

/-- A transaction followed by a read of the run fails without a trace exactly if the run can be
read wherever the transaction changed something. -/
theorem CallM.clean_read_iff {x : StoreM α} (rollback : ∀ e t, x s = .error e t → t.db = s.db) :
    CallM.Clean (stored x >>= fun _ => readRun A d scopeId runId) s ↔
      ∀ a t, x s = .ok a t → t.db ≠ s.db → A.Reads d t scopeId runId := by
  constructor
  · intro clean a t hx changed
    by_contra unread
    obtain ⟨e, he⟩ := readRun_error unread
    exact changed (clean e t (bind_eq_error.2 (.inr ⟨a, t, stored_of_ok hx, he⟩)))
  · intro readable e t' h
    rcases bind_eq_error.1 h with failed | ⟨a, t, hx, hread⟩
    · obtain ⟨e', he'⟩ := stored_of_error failed
      exact rollback e' t' he'
    · obtain ⟨rfl, unread⟩ := error_of_readRun hread
      by_contra changed
      exact unread (readable a t' (ok_of_stored hx) changed)

theorem transitionRunReply_clean_iff (ready : s.db.Ready s.drawn) (filed : s.db.Filed)
    (version : Nat) (target : RunStatus) (args : TransitionArgs) (actorRef : Option String) :
    CallM.Clean (transitionRunReply A d scopeId runId version target args actorRef) s ↔
      (Call.transitionRun scopeId runId version target args actorRef).Safe A d s := by
  unfold transitionRunReply
  rw [CallM.clean_read_iff fun e t failed => transitionRun_error_db failed]
  constructor
  · intro readable row after run change
    have ends : Ends (transitionRun d scopeId runId version target args actorRef) s :=
      transitionRun_total ready run change
    obtain ⟨o, t, h⟩ := ends
    obtain ⟨_, _, e, _, -, -, added, -⟩ := transitionRun_spec h
    obtain ⟨row', run', refs, -, bases, objects⟩ := transitionRun_writes h
    cases run.symm.trans run'
    exact (Access.readsWith_iff filed run refs bases objects.bodies).1
      (readable o t h (Db.ne_of_event ⟨e, added⟩))
  · intro safe o t h changed
    obtain ⟨row', after, _, run', change, -⟩ := transitionRun_spec h
    obtain ⟨row, run, refs, -, bases, objects⟩ := transitionRun_writes h
    cases run.symm.trans run'
    exact (Access.readsWith_iff filed run refs bases objects.bodies).2 (safe _ after run change)

theorem respondToRunReply_clean_iff (ready : s.db.Ready s.drawn) (filed : s.db.Filed)
    (pendingId key : String) (version : Nat) (text actor : String) :
    CallM.Clean (respondToRunReply A d scopeId runId pendingId key version text actor) s ↔
      (Call.respondToRun scopeId runId pendingId key version text actor).Safe A d s := by
  unfold respondToRunReply
  rw [CallM.clean_read_iff fun e t failed => respondToRun_error_db failed]
  constructor
  · intro readable p r after found ofRun run unresolved free change
    have ends : Ends (respondToRun d scopeId runId pendingId key version text actor) s :=
      respondToRun_total ready found ofRun run unresolved free change text actor
    obtain ⟨o, t, h⟩ := ends
    obtain ⟨refs, bases, p', r', found', -, -, same | ⟨-, -, -, added, -, objects⟩⟩ :=
      respondToRun_writes h
    · cases found.symm.trans found'
      rw [unresolved] at same
      cases same.1
    · have bodies := (Files.withResponse_bodies d s.files _ _ pendingId text).trans objects.bodies
      exact (Access.reads_congr filed (congrFun refs _) bases bodies).1
        (readable o t h (Db.ne_of_event added))
  · intro safe o t h changed
    obtain ⟨refs, bases, p, r, found, ofRun, run,
      ⟨-, rfl⟩ | ⟨unresolved, free, ⟨after, change⟩, -, -, objects⟩⟩ := respondToRun_writes h
    · exact absurd rfl changed
    · have bodies := (Files.withResponse_bodies d s.files _ _ pendingId text).trans objects.bodies
      exact (Access.reads_congr filed (congrFun refs _) bases bodies).2
        (safe p r after found ofRun run unresolved free change)

/-- A claim that fails after it took a run would have found the run gone. -/
theorem claimNextRun_error_db {workerId : String} {nowIso leaseUntil : Timestamp}
    {scope : Option String} {e : StoreError}
    (h : claimNextRun d scope workerId nowIso leaseUntil s = .error e t) : t.db = s.db := by
  rcases bind_eq_error.1 h with failed | ⟨o, s₁, hbody, h⟩
  · exact transaction_error_db failed
  · rw [transaction_eq_ok] at hbody
    rcases claimCandidate_eq_ok hbody with
      ⟨-, rfl, -⟩ | ⟨c, a, binding, u, next, rfl, -, -, start⟩
    · cases h
    · exfalso
      have refs := (startAttempt_bodies start).1
      obtain ⟨run, -, -⟩ := Db.nextClaimable_spec next
      have kept : s₁.db.refs (c.run.scopeId, c.run.id) = some c.run.refs :=
        (congrFun refs _).trans (Table.view_of_mem run _)
      obtain ⟨r, known⟩ := Db.run_of_refs kept
      rcases bind_eq_error.1 h with h | ⟨db, s₂, hdb, h⟩
      · cases h
      · cases hdb
        rw [show s₁.db.run c.run.scopeId c.run.id = some r from known] at h
        cases h

theorem claimNextRunReply_clean_iff (ready : s.db.Ready s.drawn) (fits : s.ClaimFits)
    (filed : s.db.Filed) (scope : Option String) (workerId : String)
    (nowIso leaseUntil : Timestamp) :
    CallM.Clean (claimNextRunReply A d scope workerId nowIso leaseUntil) s ↔
      (Call.claimNextRun scope workerId nowIso leaseUntil).Safe A d s := by
  -- what a claim does to the run it takes
  have claims : ∀ {claimed : ClaimedRun} {t : Store},
      claimNextRun d scope workerId nowIso leaseUntil s = .ok (some claimed) t →
      ∃ c binding, s.db.nextClaimable nowIso scope = some c ∧ c.binding d.host = .ok binding ∧
        t.db ≠ s.db ∧ t.db.run claimed.run.scopeId claimed.run.id = some claimed.run ∧
        (A.Reads d t claimed.run.scopeId claimed.run.id ↔
          A.Reads d s c.run.scopeId c.run.id) := by
    intro claimed t h
    obtain ⟨c, a, binding, u, next, bound, run, start⟩ := claimNextRun_some h
    obtain ⟨-, hscope, hid⟩ := Db.run_eq_some.1 run
    obtain ⟨refs, bases⟩ := startAttempt_bodies start
    obtain ⟨objects, added⟩ := startAttempt_writes start
    refine ⟨c, binding, next, bound, Db.ne_of_event added, ?_, ?_⟩
    · rw [hscope, hid]
      exact run
    · rw [hscope, hid]
      exact Access.reads_congr filed (congrFun refs _) bases objects.bodies
  constructor
  · intro clean c binding next bound
    obtain ⟨claimed, t, h⟩ := claimNextRun_total ready fits next bound workerId leaseUntil
    obtain ⟨c', _, next', -, changed, -, reads⟩ := claims h
    cases next.symm.trans next'
    rw [← reads]
    by_contra unread
    obtain ⟨e, he⟩ := readRun_error unread
    exact changed (clean e t (bind_eq_error.2
      (.inr ⟨some claimed, t, stored_of_ok h, bind_eq_error.2 (.inl he)⟩)))
  · intro safe e t' h
    rcases bind_eq_error.1 h with failed | ⟨o, t, hclaim, h⟩
    · obtain ⟨e', he'⟩ := stored_of_error failed
      exact claimNextRun_error_db he'
    · cases o with
      | none => cases h
      | some claimed =>
          exfalso
          obtain ⟨c, binding, next, bound, -, run, reads⟩ := claims (ok_of_stored hclaim)
          rcases bind_eq_error.1 h with h | ⟨view, t₁, hread, h⟩
          · exact (error_of_readRun h).2 (reads.2 (safe c binding next bound))
          · obtain ⟨rfl, -, row⟩ := ok_of_readRun hread
            rw [run] at row
            cases view with
            | none => cases row
            | some v =>
                rcases bind_eq_error.1 h with h | ⟨_, _, -, h⟩
                · cases h
                · cases h

/-- A run that was read stays readable over a change without an output. -/
theorem transitionRun_reads {version : Nat} {target : RunStatus} {actorRef : Option String}
    {o : Option RunRow} (filed : s.db.Filed) (reads : A.Reads d s scopeId runId)
    (h : transitionRun d scopeId runId version target {} actorRef s = .ok o t) :
    A.Reads d t scopeId runId ∧ t.db.Filed ∧
      ∃ row after, s.db.run scopeId runId = some row ∧
        transition row.state target version none none = .ok after ∧
        ∃ row', t.db.run scopeId runId = some row' ∧ row'.state = after := by
  obtain ⟨row, after, _, run, change, states, -, -, -, -⟩ := transitionRun_spec h
  obtain ⟨row', run', refs, -, bases, objects⟩ := transitionRun_writes h
  have reads' : A.ReadsWith d s row' none := by
    obtain ⟨-, rfl, rfl⟩ := Db.run_eq_some.1 run'
    exact reads
  refine ⟨(Access.readsWith_iff filed run' refs bases objects.bodies).2 reads', ?_, row, after,
    run, change, ?_⟩
  · have kept := @transitionRun_filed d scopeId runId version target {} actorRef s filed
    rw [finalState_of_ok h] at kept
    exact kept
  · have view : t.db.runs.view RunRow.state (scopeId, runId) = some after := by
      rw [states, Function.update_self]
    obtain ⟨r, hr, hkey, hstate⟩ := Table.view_eq_some.1 view
    obtain ⟨scope, id⟩ := Prod.mk.inj hkey
    exact ⟨r, Db.run_eq_some.2 ⟨hr, scope, id⟩, hstate⟩

/-- A change without an output of a run that can be read fails without a trace. -/
theorem transitionRunReply_clean (ready : s.db.Ready s.drawn) (filed : s.db.Filed)
    (reads : A.Reads d s scopeId runId) (version : Nat) (target : RunStatus)
    (actorRef : Option String) :
    CallM.Clean (transitionRunReply A d scopeId runId version target {} actorRef) s := by
  refine (transitionRunReply_clean_iff ready filed version target {} actorRef).2 ?_
  intro row after run change
  obtain ⟨-, rfl, rfl⟩ := Db.run_eq_some.1 run
  exact reads

/-- A permitted change without an output of a run that can be read does not fail. -/
theorem transitionRunReply_succeeds (ready : s.db.Ready s.drawn) (filed : s.db.Filed)
    (reads : A.Reads d s scopeId runId) {row : RunRow} {after : RunState} {version : Nat}
    {target : RunStatus} (run : s.db.run scopeId runId = some row)
    (change : transition row.state target version none none = .ok after)
    (actorRef : Option String) (e : CallError) :
    transitionRunReply A d scopeId runId version target {} actorRef s ≠ .error e t := by
  intro h
  have ends : Ends (transitionRun d scopeId runId version target {} actorRef) s :=
    transitionRun_total ready run change
  obtain ⟨o, t', ended⟩ := ends
  rcases bind_eq_error.1 h with failed | ⟨o', t₁, hmove, hread⟩
  · obtain ⟨e', he'⟩ := stored_of_error failed
    rw [ended] at he'
    cases he'
  · exact (error_of_readRun hread).2 (transitionRun_reads filed reads (ok_of_stored hmove)).1

/-- A cancellation reads the run before it starts, and finishes what it starts. -/
theorem cancelRunReply_clean (placed : s.db.Placed) (ready : s.db.Ready s.drawn)
    (filed : s.db.Filed) (actorRef : Option String) :
    CallM.Clean (cancelRunReply A d scopeId runId actorRef) s := by
  intro e t h
  rcases bind_eq_error.1 h with h | ⟨view, s₁, hread, h⟩
  · rw [(error_of_readRun h).1]
  · obtain ⟨rfl, reads, row⟩ := ok_of_readRun hread
    cases view with
    | none =>
        cases h
        rfl
    | some v =>
        rcases bind_eq_error.1 h with h | ⟨v', s₂, hview, h⟩
        · cases h
        · obtain ⟨hv, rfl⟩ := orThrow_eq_ok.1 hview
          cases hv
          split at h
          · rw [(error_of_readRun h).1]
          · rcases bind_eq_error.1 h with h | ⟨current, s₃, hfirst, h⟩
            · exact transitionRunReply_clean ready filed reads _ _ _ e t h
            · exfalso
              obtain ⟨o, s₄, hmove, hread'⟩ := bind_eq_ok.1 hfirst
              obtain ⟨rfl, reads₁, row₁⟩ := ok_of_readRun hread'
              have moved := ok_of_stored hmove
              obtain ⟨-, filed₁, _, after, -, change, r, run₁, state⟩ :=
                transitionRun_reads filed reads moved
              have st : Steps d {} s₂ s₃ := by
                rw [← finalState_of_ok moved]
                exact .single (.call (.transitionRun scopeId runId v.row.stateVersion .cancelling
                  {} (some (textOr actorRef "system:runtime/api"))) ⟨trivial, trivial⟩)
              cases current with
              | none =>
                  rw [run₁] at row₁
                  cases row₁
              | some c =>
                  have hrow : c.row = r := Option.some.inj (row₁.trans run₁)
                  rcases bind_eq_error.1 h with h | ⟨c', s₅, hc, h⟩
                  · cases h
                  · obtain ⟨hc', rfl⟩ := orThrow_eq_ok.1 hc
                    cases hc'
                    split at h
                    · obtain ⟨after', change'⟩ := transition_cancelled change
                      rw [← state] at change'
                      rw [hrow] at h
                      exact transitionRunReply_succeeds (st.ready placed ready) filed₁ reads₁
                        run₁ change' _ e h
                    · cases h

end Clean

/-- In every reachable store, whatever became of the content files, a call that fails leaves the
tables alone exactly if the bodies of its run can be read where it would change them. -/
theorem Reachable.clean_iff {d : Deployment} {π : Discipline} {s : Store} (h : Reachable d π s)
    (files : Files) (A : Access) (c : Call) :
    c.Clean A d { s with files } ↔ c.Safe A d { s with files } := by
  have ready : s.db.Ready s.drawn := h.ready
  have filed : s.db.Filed := h.filed
  cases c with
  | claimNextRun scopeId workerId nowIso leaseUntil =>
      exact claimNextRunReply_clean_iff (s := { s with files }) ready h.claimFits filed _ _ _ _
  | transitionRun scopeId runId version target args actorRef =>
      exact transitionRunReply_clean_iff (s := { s with files }) ready filed _ _ _ _
  | cancelRun scopeId runId actorRef =>
      exact iff_of_true (cancelRunReply_clean (s := { s with files }) h.placed ready filed _)
        trivial
  | respondToRun scopeId runId pendingId key version text actor =>
      exact respondToRunReply_clean_iff (s := { s with files }) ready filed _ _ _ _ _

theorem Op.firstSend_reachable : Reachable .plain {} (Op.execAll .plain Op.firstSend {}) :=
  .execAll fun op _ => op.obeys_default

/-- A cancellation changes nothing where the files are gone. -/
theorem Reachable.clean_iff_firstSend :
    let s := Op.execAll .plain Op.firstSend {}
    (Call.cancelRun "ada" ⟨2⟩ none).Clean .plain .plain { s with files := ∅ } := by
  have reachable := Op.firstSend_reachable
  generalize Op.execAll .plain Op.firstSend {} = s at reachable
  exact (Reachable.clean_iff reachable ∅ .plain (.cancelRun "ada" ⟨2⟩ none)).2 trivial

/-- Without files no run can be read. -/
theorem Access.not_reads_empty {A : Access} {d : Deployment} {s : Store} {r : RunRow}
    (run : r ∈ s.db.runs) : ¬ A.Reads d { s with files := ∅ } r.scopeId r.id := by
  intro reads
  obtain ⟨⟨body, hbody⟩, -, -⟩ := Reader.getRun_ok_iff.1 reads _ (Table.view_of_mem run _)
  have missing : ∀ base ref, (A.reader ∅).readObject base ref =
      .error (.unavailable (.missing ref)) := by
    intro base ref
    simp [Reader.readObject, Access.reader]
  unfold Reader.readObjectJson at hbody
  rw [missing] at hbody
  cases hbody

/-- A claim of a run whose files are gone takes the lease, and then fails. -/
theorem claim_dirty_firstSend :
    let s := Op.execAll .plain Op.firstSend {}
    Reachable .plain {} s ∧
      ¬ (Call.claimNextRun none "w1" "2026-01-01T00:01:00Z" "2026-01-01T00:02:00Z").Clean
        .plain .plain { s with files := ∅ } := by
  have reachable := Op.firstSend_reachable
  have due : ((Op.execAll .plain Op.firstSend {}).db.nextClaimable "2026-01-01T00:01:00Z" none).any
      (fun c => (c.binding Deployment.plain.host).isOk) = true := by decide +kernel
  generalize Op.execAll .plain Op.firstSend {} = s at reachable due
  refine ⟨reachable, fun clean => ?_⟩
  have safe := (claimNextRunReply_clean_iff (s := { s with files := ∅ }) reachable.ready
    reachable.claimFits reachable.filed _ _ _ _).1 clean
  cases next : s.db.nextClaimable "2026-01-01T00:01:00Z" none with
  | none =>
      rw [next] at due
      cases due
  | some c =>
      rw [next] at due
      cases bound : c.binding Deployment.plain.host with
      | error e => simp [bound, Except.isOk, Except.toBool] at due
      | ok b =>
          exact Access.not_reads_empty (Db.nextClaimable_spec next).1 (safe c b next bound)

end CodeForge
