import CodeForge.Persistence.Bindings
import CodeForge.Persistence.Cancellation
import CodeForge.Persistence.Integrity

/-!
# The binding a run works under

A run is accepted under the binding of its session, and its snapshot keeps it.  A claim takes the
binding from the workspace row instead, so that the attempt works where the workspace points at
that time.

A new session of the project may have pointed the workspace elsewhere in between.  `Op.Stays` asks
that a session which does so finds no run of the workspace that may still be claimed, and then
every attempt works under the binding of the snapshot (`Freezing.claimed`).
-/

namespace CodeForge

open Lib StoreM

variable {d : Deployment} {π : Discipline} {s t : Store} {v : Supplied}

/-! ## Bindings and columns -/

/-- The project path is resolved, as the constructor of a binding leaves it. -/
def UserBinding.Resolved (host : Host) (b : UserBinding) : Prop :=
  canonicalPath host b.projectPath "project_path" = .ok b.projectPath

/-- Callers pass bindings as they were constructed. -/
def Discipline.resolved (d : Deployment) : Discipline where
  binding _ b := b.Resolved d.host

/-- The binding columns stand for. -/
def UserBinding.restore (host : Host) (columns : UserBinding) :
    Except StoreError (Option UserBinding) :=
  if columns.projectPath ≠ "" then
    (UserBinding.new host columns.userRef columns.tenantRef columns.userRef columns.userPath
      columns.projectRef (some columns.projectPath) columns.storageRoot columns.userRelPath "").map
        some
  else .ok none

theorem WorkspaceRow.storedBinding_eq (host : Host) (w : WorkspaceRow) :
    w.storedBinding host = w.bindingColumns.restore host := rfl

/-- A binding of a scope is one of its user. -/
theorem UserBinding.new_eq_ok {host : Host} {scopeId tenantRef userRef userPath projectRef : String}
    {projectPath storageRoot userRelPath projectRelPath : String} {b : UserBinding}
    (h : UserBinding.new host scopeId tenantRef userRef userPath projectRef (some projectPath)
      storageRoot userRelPath projectRelPath = .ok b) :
    scopeId = userRef ∧
      canonicalPath host projectPath "project_path" = .ok b.projectPath := by
  unfold UserBinding.new at h
  obtain ⟨-, -, h⟩ := except_bind_eq_ok.1 h
  split at h
  · cases h
  next scope =>
    obtain ⟨user, -, h⟩ := except_bind_eq_ok.1 h
    obtain ⟨paths, -, h⟩ := except_bind_eq_ok.1 h
    obtain ⟨project, resolved, h⟩ := except_bind_eq_ok.1 h
    refine ⟨not_not.1 scope, ?_⟩
    split at h
    · cases h
    split at h
    · cases h
    obtain ⟨rel, -, h⟩ := except_bind_eq_ok.1 h
    cases h
    exact resolved

/-- A run that may be claimed under some binding may be so under the one its workspace stands
for. -/
theorem Candidate.binding_eq_restore {host : Host} {c : Candidate} {binding : Option UserBinding}
    (h : c.binding host = .ok binding) : c.workspace.storedBinding host = .ok binding := by
  unfold Candidate.binding at h
  unfold WorkspaceRow.storedBinding
  split at h
  next bound =>
    rw [if_pos bound]
    obtain ⟨b, new, rfl⟩ := except_map_eq_ok.1 h
    rw [(UserBinding.new_eq_ok new).1] at new
    rw [new]
    rfl
  next unbound =>
    rw [if_neg unbound]
    exact h

/-- Where the columns stand for a binding, it has their directory. -/
theorem WorkspaceRow.storedBinding_path {host : Host} {w : WorkspaceRow}
    {binding : Option UserBinding} (h : w.storedBinding host = .ok binding)
    (origin : w.projectPath = "" ∨ ∃ b : UserBinding, b.Resolved host ∧ w.Bound b) :
    w.projectPath = ((binding.map UserBinding.projectPath).getD "") := by
  unfold WorkspaceRow.storedBinding at h
  split at h
  next bound =>
    obtain ⟨b, new, rfl⟩ := except_map_eq_ok.1 h
    rcases origin with empty | ⟨b', resolved, standsFor⟩
    · exact absurd empty bound
    · have path := (UserBinding.new_eq_ok new).2
      rw [UserBinding.Resolved, ← standsFor.projectPath, path] at resolved
      exact (Except.ok.inj resolved).symm
  next unbound =>
    cases h
    exact not_not.1 unbound

theorem WorkspaceRow.directory_of_stored {host : Host} {w : WorkspaceRow}
    {binding : Option UserBinding} (h : w.storedBinding host = .ok binding)
    (path : w.projectPath = (binding.map UserBinding.projectPath).getD "") :
    (if w.projectPath ≠ "" then some w.projectPath else none) =
      binding.map UserBinding.projectPath := by
  unfold WorkspaceRow.storedBinding at h
  split at h
  next bound =>
    obtain ⟨b, -, rfl⟩ := except_map_eq_ok.1 h
    rw [if_pos bound, path]
    rfl
  next unbound =>
    cases h
    rw [if_neg unbound]
    rfl

/-! ## Acceptances are left alone -/

/-- What runs were accepted as is not touched by events, claims, releases and tools. -/
theorem Db.Apart.acceptances : Db.Apart Db.acceptances where
  event db events e now actor := by
    simp only [Db.acceptances, Db.setEventSeqs]
    rw [Table.map_updateIn_same]
    intro r
    rfl
  attempts _ _ := rfl
  occupySession _ _ _ := rfl
  occupyWorkspace _ _ _ _ := rfl
  startRun db a version actor := by
    simp only [Db.acceptances, Db.startRun]
    rw [Table.map_updateIn_same]
    intro r
    split <;> rfl
  release db r now actor := (db.release_acceptances r now actor).1
  tools _ _ := rfl

theorem Db.Aside.acceptances : Db.Aside Db.acceptances := Db.Apart.acceptances.toAside

/-! ## Minding runs that wait -/

/-- A snapshot carries the binding of its request. -/
def Op.Freezes : Op → Prop
  | .acceptOnce request _ _ snapshot _ => snapshot.userBinding = request.context.userBinding
  | _ => True

/-- The workspace that the session of a call is to point elsewhere. -/
def Op.moves (s : Store) : Op → Option WorkspaceRow
  | .createSession scopeId key _ _ context =>
      if (s.db.sessionRequests.get? (scopeId, key)).isSome then none
      else
        context.userBinding.bind fun b =>
          (s.db.projectWorkspace scopeId b.projectRef).filter fun w =>
            w.tenantRef = b.tenantRef && w.userRef = b.userRef && !w.hasPaths b
  | _ => none

/-- No run of a workspace that is pointed elsewhere may still be claimed. -/
def Op.Stays (s : Store) (op : Op) : Prop :=
  ∀ w, op.moves s = some w → ∀ r ∈ s.db.runs, r.scopeId = w.scopeId → r.workspaceId = w.id →
    r.status.settled = true

/-- Calls, under some condition, with the values they supply, and faults. -/
inductive Freezing (d : Deployment) (careful : Store → Op → Prop) :
    Store × Supplied → Store × Supplied → Prop
  | call {s : Store} {v : Supplied} (op : Op) (obeys : op.Obeys (.resolved d)) (freezes : op.Freezes)
      (stays : careful s op) : Freezing d careful (s, v) (op.exec d s, op.supply d s v)
  | fault {s t : Store} {v : Supplied} (grown : s.Extends t) (rollback : t.db = s.db) :
      Freezing d careful (s, v) (t, v)

theorem Freezing.step {careful : Store → Op → Prop} {a b : Store × Supplied}
    (h : Freezing d careful a b) : Step d (.resolved d) a.1 b.1 := by
  cases h with
  | call op obeys freezes stays => exact .call op obeys
  | fault grown rollback => exact .fault grown rollback

/-! ## The invariant -/

/-- The workspace of a run stands for the binding of its snapshot. -/
def Acceptance.Frozen (d : Deployment) (db : Db) (v : Supplied) (a : Acceptance) : Prop :=
  ∃ snapshot columns, v.snapshot a.key = some snapshot ∧
    db.sessions.view SessionRow.workspaceId a.sessionKey = some a.workspaceId ∧
    db.bindings (a.scopeId, a.workspaceId) = some columns ∧
    columns.restore d.host = .ok snapshot.userBinding

/-- The run may still be claimed. -/
def Acceptance.Open (db : Db) (a : Acceptance) : Prop :=
  ∃ status, db.statuses a.key = some status ∧ status.1.settled = false

/-- So it is for every run that may still be claimed. -/
def Store.Frozen (d : Deployment) (s : Store) (v : Supplied) : Prop :=
  ∀ a ∈ s.db.acceptances, a.Open s.db → a.Frozen d s.db v

/-- A run that may be claimed later may be claimed now. -/
theorem Acceptance.Open.before {a : Acceptance} (later : a.Open t.db) (st : Step d π s t)
    (known : a ∈ s.db.acceptances) : a.Open s.db := by
  obtain ⟨status, after, open_⟩ := later
  obtain ⟨r, hr, rfl⟩ := Db.mem_acceptances.1 known
  have before : s.db.statuses r.acceptance.key = some (r.status, r.stateVersion) :=
    Table.view_of_mem hr _
  obtain ⟨b, now_, path⟩ := Steps.statuses (.single st) before
  rw [after] at now_
  cases now_
  refine ⟨_, before, ?_⟩
  by_contra settled
  rw [settled_of_path path (Bool.eq_true_of_not_eq_false settled)] at open_
  cases open_

/-- A run stays frozen while its workspace stays. -/
theorem Acceptance.Frozen.stays {a : Acceptance} (h : a.Frozen d s.db v) (st : Step d π s t)
    (bindings : ∀ columns, s.db.bindings (a.scopeId, a.workspaceId) = some columns →
      t.db.bindings (a.scopeId, a.workspaceId) = some columns) : a.Frozen d t.db v := by
  obtain ⟨snapshot, columns, hsnapshot, home, known, stands⟩ := h
  refine ⟨snapshot, columns, hsnapshot, ?_, bindings _ known, stands⟩
  refine st.spec.2.preserves (I := fun _ _ db =>
    db.sessions.view SessionRow.workspaceId a.sessionKey = some a.workspaceId) ?_ home
  intro f n db db' c hdb
  exact c.session_workspace hdb

/-- It is enough that no run is accepted, and that workspaces stay where runs wait. -/
theorem Store.Frozen.frame (h : s.Frozen d v) (st : Step d π s t)
    (accepted : t.db.acceptances = s.db.acceptances)
    (bindings : ∀ a ∈ s.db.acceptances, a.Open s.db → ∀ columns,
      s.db.bindings (a.scopeId, a.workspaceId) = some columns →
        t.db.bindings (a.scopeId, a.workspaceId) = some columns) : t.Frozen d v := by
  intro a ha later
  rw [accepted] at ha
  have before := later.before st ha
  exact (h a ha before).stays st (bindings a ha before)

/-! ## Who points workspaces elsewhere -/

/-- Only new sessions do. -/
theorem Op.exec_bindings {op : Op} (other : op.Obeys { binding := fun _ _ => False }) {k : Key}
    {columns : UserBinding} (known : s.db.bindings k = some columns) :
    (op.exec d s).db.bindings k = some columns := by
  refine (op.exec_changes d _ other s).preserves
    (I := fun _ _ db => db.bindings k = some columns) ?_ known
  intro f n db db' c h
  rcases c.workspace_binding h with kept | ⟨b, none_, -⟩
  · exact kept
  · exact none_.elim
/-- A new session points the workspace of its project elsewhere, and no other. -/
theorem createSession_pointed {scopeId key title : String} {externalRef : Option String}
    {context : ExecutionContext} {k : Key} {columns : UserBinding}
    (known : s.db.bindings k = some columns) :
    (finalState (createSession d scopeId key title externalRef context) s).db.bindings k =
        some columns ∨
      ∃ w, (Op.createSession scopeId key title externalRef context).moves s = some w ∧
        k = (w.scopeId, w.id) := by
  cases ended : createSession d scopeId key title externalRef context s with
  | error e t =>
      rw [finalState_of_error ended, createSession_error_db ended]
      exact .inl known
  | ok view t =>
      rw [finalState_of_ok ended]
      rcases createSession_eq_ok ended with ⟨-, same⟩ | ⟨request, now, id, s₁, s₂, session, sessions,
        requests, placed, same, -, hdb⟩
      · rw [same]
        exact .inl known
      · rw [← same] at known
        rw [hdb]
        rcases workspaceFor_bindings placed known with
          kept | ⟨b, w, hb, found, tenant, user, paths, rfl, -⟩
        · exact .inl kept
        · have scope := (Db.workspace_eq_some.1 (Db.projectWorkspace_eq_some found).1).2.1
          rw [same] at found
          refine .inr ⟨w, ?_, by rw [scope]⟩
          simp [Op.moves, request, hb, found, tenant, user, paths]

/-! ## Acceptance -/

/-- The check of a binding finds it stored. -/
theorem storedBinding_of_required {host : Host} {w : WorkspaceRow} {binding : Option UserBinding}
    {u : Unit} (h : requireSessionBinding host w binding = .ok u) :
    w.storedBinding host = .ok binding := by
  obtain ⟨stored, hstored, h⟩ := except_bind_eq_ok.1 h
  rw [hstored]
  cases binding with
  | none =>
      by_cases none_ : stored = none
      · rw [none_]
      · simp only [ne_eq, none_, not_false_eq_true, if_true] at h
        cases h
  | some b =>
      by_cases same : stored = some b
      · rw [same]
      · simp only [ne_eq, same, not_false_eq_true, if_true] at h
        cases h

/-- A run is accepted under the binding its workspace stands for. -/
theorem acceptOnce_bound {request : RunRequest} {idempotencyKey fingerprint : String}
    {snapshot : RunSnapshot} {rejectIfActive : Bool} {run : AcceptedRun}
    (h : acceptOnce d request idempotencyKey fingerprint snapshot rejectIfActive s = .ok run t) :
    run.reused = true ∧ t.db = s.db ∨
      run.reused = false ∧ ∃ a : Acceptance, t.db.acceptances = s.db.acceptances ++ [a] ∧
        a.key = (request.context.scopeId, run.id) ∧ s.db.statuses a.key = none ∧
        ∃ columns, s.db.sessions.view SessionRow.workspaceId a.sessionKey = some a.workspaceId ∧
          s.db.bindings (a.scopeId, a.workspaceId) = some columns ∧
          columns.restore d.host = .ok request.context.userBinding := by
  simp only [acceptOnce, now_bind_eq_ok, transaction_eq_ok, getDb_bind_eq_ok] at h
  cases hreq : s.db.requestedRun request.context.scopeId request.sessionId idempotencyKey with
  | some existing =>
      simp only [hreq, ensure_bind_eq_ok, pure_eq_ok] at h
      obtain ⟨-, rfl, rfl⟩ := h
      exact .inl ⟨rfl, rfl⟩
  | none =>
      simp only [hreq, orThrow_bind_eq_ok, fromExcept_bind_eq_ok, ensure_bind_eq_ok,
        uuid4_bind_eq_ok, writeMessage, writeSnapshot, writeObject_bind_eq_ok] at h
      obtain ⟨view, hview, u, required, -, h⟩ := h
      obtain ⟨_, s₁, hrun, h⟩ := bind_eq_ok.1 h
      obtain ⟨e, s₂, hev, h⟩ := bind_eq_ok.1 h
      simp only [modifyDb_bind_eq_ok, pure_eq_ok] at h
      obtain ⟨rfl, rfl⟩ := h
      obtain ⟨runs, insert, rfl⟩ := insertRun_eq_ok.1 hrun
      obtain ⟨session, workspace⟩ := Db.getSession_eq_some.1 hview
      have scope := (Db.session_eq_some.1 session).2.1
      rw [scope] at workspace
      have kept := (insertEvent_keeps (d := d) Db.Aside.acceptances _ _ _ _ _ _).of_ok hev
      have added : ∀ row, s.db.runs.insert? row = some runs →
          s₂.db.acceptances = s.db.acceptances ++ [row.acceptance] := by
        intro row hrow
        refine kept.trans ?_
        rw [Db.acceptances, (Table.insert?_eq_some.1 hrow).2, List.map_append]
        rfl
      have fresh := Table.view_of_insert? insert (fun r => (r.status, r.stateVersion))
        request.context.scopeId
      exact .inr ⟨rfl, _, added _ insert, rfl, fresh, view.workspace.bindingColumns,
        Table.view_of_getIn session _, Table.view_of_getIn workspace _,
        storedBinding_of_required required⟩

/-! ## Every call -/

/-- The call may accept a run. -/
def Op.accepts : Op → Bool
  | .acceptOnce _ _ _ _ _ => true
  | _ => false

/-- No other call supplies a snapshot. -/
theorem Op.supply_snapshot {op : Op} (other : op.accepts = false) :
    (op.supply d s v).snapshot = v.snapshot := by
  cases op with
  | acceptOnce => cases other
  | transitionRun scopeId runId version target args actorRef =>
      simp only [supply]
      split
      · cases args.output with
        | none => rfl
        | some text => rfl
      · rfl
  | respondToRun =>
      simp only [supply]
      split
      · split <;> rfl
      · rfl
  | createSession | claimNextRun | cancelRun | recordWorkspaceRevision | appendEvent
  | prepareTool | startTool | appendToolOutput | finishTool | openPending => rfl

/-- Other supplied values do not matter. -/
theorem Acceptance.Frozen.congr {a : Acceptance} {db : Db} {v' : Supplied} (h : a.Frozen d db v)
    (same : v'.snapshot a.key = v.snapshot a.key) : a.Frozen d db v' := by
  unfold Acceptance.Frozen
  rw [same]
  exact h

theorem Store.Frozen.acceptOnce (h : s.Frozen d v) {request : RunRequest}
    {key fingerprint : String} {snapshot : RunSnapshot} {rejectIfActive : Bool}
    (freezes : snapshot.userBinding = request.context.userBinding) :
    ((Op.acceptOnce request key fingerprint snapshot rejectIfActive).exec d s).Frozen d
      ((Op.acceptOnce request key fingerprint snapshot rejectIfActive).supply d s v) := by
  have other : (Op.acceptOnce request key fingerprint snapshot rejectIfActive).Obeys
      { binding := fun _ _ => False } := fun _ => trivial
  have bindings : ∀ {k columns}, s.db.bindings k = some columns →
      ((Op.acceptOnce request key fingerprint snapshot rejectIfActive).exec d s).db.bindings k =
        some columns := fun known => Op.exec_bindings other known
  have st : Step d {} s ((Op.acceptOnce request key fingerprint snapshot rejectIfActive).exec d s) :=
    .call _ (Op.obeys_default _)
  simp only [Op.supply]
  dsimp only [Op.exec] at bindings st ⊢
  cases ended : CodeForge.acceptOnce d request key fingerprint snapshot rejectIfActive s with
  | error e t =>
      rw [finalState_of_error ended] at bindings st ⊢
      have same := acceptOnce_error ended
      exact h.frame st (by rw [same]) fun _ _ _ columns known => bindings known
  | ok run t =>
      rw [finalState_of_ok ended] at bindings st ⊢
      rcases acceptOnce_bound ended with ⟨reused, same⟩ | ⟨new, a, added, hkey, fresh, columns, home,
        known, stands⟩
      · simp only [reused, if_true]
        exact h.frame st (by rw [same]) fun _ _ _ columns known => bindings known
      · simp only [new, Bool.false_eq_true, if_false]
        intro b hb later
        rw [added, List.mem_append, List.mem_singleton] at hb
        rcases hb with old | rfl
        · have before := later.before st old
          refine ((h b old before).stays st fun columns known => bindings known).congr ?_
          obtain ⟨status, known, -⟩ := before
          refine Function.update_of_ne ?_ _ _
          intro same
          rw [same, ← hkey, fresh] at known
          cases known
        · have frozen : b.Frozen d s.db
              (v.accept (request.context.scopeId, run.id) request.input snapshot) := by
            refine ⟨snapshot, columns, ?_, home, known, by rw [stands, freezes]⟩
            rw [hkey]
            exact Function.update_self ..
          exact frozen.stays st fun columns known => bindings known

theorem Store.Frozen.createSession (h : s.Frozen d v) {scopeId key title : String}
    {externalRef : Option String} {context : ExecutionContext}
    (stays : (Op.createSession scopeId key title externalRef context).Stays s) :
    ((Op.createSession scopeId key title externalRef context).exec d s).Frozen d v := by
  have st : Step d {} s ((Op.createSession scopeId key title externalRef context).exec d s) :=
    .call _ (Op.obeys_default _)
  refine h.frame st (createSession_keeps_of (fun _ _ => rfl) (fun _ _ _ => rfl) _ _ _ _ _ s) ?_
  intro a ha waits columns known
  rcases createSession_pointed known with kept | ⟨w, moved, hkey⟩
  · exact kept
  · obtain ⟨r, hr, rfl⟩ := Db.mem_acceptances.1 ha
    obtain ⟨scope, id⟩ := Prod.mk.inj hkey
    obtain ⟨status, hstatus, open_⟩ := waits
    have now_ : s.db.statuses r.acceptance.key = some (r.status, r.stateVersion) :=
      Table.view_of_mem hr _
    cases now_.symm.trans hstatus
    rw [show r.status.settled = true from stays w moved r hr scope id] at open_
    cases open_

/-- Every step keeps to it. -/
theorem Freezing.frozen {a b : Store × Supplied} (st : Freezing d (fun s op => op.Stays s) a b)
    (h : a.1.Frozen d a.2) : b.1.Frozen d b.2 := by
  cases st with
  | @fault s t v grown rollback =>
      have kept : t.db = s.db := rollback
      change t.Frozen d v
      unfold Store.Frozen
      rw [kept]
      exact h
  | @call s v op obeys freezes stays =>
      change s.Frozen d v at h
      change (op.exec d s).Frozen d (op.supply d s v)
      have quiet : (op.exec d s).db.acceptances = s.db.acceptances →
          op.Obeys { binding := fun _ _ => False } →
          op.accepts = false → (op.exec d s).Frozen d (op.supply d s v) := by
        intro kept other notAccept a ha waits
        have frozen := h.frame (.call (π := {}) op op.obeys_default) kept
          fun _ _ _ columns known => Op.exec_bindings other known
        exact (frozen a ha waits).congr (congrFun (Op.supply_snapshot notAccept) _)
      have moved : ∀ (db : Db) scopeId runId version after now actor,
          (db.moveRun scopeId runId version after none none none now actor).acceptances =
            db.acceptances := fun db _ _ _ _ _ _ => db.moveRun_acceptances _ _ _ _ _ _ _ _ _
      cases op with
      | createSession => exact h.createSession stays
      | acceptOnce => exact h.acceptOnce freezes
      | claimNextRun => exact quiet (claimNextRun_keeps .acceptances _ _ _ _ s) trivial rfl
      | transitionRun =>
          refine quiet (transitionRun_keeps .acceptances ?_ s) ⟨trivial, trivial⟩ rfl
          exact fun db _ _ _ _ _ => db.moveRun_acceptances _ _ _ _ _ _ _ _ _
      | cancelRun =>
          exact quiet (cancelRun_keeps .acceptances moved _ _ _ s) ⟨trivial, trivial⟩ rfl
      | respondToRun =>
          refine quiet (respondToRun_keeps .acceptances moved (fun _ _ => rfl) _ _ _ _ _ _ _ s)
            trivial rfl
      | recordWorkspaceRevision =>
          exact quiet (recordWorkspaceRevision_keeps (fun _ _ _ _ _ _ _ => rfl) _ _ _ _ _ _ s) trivial rfl
      | appendEvent => exact quiet (appendEvent_keeps .acceptances _ _ _ _ _ s) trivial rfl
      | prepareTool => exact quiet (prepareTool_keeps .acceptances _ _ s) trivial rfl
      | startTool => exact quiet (startTool_keeps .acceptances _ _ _ s) trivial rfl
      | appendToolOutput =>
          exact quiet (appendToolOutput_keeps .acceptances _ _ _ _ _ _ s) trivial rfl
      | finishTool => exact quiet (finishTool_keeps .acceptances _ _ _ _ _ _ _ s) trivial rfl
      | openPending p =>
          have kept : Keeps Db.acceptances (openPending p) :=
            .transaction (.bind .getDb fun _ => .bind (.orThrow _ _) fun _ =>
              .bind (.orThrow _ _) fun _ => .modifyDb fun _ => rfl)
          exact quiet (kept s) trivial rfl

/-! ## Claims -/

/-- What a claim says about itself. -/
theorem claimNextRun_claimed {scopeId : Option String} {workerId : String}
    {nowIso leaseUntil : Timestamp} {claimed : ClaimedRun}
    (h : claimNextRun d scopeId workerId nowIso leaseUntil s = .ok (some claimed) t) :
    ∃ c, ∃ a ∈ t.db.attempts, s.db.nextClaimable nowIso scopeId = some c ∧
      c.binding d.host = .ok claimed.userBinding ∧ claimed.run.scopeId = c.run.scopeId ∧
      claimed.run.id = c.run.id ∧ a.id = claimed.attemptId ∧ a.runId = c.run.id ∧ a.scopeId = c.run.scopeId ∧
      a.workingDirectoryRef = c.workspace.projectPath ∧
      claimed.workingDirectory =
        if c.workspace.projectPath ≠ "" then some c.workspace.projectPath else none := by
  unfold claimNextRun at h
  obtain ⟨o, s₁, body, hend⟩ := bind_eq_ok.1 h
  rw [transaction_eq_ok] at body
  rcases claimCandidate_eq_ok body with
    ⟨-, rfl, -⟩ | ⟨c, a, binding, u, next, rfl, hbinding, ha, start⟩
  · simp [pure_eq_ok] at hend
  · simp only [getDb_bind_eq_ok, orThrow_bind_eq_ok, pure_eq_ok] at hend
    obtain ⟨r, run, hend, rfl⟩ := hend
    cases hend
    obtain ⟨attempts, e, r', ss, insert, record, -⟩ := startAttempt_changes start
    obtain ⟨-, scope, id⟩ := Db.run_eq_some.1 run
    subst ha
    refine ⟨c, _, ?_, next, hbinding, scope, id, rfl, rfl, rfl, rfl, rfl⟩
    rw [record.tables.1]
    exact Table.new_mem_insert? insert

/-- In a run of calls that mind the runs that wait, an attempt works under the binding of the
snapshot its run was accepted with. -/
theorem Freezing.claimed
    (run : Relation.ReflTransGen (Freezing d fun s op => op.Stays s) ({}, {}) (s, v))
    {scopeId : Option String} {workerId : String} {nowIso leaseUntil : Timestamp}
    {claimed : ClaimedRun}
    (h : claimNextRun d scopeId workerId nowIso leaseUntil s = .ok (some claimed) t) :
    ∃ snapshot, ∃ a ∈ t.db.attempts,
      v.snapshot (claimed.run.scopeId, claimed.run.id) = some snapshot ∧
      claimed.userBinding = snapshot.userBinding ∧
      claimed.workingDirectory = snapshot.userBinding.map UserBinding.projectPath ∧
      a.id = claimed.attemptId ∧ a.scopeId = claimed.run.scopeId ∧ a.runId = claimed.run.id ∧
      a.workingDirectoryRef = (snapshot.userBinding.map UserBinding.projectPath).getD "" := by
  have kept : Reachable d (.resolved d) s ∧ s.Frozen d v := by
    have lifted : ∀ b, Relation.ReflTransGen (Freezing d fun s op => op.Stays s) ({}, {}) b →
        Reachable d (.resolved d) b.1 ∧ b.1.Frozen d b.2 := by
      intro b run
      induction run with
      | refl => exact ⟨.refl, fun a ha => by cases ha⟩
      | tail _ last ih => exact ⟨ih.1.tail last.step, last.frozen ih.2⟩
    exact lifted (s, v) run
  obtain ⟨reach, frozen⟩ := kept
  obtain ⟨c, a, ha, next, binding, scope, id, hid, hrun, hscope, directory, working⟩ :=
    claimNextRun_claimed h
  obtain ⟨hmem, candidate, claimable⟩ := Db.nextClaimable_spec next
  obtain ⟨-, session, workspace⟩ := Db.candidate_eq_some.1 candidate
  rw [(Db.session_eq_some.1 session).2.1] at workspace
  have waits : c.run.acceptance.Open s.db :=
    ⟨_, Table.view_of_mem hmem _, by rw [claimable.1]; rfl⟩
  obtain ⟨snapshot, columns, hsnapshot, home, known, stands⟩ :=
    frozen _ (Db.mem_acceptances.2 ⟨c.run, hmem, rfl⟩) waits
  -- the workspace the candidate joins is the one of the run
  have same : c.session.workspaceId = c.run.workspaceId :=
    Option.some.inj ((Table.view_of_getIn session SessionRow.workspaceId).symm.trans home)
  rw [same] at workspace
  have here : s.db.bindings (c.run.scopeId, c.run.workspaceId) = some c.workspace.bindingColumns :=
    Table.view_of_getIn workspace _
  cases here.symm.trans known
  have stored := Candidate.binding_eq_restore binding
  rw [WorkspaceRow.storedBinding_eq, stands] at stored
  have agree : claimed.userBinding = snapshot.userBinding := (Except.ok.inj stored).symm
  have path := WorkspaceRow.storedBinding_path stands
    (reach.boundBy.workspace (Db.workspace_eq_some.1 workspace).1)
  refine ⟨snapshot, a, ha, by rw [scope, id]; exact hsnapshot, agree, ?_, hid,
    hscope.trans scope.symm, hrun.trans id.symm, directory.trans path⟩
  rw [working, WorkspaceRow.directory_of_stored stands path]

theorem Op.supplyAll_concat {ops : List Op} {op : Op} :
    Op.supplyAll d (ops ++ [op]) s v = op.supply d (Op.execAll d ops s) (Op.supplyAll d ops s v) := by
  induction ops generalizing s v with
  | nil => rfl
  | cons first ops ih => exact ih

/-- One more call. -/
theorem Freezing.snoc {careful : Store → Op → Prop} {ops : List Op} {op : Op}
    (run : Relation.ReflTransGen (Freezing d careful) ({}, {})
      (Op.execAll d ops {}, Op.supplyAll d ops {} {}))
    (obeys : op.Obeys (.resolved d)) (freezes : op.Freezes)
    (stays : careful (Op.execAll d ops {}) op) :
    Relation.ReflTransGen (Freezing d careful) ({}, {})
      (Op.execAll d (ops ++ [op]) {}, Op.supplyAll d (ops ++ [op]) {} {}) := by
  rw [Op.execAll_concat, Op.supplyAll_concat]
  exact run.tail (.call op obeys freezes stays)

theorem UserBinding.plain_resolved :
    (UserBinding.plain "ada" "p" "p").Resolved Deployment.plain.host ∧
      (UserBinding.plain "ada" "p" "q").Resolved Deployment.plain.host := by
  unfold UserBinding.Resolved
  decide +kernel

/-- The run a worker gets, and where it is to work. -/
def claimedDirectory (d : Deployment) (s : Store) : Option (Uuid × Option String) :=
  match claimNextRun d none "w1" "2026-01-01T00:01:00Z" "2026-01-01T00:02:00Z" s with
  | .ok (some claimed) _ => some (claimed.run.id, claimed.workingDirectory)
  | _ => none

theorem claimedDirectory_eq_some {id : Uuid} {directory : Option String}
    (h : claimedDirectory d s = some (id, directory)) :
    ∃ claimed t, claimNextRun d none "w1" "2026-01-01T00:01:00Z" "2026-01-01T00:02:00Z" s =
      .ok (some claimed) t ∧ claimed.run.id = id ∧ claimed.workingDirectory = directory := by
  unfold claimedDirectory at h
  split at h
  next claimed t ended =>
    cases h
    exact ⟨claimed, t, ended, rfl, rfl⟩
  next => cases h

theorem Freezing.firstSend {careful : Store → Op → Prop}
    (stays : ∀ s op, op.moves s = none → careful s op) :
    Relation.ReflTransGen (Freezing .plain careful) ({}, {})
      (Op.execAll .plain Op.firstSend {}, Op.supplyAll .plain Op.firstSend {} {}) := by
  have opened : Relation.ReflTransGen (Freezing .plain careful) ({}, {})
      (Op.execAll .plain [.openSession (.plain "ada" "p" "p") "s"] {},
        Op.supplyAll .plain [.openSession (.plain "ada" "p" "p") "s"] {} {}) := by
    refine Relation.ReflTransGen.single
      (.call (.openSession (.plain "ada" "p" "p") "s") ?_ trivial (stays _ _ rfl))
    rintro b ⟨⟩
    exact UserBinding.plain_resolved.1
  have shape : Op.firstSend = [.openSession (.plain "ada" "p" "p") "s"] ++
    [.send (.plain "ada" "p" "p") 0 "m" "hello"] := rfl
  rw [shape]
  exact Freezing.snoc opened (fun _ => trivial) rfl (stays _ _ rfl)

theorem Freezing.claimed_firstSend :
    ∃ claimed t snapshot,
      claimNextRun .plain none "w1" "2026-01-01T00:01:00Z" "2026-01-01T00:02:00Z"
        (Op.execAll .plain Op.firstSend {}) = .ok (some claimed) t ∧
      (Op.supplyAll .plain Op.firstSend {} {}).snapshot
        (claimed.run.scopeId, claimed.run.id) = some snapshot ∧
      claimed.userBinding = snapshot.userBinding ∧
      claimed.workingDirectory = some "/srv/ada/p" := by
  have directory : claimedDirectory .plain (Op.execAll .plain Op.firstSend {}) =
      some (⟨2⟩, some "/srv/ada/p") := by decide +kernel
  obtain ⟨claimed, t, ended, -, working⟩ := claimedDirectory_eq_some directory
  have run := @Freezing.firstSend (fun s op => op.Stays s) fun s op none_ w moved => by
    rw [none_] at moved
    cases moved
  obtain ⟨snapshot, a, -, hsnapshot, binding, -⟩ := Freezing.claimed run ended
  exact ⟨claimed, t, snapshot, ended, hsnapshot, binding, working⟩

/-- A message is sent, and then a session opened that has the project elsewhere. -/
def Op.movedAway : List Op :=
  Op.firstSend ++ [.openSession (.plain "ada" "p" "q") "s2"]

/-- The attempt works there, and not under the binding of the snapshot. -/
theorem Freezing.movedAway_claimed :
    Relation.ReflTransGen (Freezing .plain fun _ _ => True) ({}, {})
      (Op.execAll .plain Op.movedAway {}, Op.supplyAll .plain Op.movedAway {} {}) ∧
    (((Op.supplyAll .plain Op.movedAway {} {}).snapshot ("ada", ⟨2⟩)).bind
      RunSnapshot.userBinding).map UserBinding.projectPath = some "/srv/ada/p" ∧
    claimedDirectory .plain (Op.execAll .plain Op.movedAway {}) =
      some (⟨2⟩, some "/srv/ada/q") ∧
    (Op.claimAny.exec .plain (Op.execAll .plain Op.movedAway {})).db.attempts.rows.map
      (fun a => (a.runId, a.workingDirectoryRef)) = [(⟨2⟩, "/srv/ada/q")] := by
  refine ⟨?_, by decide +kernel, by decide +kernel, by decide +kernel⟩
  refine Freezing.snoc (Freezing.firstSend fun _ _ _ => trivial) ?_ trivial trivial
  rintro b ⟨⟩
  exact UserBinding.plain_resolved.2

end CodeForge
