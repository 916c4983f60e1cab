import CodeForge.Persistence.Changes
import CodeForge.Persistence.Growth

/-!
# Operations come down to changes

`StoreM.Commits` says that a program, however it ends, has rewritten the tables
by a sequence of changes; no change at all where its transaction failed.  Each
operation commits (`createSession_commits` and its siblings).  Their proofs read
the statements of an operation off its normal end and name the change each group
of statements amounts to.
-/

namespace CodeForge

open Lib StoreM

namespace StoreM

variable {α β : Type} {d : Deployment} {π : Discipline}

/-- However the program ends, the tables were rewritten by changes. -/
def Commits (d : Deployment) (π : Discipline) (x : StoreM α) : Prop :=
  ∀ s : Store, Changes d π (finalState x s).files (finalState x s).drawn s.db (finalState x s).db

/-- A program that leaves the tables alone. -/
theorem Commits.of_db {x : StoreM α} (h : ∀ s : Store, (finalState x s).db = s.db) :
    Commits d π x := by
  intro s
  rw [h s]

theorem Commits.pure (a : α) : Commits d π (pure a) := .of_db fun _ => rfl

theorem Commits.getDb_bind {f : Db → StoreM α} (hf : ∀ db, Commits d π (f db)) :
    Commits d π (getDb >>= f) := fun s => hf s.db s

theorem Commits.now_bind {f : Timestamp → StoreM α} (hf : ∀ t, Commits d π (f t)) :
    Commits d π (now d >>= f) := fun s => hf _ { s with ticks := s.ticks + 1 }

theorem Commits.orThrow_bind {o : Option β} {e : StoreError} {f : β → StoreM α}
    (hf : ∀ b, o = some b → Commits d π (f b)) : Commits d π (orThrow o e >>= f) := by
  cases o with
  | none => exact .of_db fun _ => rfl
  | some b => exact hf b rfl

theorem Commits.bind {x : StoreM α} {f : α → StoreM β} (hx : Commits d π x)
    (hf : ∀ a, Commits d π (f a)) (hg : ∀ a, Grows 0 (f a)) : Commits d π (x >>= f) := by
  intro s
  have h := hx s
  change Changes d π (finalState (EStateM.bind x f) s).files
    (finalState (EStateM.bind x f) s).drawn s.db (finalState (EStateM.bind x f) s).db
  unfold finalState EStateM.bind
  unfold finalState at h
  cases hxs : x s with
  | ok a s' =>
      rw [hxs] at h
      have g := hg a s' (Nat.zero_le _)
      exact (h.mono g.files g.drawn).trans (hf a s')
  | error e s' =>
      rw [hxs] at h
      exact h

/-- A transaction commits if its body does where it ends normally. -/
theorem Commits.transaction {x : StoreM α}
    (h : ∀ s a s', x s = .ok a s' → Changes d π s'.files s'.drawn s.db s'.db) :
    Commits d π (transaction x) := by
  intro s
  unfold finalState
  unfold StoreM.transaction
  cases hxs : x s with
  | ok a s' => exact h s a s' hxs
  | error e s' => exact .refl

theorem Commits.ite {c : Prop} [Decidable c] {x y : StoreM α} (hx : c → Commits d π x)
    (hy : ¬ c → Commits d π y) : Commits d π (if c then x else y) := by
  split
  next h => exact hx h
  next h => exact hy h

end StoreM

variable {d : Deployment} {π : Discipline}

/-! ## Recording an event -/

theorem insertEventLocked_records {scopeId : String} {runId : Uuid} {type : EventType}
    {data : Json} {actor : String} {occurredAt : Timestamp} {e : EventRow} {s s' : Store}
    (h : insertEventLocked d scopeId runId type data actor occurredAt s = .ok e s') :
    (∃ r ss, Records d s'.files s.db r ss e s'.db) ∧
      (e.scopeId = scopeId ∧ e.runId = runId ∧ e.type = type ∧ e.data = data) ∧
        e.eventId.draw < s'.drawn := by
  simp only [insertEventLocked, getDb_bind_eq_ok, orThrow_bind_eq_ok, uuid4_bind_eq_ok,
    now_bind_eq_ok, appendRecord_bind_eq_ok, modifyDb_bind_eq_ok, pure_eq_ok] at h
  obtain ⟨r, hr, ss, hss, events, hev, rfl, rfl⟩ := h
  have hscope : r.scopeId = scopeId := (Db.run_eq_some.1 hr).2.1
  refine ⟨⟨r, ss, hr, ?_, rfl, rfl, rfl, EventRow.written_of_append d _ _ _ _ _ _,
    events, _, actor, hev, rfl⟩, ⟨rfl, rfl, rfl, rfl⟩, Nat.lt_succ_self _⟩
  rw [← hscope] at *
  exact hss

/-! ## Sessions -/

theorem insertWorkspace_eq_ok {w : WorkspaceRow} {id : Uuid} {s s' : Store} :
    insertWorkspace w s = .ok id s' ↔
      ∃ workspaces, s.db.workspaces.insert? w = some workspaces ∧ id = w.id ∧
        s' = { s with db := { s.db with workspaces } } := by
  simp only [insertWorkspace, getDb_bind_eq_ok, orThrow_bind_eq_ok, modifyDb_bind_eq_ok,
    pure_eq_ok]

/-- A session finds its workspace, made or rebound for it. -/
theorem workspaceFor_changes {scopeId : String} {binding : Option UserBinding}
    {now : Timestamp} {actor : String} {id : Uuid} {s s' : Store} {files : Files} {drawn : Nat}
    (hπ : ∀ b, binding = some b → π.binding scopeId b)
    (h : workspaceFor d scopeId binding now actor s = .ok id s') :
    Changes d π files drawn s.db s'.db ∧ ∃ w, s'.db.workspace scopeId id = some w ∧
      ∀ b, binding = some b → w.Bound b := by
  -- a workspace that is not there yet
  have added : ∀ (w : WorkspaceRow) {t t' : Store}, insertWorkspace w t = .ok id t' →
      t.db = s.db → w.scopeId = scopeId → w.activeAttemptId = none ∧ w.workspaceEpoch = 0 →
      (w.projectPath = "" ∨ ∃ b, π.binding w.scopeId b ∧ w.Bound b) →
      (∀ b, binding = some b → w.Bound b) →
      Changes d π files drawn s.db t'.db ∧ ∃ w, t'.db.workspace scopeId id = some w ∧
        ∀ b, binding = some b → w.Bound b := by
    intro w t t' hi ht hs free bound hb
    obtain ⟨workspaces, hins, rfl, rfl⟩ := insertWorkspace_eq_ok.1 hi
    rw [ht] at hins ⊢
    exact ⟨.single (.addWorkspace free bound hins),
      w, Db.workspace_eq_some.2 ⟨Table.new_mem_insert? hins, hs, rfl⟩, hb⟩
  unfold workspaceFor at h
  cases binding with
  | none =>
      exact added _ (uuid4_bind_eq_ok.1 h) rfl rfl ⟨rfl, rfl⟩ (.inl rfl) (by rintro b ⟨⟩)
  | some b =>
      rw [getDb_bind_eq_ok] at h
      cases hw : s.db.projectWorkspace scopeId b.projectRef with
      | none =>
          rw [hw] at h
          have hbound := WorkspaceRow.Bound.of_new ⟨s.drawn⟩ scopeId b now actor
          refine added _ (uuid4_bind_eq_ok.1 h) rfl rfl ⟨rfl, rfl⟩ (.inr ⟨b, hπ b rfl, hbound⟩) ?_
          rintro _ ⟨⟩
          exact hbound
      | some w =>
          have hmem : w ∈ s.db.workspaces := List.mem_of_find?_eq_some hw
          have hcond := List.find?_some hw
          simp only [Bool.and_eq_true, decide_eq_true_eq] at hcond
          have known : s.db.workspace scopeId w.id = some w :=
            Db.workspace_eq_some.2 ⟨hmem, hcond.1, rfl⟩
          rw [hw] at h
          obtain ⟨howner, h⟩ := ensure_bind_eq_ok.1 h
          simp only [Bool.and_eq_true, decide_eq_true_eq] at howner
          obtain ⟨_, s₁, h, hs⟩ := bind_eq_ok.1 h
          obtain ⟨rfl, rfl⟩ := pure_eq_ok.1 hs
          unfold rebindWorkspace at h
          split at h
          next hpaths =>
            obtain ⟨-, rfl⟩ := pure_eq_ok.1 h
            refine ⟨.refl, w, known, ?_⟩
            rintro _ ⟨⟩
            exact .of_hasPaths howner.1 howner.2 hcond.2 hpaths
          next =>
            cases modifyDb_eq_ok.1 h
            refine ⟨.single (.rebind known hcond.2 howner (hπ b rfl)), w.rebind b now actor,
              Table.getIn_updateIn_of known (fun v => v.rebind b now actor) fun _ => rfl, ?_⟩
            rintro _ ⟨⟩
            exact .of_rebind howner.1 howner.2 hcond.2 now actor

/-- The workspace of a new session stands for its binding. -/
theorem workspaceFor_spec {scopeId : String} {binding : Option UserBinding}
    {now : Timestamp} {actor : String} {id : Uuid} {s s' : Store}
    (h : workspaceFor d scopeId binding now actor s = .ok id s') :
    ∃ w, s'.db.workspace scopeId id = some w ∧ ∀ b, binding = some b → w.Bound b := by
  have spec : Changes d {} s.files s.drawn s.db s'.db ∧ _ :=
    workspaceFor_changes (fun _ _ => trivial) h
  exact spec.2

theorem insertSession_eq_ok {session : SessionRow} {request : SessionRequestRow} {u : Unit}
    {s s' : Store} (h : insertSession session request s = .ok u s') :
    ∃ sessions sessionRequests, s.db.sessions.insert? session = some sessions ∧
      s.db.sessionRequests.insert? request = some sessionRequests ∧
      s' = { s with db := { s.db with sessions, sessionRequests } } := by
  simp only [insertSession, getDb_bind_eq_ok, orThrow_bind_eq_ok, modifyDb_eq_ok] at h
  obtain ⟨t, ht, q, hq, rfl⟩ := h
  exact ⟨t, q, ht, hq, rfl⟩

/-- A session is created, unless its key was used before. -/
theorem createSession_eq_ok {scopeId key title : String} {externalRef : Option String}
    {context : ExecutionContext} {s t : Store} {view : Option SessionView}
    (h : createSession d scopeId key title externalRef context s = .ok view t) :
    (s.db.sessionRequests.get? (scopeId, key)).isSome ∧ t.db = s.db ∨
      s.db.sessionRequests.get? (scopeId, key) = none ∧
        ∃ now id s₁ s₂ session sessions sessionRequests,
          workspaceFor d scopeId context.userBinding now context.actor s₁ = .ok id s₂ ∧
            s₁.db = s.db ∧ s₂.db.sessions.insert? session = some sessions ∧
            t.db = { s₂.db with sessions, sessionRequests } := by
  simp only [createSession, now_bind_eq_ok] at h
  obtain ⟨sessionId, s₁, body, hend⟩ := bind_eq_ok.1 h
  clear h
  simp only [getDb_bind_eq_ok, pure_eq_ok] at hend
  obtain ⟨-, rfl⟩ := hend
  simp only [transaction_eq_ok, getDb_bind_eq_ok] at body
  cases request : s.db.sessionRequests.get? (scopeId, key) with
  | some row =>
      simp only [request, ensure_bind_eq_ok, pure_eq_ok] at body
      obtain ⟨-, -, rfl⟩ := body
      exact .inl ⟨rfl, rfl⟩
  | none =>
      simp only [request, uuid4_bind_eq_ok] at body
      obtain ⟨workspaceId, s₂, placed, h⟩ := bind_eq_ok.1 body
      clear body
      obtain ⟨u, s₃, added, h⟩ := bind_eq_ok.1 h
      obtain ⟨-, rfl⟩ := pure_eq_ok.1 h
      obtain ⟨sessions, requests, insert, -, rfl⟩ := insertSession_eq_ok added
      exact .inr ⟨rfl, _, workspaceId, _, s₂, _, sessions, requests, placed, rfl, insert, rfl⟩

theorem createSession_commits (scopeId idempotencyKey title : String)
    (externalRef : Option String) (context : ExecutionContext)
    (hπ : ∀ b, context.userBinding = some b → π.binding scopeId b) :
    Commits d π (createSession d scopeId idempotencyKey title externalRef context) := by
  refine .now_bind fun now => .bind (.transaction fun s id s' h => ?_)
    (fun _ => .getDb_bind fun _ => .pure _) fun _ => .bind .getDb fun _ => .pure _
  rw [getDb_bind_eq_ok] at h
  cases hreq : s.db.sessionRequests.get? (scopeId, idempotencyKey) with
  | some row =>
      simp only [hreq, ensure_bind_eq_ok, pure_eq_ok] at h
      obtain ⟨-, -, rfl⟩ := h
      exact .refl
  | none =>
      simp only [hreq, uuid4_bind_eq_ok] at h
      obtain ⟨wid, s₁, hw, h⟩ := bind_eq_ok.1 h
      obtain ⟨_, s₂, hi, h⟩ := bind_eq_ok.1 h
      obtain ⟨-, rfl⟩ := pure_eq_ok.1 h
      obtain ⟨hc, w, known, -⟩ := workspaceFor_changes hπ hw
      obtain ⟨sessions, requests, hins, -, rfl⟩ := insertSession_eq_ok hi
      exact hc.tail (.addSession known hins)

/-! ## Runs -/

theorem insertRun_eq_ok {run : RunRow} {u : Unit} {s s' : Store} :
    insertRun run s = .ok u s' ↔
      ∃ runs, s.db.runs.insert? run = some runs ∧ s' = { s with db := { s.db with runs } } := by
  simp only [insertRun, getDb_bind_eq_ok, orThrow_bind_eq_ok, modifyDb_eq_ok]

theorem Db.getSession_eq_some {db : Db} {scopeId : String} {sessionId : Uuid}
    {view : SessionView} :
    db.getSession scopeId sessionId = some view ↔
      db.session scopeId sessionId = some view.session ∧
        db.workspace view.session.scopeId view.session.workspaceId = some view.workspace := by
  simp only [getSession, Option.bind_eq_bind, Option.bind_eq_some_iff, Option.pure_def,
    Option.some.injEq]
  constructor
  · rintro ⟨s, hs, w, hw, rfl⟩; exact ⟨hs, hw⟩
  · rintro ⟨hs, hw⟩; exact ⟨_, hs, _, hw, rfl⟩

/-- The workspace of a session made with a new key stands for the binding. -/
theorem createSession_bound {scopeId idempotencyKey title : String} {externalRef : Option String}
    {context : ExecutionContext} {s t : Store} {view : SessionView}
    (h : createSession d scopeId idempotencyKey title externalRef context s = .ok (some view) t)
    (fresh : s.db.sessionRequests.get? (scopeId, idempotencyKey) = none) {b : UserBinding}
    (hb : context.userBinding = some b) :
    t.db.getSession scopeId view.session.id = some view ∧ view.workspace.Bound b := by
  unfold createSession at h
  simp only [now_bind_eq_ok] at h
  obtain ⟨id, s₁, hbody, h⟩ := bind_eq_ok.1 h
  rw [transaction_eq_ok] at hbody
  simp only [getDb_bind_eq_ok, pure_eq_ok] at h
  obtain ⟨hview, rfl⟩ := h
  simp only [getDb_bind_eq_ok, fresh, uuid4_bind_eq_ok] at hbody
  obtain ⟨wid, s₂, hw, hbody⟩ := bind_eq_ok.1 hbody
  obtain ⟨_, s₃, hi, hend⟩ := bind_eq_ok.1 hbody
  obtain ⟨rfl, rfl⟩ := pure_eq_ok.1 hend
  obtain ⟨w, known, bound⟩ := workspaceFor_spec hw
  obtain ⟨sessions, requests, hins, -, rfl⟩ := insertSession_eq_ok hi
  obtain ⟨hsession, hworkspace⟩ := Db.getSession_eq_some.1 hview.symm
  have hid : view.session.id = ⟨s.drawn⟩ := (Db.session_eq_some.1 hsession).2.2
  refine ⟨by rw [hid]; exact hview.symm, ?_⟩
  have hnew : view.session = .create ⟨s.drawn⟩ scopeId wid title externalRef _ _ :=
    Option.some.inj (hsession.symm.trans (Table.getIn_of_mem (Table.new_mem_insert? hins)))
  rw [hnew] at hworkspace
  have hw : view.workspace = w := Option.some.inj (hworkspace.symm.trans known)
  rw [hw]
  exact bound b hb

/-- A key that was used before gives the session it was used for. -/
theorem createSession_replay {scopeId idempotencyKey title : String}
    {externalRef : Option String} {context : ExecutionContext} {s t : Store} {view : SessionView}
    (h : createSession d scopeId idempotencyKey title externalRef context s = .ok (some view) t)
    {row : SessionRequestRow}
    (known : s.db.sessionRequests.get? (scopeId, idempotencyKey) = some row) :
    t.db = s.db ∧ s.db.getSession scopeId row.sessionId = some view := by
  unfold createSession at h
  simp only [now_bind_eq_ok] at h
  obtain ⟨id, s₁, hbody, h⟩ := bind_eq_ok.1 h
  rw [transaction_eq_ok] at hbody
  simp only [getDb_bind_eq_ok, known, ensure_bind_eq_ok, pure_eq_ok] at h hbody
  obtain ⟨-, rfl, rfl⟩ := hbody
  obtain ⟨hview, rfl⟩ := h
  exact ⟨rfl, hview.symm⟩

theorem acceptOnce_commits (request : RunRequest) (idempotencyKey fingerprint : String)
    (snapshot : RunSnapshot) (rejectIfActive : Bool)
    (allowed : rejectIfActive = false → π.busy request.context.scopeId request.sessionId) :
    Commits d π
      (acceptOnce d request idempotencyKey fingerprint snapshot rejectIfActive) := by
  refine .now_bind fun now => .transaction fun s run s' h => ?_
  rw [getDb_bind_eq_ok] at h
  cases hreq : s.db.requestedRun request.context.scopeId request.sessionId idempotencyKey with
  | some existing =>
      simp only [hreq, ensure_bind_eq_ok, pure_eq_ok] at h
      obtain ⟨-, -, rfl⟩ := h
      exact .refl
  | none =>
      simp only [hreq, orThrow_bind_eq_ok, fromExcept_bind_eq_ok, ensure_bind_eq_ok,
        uuid4_bind_eq_ok, writeMessage, writeSnapshot, writeObject_bind_eq_ok] at h
      obtain ⟨view, hview, -, -, idle, h⟩ := h
      obtain ⟨_, s₁, hrun, h⟩ := bind_eq_ok.1 h
      obtain ⟨e, s₂, hev, h⟩ := bind_eq_ok.1 h
      simp only [modifyDb_bind_eq_ok, pure_eq_ok] at h
      obtain ⟨-, rfl⟩ := h
      obtain ⟨runs, hins, rfl⟩ := insertRun_eq_ok.1 hrun
      obtain ⟨⟨r, ss, record⟩, event, fresh⟩ := insertEventLocked_records hev
      refine .single (.accept (Db.getSession_eq_some.1 hview).1 hins record event
        (fun active => ?_) fresh)
      cases hreject : rejectIfActive with
      | false => exact allowed hreject
      | true => simp [hreject, active] at idle

theorem startAttempt_changes {c : Candidate} {a : AttemptRow} {actor : String} {u : Unit}
    {s s' : Store} (h : startAttempt d c a actor s = .ok u s') :
    ∃ attempts e r ss, s.db.attempts.insert? a = some attempts ∧
      Records d s'.files (s.db.startAttempt attempts c a actor) r ss e s'.db ∧
      (e.scopeId = c.run.scopeId ∧ e.runId = c.run.id ∧ e.type = .runStarted ∧
        e.data = startedData d a.id) ∧ e.eventId.draw < s'.drawn := by
  simp only [startAttempt, getDb_bind_eq_ok, orThrow_bind_eq_ok, modifyDb_bind_eq_ok,
    ensure_bind_eq_ok] at h
  obtain ⟨attempts, hins, -, -, h⟩ := h
  obtain ⟨e, s₁, hev, h⟩ := bind_eq_ok.1 h
  obtain ⟨-, rfl⟩ := pure_eq_ok.1 h
  obtain ⟨⟨r, ss, record⟩, event⟩ := insertEventLocked_records hev
  exact ⟨attempts, e, r, ss, hins, record, event⟩

/-- The run a worker takes may be claimed. -/
theorem Db.candidate_eq_some {db : Db} {r : RunRow} {c : Candidate} :
    db.candidate r = some c ↔
      c.run = r ∧ db.session r.scopeId r.sessionId = some c.session ∧
        db.workspace c.session.scopeId c.session.workspaceId = some c.workspace := by
  simp only [candidate, Option.bind_eq_bind, Option.bind_eq_some_iff, Option.pure_def,
    Option.some.injEq]
  constructor
  · rintro ⟨s, hs, w, hw, rfl⟩; exact ⟨rfl, hs, hw⟩
  · rintro ⟨rfl, hs, hw⟩; exact ⟨_, hs, _, hw, rfl⟩

theorem Db.mem_claimable {db : Db} {nowIso : Timestamp} {scopeId : Option String}
    {c : Candidate} :
    c ∈ db.claimable nowIso scopeId ↔
      c.run ∈ db.runs ∧ db.candidate c.run = some c ∧ db.Claimable nowIso scopeId c := by
  simp only [claimable, List.mem_filter, List.mem_filterMap, decide_eq_true_eq]
  constructor
  · rintro ⟨⟨r, hr, hc⟩, hclaim⟩
    have hrun := (Db.candidate_eq_some.1 hc).1
    subst hrun
    exact ⟨hr, hc, hclaim⟩
  · rintro ⟨hr, hc, hclaim⟩
    exact ⟨⟨c.run, hr, hc⟩, hclaim⟩

theorem Db.nextClaimable_spec {db : Db} {nowIso : Timestamp} {scopeId : Option String}
    {c : Candidate} (h : db.nextClaimable nowIso scopeId = some c) :
    c.run ∈ db.runs ∧ db.candidate c.run = some c ∧ db.Claimable nowIso scopeId c :=
  Db.mem_claimable.1 (List.argmin_mem h)

/-- The transaction of a claim finds nothing and does nothing, or starts an attempt at the run
the selection found. -/
theorem claimCandidate_eq_ok {scopeId : Option String} {workerId : String}
    {nowIso leaseUntil : Timestamp} {s t : Store}
    {o : Option (Candidate × AttemptRow × Option UserBinding)}
    (h : claimCandidate d scopeId workerId nowIso leaseUntil s = .ok o t) :
    (s.db.nextClaimable nowIso scopeId = none ∧ o = none ∧ t = s) ∨
      ∃ c a binding u, s.db.nextClaimable nowIso scopeId = some c ∧
        o = some (c, a, binding) ∧ c.binding d.host = .ok binding ∧
        a = c.attempt ⟨s.drawn⟩ binding workerId nowIso leaseUntil s!"system:runtime/{workerId}" ∧
        startAttempt d c a s!"system:runtime/{workerId}" { s with drawn := s.drawn + 1 } =
          .ok u t := by
  unfold claimCandidate at h
  rw [getDb_bind_eq_ok] at h
  cases hnext : s.db.nextClaimable nowIso scopeId with
  | none =>
      rw [hnext] at h
      exact .inl ⟨rfl, pure_eq_ok.1 h⟩
  | some c =>
      simp only [hnext, uuid4_bind_eq_ok, fromExcept_bind_eq_ok] at h
      obtain ⟨binding, hbinding, h⟩ := h
      obtain ⟨u, _, hstart, h⟩ := bind_eq_ok.1 h
      obtain ⟨rfl, rfl⟩ := pure_eq_ok.1 h
      exact .inr ⟨c, _, binding, u, rfl, rfl, hbinding, rfl, hstart⟩

theorem claimCandidate_changes {scopeId : Option String} {workerId : String}
    {nowIso leaseUntil : Timestamp} {s s' : Store}
    {o : Option (Candidate × AttemptRow × Option UserBinding)}
    (h : claimCandidate d scopeId workerId nowIso leaseUntil s = .ok o s') :
    Changes d π s'.files s'.drawn s.db s'.db := by
  rcases claimCandidate_eq_ok h with ⟨-, -, rfl⟩ | ⟨c, a, binding, u, hnext, -, -, rfl, hstart⟩
  · exact .refl
  · obtain ⟨attempts, e, r, ss, hins, record, event, fresh⟩ := startAttempt_changes hstart
    obtain ⟨hrun, hcand, hclaim⟩ := Db.nextClaimable_spec hnext
    have hdrawn : s.drawn < s'.drawn := ((startAttempt_grows d c _ _).of_ok hstart).drawn
    exact .single (.claim hrun hcand hclaim hdrawn hins record event fresh)

theorem claimNextRun_commits (scopeId : Option String) (workerId : String)
    (nowIso leaseUntil : Timestamp) :
    Commits d π (claimNextRun d scopeId workerId nowIso leaseUntil) := by
  refine .bind (.transaction fun s o s' h => claimCandidate_changes h) (fun o => ?_) fun o => ?_
  · cases o with
    | none => exact .pure _
    | some c => exact .getDb_bind fun _ => .orThrow_bind fun _ _ => .pure _
  · cases o with
    | none => exact .pure _
    | some c => exact .bind .getDb fun _ => .bind (.orThrow _ _) fun _ => .pure _

/-- A claim of a run opens an attempt at the run the selection found. -/
theorem claimNextRun_some {scopeId : Option String} {workerId : String}
    {nowIso leaseUntil : Timestamp} {s t : Store} {claimed : ClaimedRun}
    (h : claimNextRun d scopeId workerId nowIso leaseUntil s = .ok (some claimed) t) :
    ∃ c a binding u, s.db.nextClaimable nowIso scopeId = some c ∧
      c.binding d.host = .ok binding ∧ t.db.run c.run.scopeId c.run.id = some claimed.run ∧
      startAttempt d c a s!"system:runtime/{workerId}" { s with drawn := s.drawn + 1 } =
        .ok u t := by
  unfold claimNextRun at h
  obtain ⟨o, s₁, hclaim, hend⟩ := bind_eq_ok.1 h
  rw [transaction_eq_ok] at hclaim
  rcases claimCandidate_eq_ok hclaim with
    ⟨-, rfl, -⟩ | ⟨c, a, binding, u, hnext, rfl, hbinding, -, hstart⟩
  · simp [pure_eq_ok] at hend
  · simp only [getDb_bind_eq_ok, orThrow_bind_eq_ok, pure_eq_ok] at hend
    obtain ⟨r, hr, hend, rfl⟩ := hend
    cases hend
    exact ⟨c, a, binding, u, hnext, hbinding, hr, hstart⟩

/-- A claim of nothing found nothing, and leaves the store as it is. -/
theorem claimNextRun_none {scopeId : Option String} {workerId : String}
    {nowIso leaseUntil : Timestamp} {s t : Store}
    (h : claimNextRun d scopeId workerId nowIso leaseUntil s = .ok none t) :
    s.db.nextClaimable nowIso scopeId = none ∧ t = s := by
  unfold claimNextRun at h
  obtain ⟨o, s₁, hclaim, hend⟩ := bind_eq_ok.1 h
  rw [transaction_eq_ok] at hclaim
  rcases claimCandidate_eq_ok hclaim with
    ⟨hnext, rfl, rfl⟩ | ⟨c, a, binding, u, -, rfl, -, -, -⟩
  · exact ⟨hnext, (pure_eq_ok.1 hend).2⟩
  · simp only [getDb_bind_eq_ok, orThrow_bind_eq_ok, pure_eq_ok] at hend
    obtain ⟨r, -, hend, -⟩ := hend
    cases hend

theorem writeOutput_db {db : Db} {r : RunRow} {output : Option String} {o : Option ObjectRef}
    {s s' : Store} (h : writeOutput d db r output s = .ok o s') : s'.db = s.db := by
  cases output with
  | none =>
      obtain ⟨-, rfl⟩ := pure_eq_ok.1 h
      rfl
  | some text =>
      simp only [writeOutput, writeMessage, writeObject_bind_eq_ok, pure_eq_ok] at h
      obtain ⟨-, rfl⟩ := h
      rfl

theorem transitionRunBody_changes {scopeId : String} {runId : Uuid} {expectedVersion : Nat}
    {target : RunStatus} {args : TransitionArgs} {actor : String} {o : Option RunRow}
    {s s' : Store} (target_allowed : π.target target)
    (extra_allowed : π.extra (args.extraData.getD []))
    (h : transitionRunBody d scopeId runId expectedVersion target args actor s = .ok o s') :
    Changes d π s'.files s'.drawn s.db s'.db := by
  simp only [transitionRunBody, getDb_bind_eq_ok, orThrow_bind_eq_ok, fromExcept_bind_eq_ok,
    now_bind_eq_ok] at h
  obtain ⟨row, hrow, after, hchange, h⟩ := h
  obtain ⟨out, s₁, hout, h⟩ := bind_eq_ok.1 h
  rw [modifyDb_bind_eq_ok] at h
  obtain ⟨e, s₂, hev, hend⟩ := bind_eq_ok.1 h
  obtain ⟨⟨r, ss, record⟩, event, fresh⟩ := insertEventLocked_records hev
  obtain ⟨hmem, rfl, rfl⟩ := Db.run_eq_some.1 hrow
  have hdb := writeOutput_db hout
  obtain ⟨rfl, -, -, -, hafter⟩ := transition_eq_ok.1 hchange
  have hstatus : after.status = target := by rw [hafter]; rfl
  simp only [hdb, RunRow.state] at record
  have step : Change d π s₂.files s₂.drawn _ _ :=
    .move hmem hchange target_allowed extra_allowed record event fresh
  by_cases ht : target.terminal = true
  · simp only [hstatus, ht, if_true, modifyDb_bind_eq_ok, getDb_bind_eq_ok, pure_eq_ok] at hend
    obtain ⟨-, rfl⟩ := hend
    rw [if_pos ht] at step
    exact .single step
  · simp only [hstatus, ht, Bool.false_eq_true, if_false, getDb_bind_eq_ok, pure_eq_ok] at hend
    obtain ⟨-, rfl⟩ := hend
    rw [if_neg ht] at step
    exact .single step

theorem transitionRun_commits (scopeId : String) (runId : Uuid) (expectedVersion : Nat)
    (target : RunStatus) (args : TransitionArgs) (actorRef : Option String)
    (target_allowed : π.target target) (extra_allowed : π.extra (args.extraData.getD [])) :
    Commits d π (transitionRun d scopeId runId expectedVersion target args actorRef) :=
  .transaction fun _ _ _ h => transitionRunBody_changes target_allowed extra_allowed h

theorem cancelRun_commits (scopeId : String) (runId : Uuid) (actorRef : Option String)
    (cancelling : π.target .cancelling) (cancelled : π.target .cancelled) :
    Commits d π (cancelRun d scopeId runId actorRef) := by
  refine .getDb_bind fun db => .orThrow_bind fun row _ => .ite (fun _ => .pure _) fun _ => ?_
  refine .bind (transitionRun_commits _ _ _ _ _ _ cancelling π.extra_nil) (fun current => ?_)
    fun current => ?_
  · refine .ite (fun _ => .orThrow_bind fun _ _ => ?_) fun _ => .pure _
    exact transitionRun_commits _ _ _ _ _ _ cancelled π.extra_nil
  · exact .ite (.bind (.orThrow _ _) fun _ => transitionRun_grows _ _ _ _ _ _ _) (.pure _)

/-- Putting a run back, in the transaction that answers it, is the change
`transition_run` would have made. -/
theorem transitionRunLocked_changes {scopeId : String} {runId : Uuid} {expectedVersion : Nat}
    {actor : String} {u : Unit} {s s' : Store} (queued : π.target .queued)
    (h : transitionRunLocked d scopeId runId .queued expectedVersion {} actor s = .ok u s') :
    Changes d π s'.files s'.drawn s.db s'.db := by
  simp only [transitionRunLocked, getDb_bind_eq_ok, orThrow_bind_eq_ok, fromExcept_bind_eq_ok]
    at h
  obtain ⟨row, hrow, after, hchange, h⟩ := h
  obtain ⟨out, s₁, hout, h⟩ := bind_eq_ok.1 h
  simp only [now_bind_eq_ok, modifyDb_bind_eq_ok] at h
  obtain ⟨e, s₂, hev, hend⟩ := bind_eq_ok.1 h
  obtain ⟨-, rfl⟩ := pure_eq_ok.1 hend
  obtain ⟨⟨r, ss, record⟩, ⟨hscope, hid, htype, hdata⟩, fresh⟩ := insertEventLocked_records hev
  obtain ⟨hmem, rfl, rfl⟩ := Db.run_eq_some.1 hrow
  have hdb := writeOutput_db hout
  obtain ⟨rfl, -, -, -, hafter⟩ := transition_eq_ok.1 hchange
  have hstatus : after.status = .queued := by rw [hafter]; rfl
  have data : e.data = transitionData d after none out none [] := by
    rw [hdata, transitionData, hstatus]
    simp
  simp only [hdb, RunRow.state] at record
  exact .single (.move hmem hchange queued π.extra_nil record
    ⟨hscope, hid, htype, data⟩ fresh)

theorem respondToRun_commits (scopeId : String) (runId : Uuid) (pendingId responseKey : String)
    (expectedStateVersion : Nat) (text actor : String) (queued : π.target .queued) :
    Commits d π
      (respondToRun d scopeId runId pendingId responseKey expectedStateVersion text actor) := by
  refine .bind (.transaction fun s u s' h => ?_) (fun _ => .getDb_bind fun _ => .pure _)
    fun _ => .bind .getDb fun _ => .pure _
  simp only [getDb_bind_eq_ok, orThrow_bind_eq_ok] at h
  obtain ⟨p, hp, run, hrun, h⟩ := h
  split at h
  · obtain ⟨-, rfl⟩ := ensure_eq_ok.1 h
    exact .refl
  · simp only [resolveResponse, getDb_bind_eq_ok, writeObject_bind_eq_ok, now_bind_eq_ok,
      ensure_bind_eq_ok, modifyDb_bind_eq_ok] at h
    have resumed := transitionRunLocked_changes queued h.2.2
    exact .head .pendings resumed

theorem recordWorkspaceRevision_commits (scopeId : String) (workspaceId attemptId : Uuid)
    (workspaceEpoch : Nat) (commit : WorkspaceCommit) (actor : String) :
    Commits d π
      (recordWorkspaceRevision d scopeId workspaceId attemptId workspaceEpoch commit actor) := by
  refine .now_bind fun now => .transaction fun s u s' h => ?_
  simp only [getDb_bind_eq_ok, orThrow_bind_eq_ok, ensure_bind_eq_ok, modifyDb_eq_ok] at h
  obtain ⟨w, -, -, -, revisions, -, rfl⟩ := h
  exact .single .revise

/-! ## Events and tools -/

/-- Recording an event is a change of its own. -/
theorem insertEventLocked_changes {scopeId : String} {runId : Uuid} {type : EventType}
    {data : Json} {actor : String} {occurredAt : Timestamp} {e : EventRow} {s s' : Store}
    (allowed : type.lifecycle = true → π.event type)
    (h : insertEventLocked d scopeId runId type data actor occurredAt s = .ok e s') :
    Changes d π s'.files s'.drawn s.db s'.db := by
  obtain ⟨⟨r, ss, record⟩, ⟨-, -, rfl, -⟩, fresh⟩ := insertEventLocked_records h
  exact .single (.note record allowed fresh)

theorem appendEvent_commits (scopeId : String) (runId : Uuid) (type : EventType)
    (data : List (String × Json)) (actor : String) (allowed : π.event type) :
    Commits d π (appendEvent d scopeId runId type data actor) := by
  refine .transaction fun s u s' h => ?_
  simp only [getDb_bind_eq_ok, orThrow_bind_eq_ok, now_bind_eq_ok] at h
  obtain ⟨run, -, h⟩ := h
  have recorded := insertEventLocked_changes (π := π) (fun _ => allowed) h
  exact recorded

theorem prepareTool_commits (call : ToolCall) (actor : String) :
    Commits d π (prepareTool d call actor) := by
  refine .now_bind fun now => .transaction fun s o s' h => ?_
  rw [getDb_bind_eq_ok] at h
  cases hcall : s.db.calledTool call.scopeId call.runId call.logicalCallKey with
  | some existing =>
      simp only [hcall, ensure_bind_eq_ok, pure_eq_ok] at h
      obtain ⟨-, -, rfl⟩ := h
      exact .refl
  | none =>
      simp only [hcall, orThrow_bind_eq_ok, ensure_bind_eq_ok, uuid4_bind_eq_ok] at h
      obtain ⟨run, -, w, -, -, h⟩ := h
      obtain ⟨_, s₁, hins, h⟩ := bind_eq_ok.1 h
      obtain ⟨e, s₂, hev, h⟩ := bind_eq_ok.1 h
      obtain ⟨-, rfl⟩ := pure_eq_ok.1 h
      simp only [insertTool, getDb_bind_eq_ok, ensure_bind_eq_ok, orThrow_bind_eq_ok,
        modifyDb_eq_ok] at hins
      obtain ⟨-, tools, -, rfl⟩ := hins
      have recorded := insertEventLocked_changes (π := π) (by simp [EventType.lifecycle]) hev
      exact .head .tools recorded

theorem startTool_commits (scopeId : String) (operationId : Uuid) (actor : String) :
    Commits d π (startTool d scopeId operationId actor) := by
  refine .now_bind fun now => .transaction fun s u s' h => ?_
  simp only [getDb_bind_eq_ok, orThrow_bind_eq_ok, modifyDb_bind_eq_ok] at h
  obtain ⟨row, -, h⟩ := h
  obtain ⟨e, s₂, hev, h⟩ := bind_eq_ok.1 h
  obtain ⟨-, rfl⟩ := pure_eq_ok.1 h
  have recorded := insertEventLocked_changes (π := π) (by simp [EventType.lifecycle]) hev
  exact .head .tools recorded

theorem appendToolOutput_commits (scopeId : String) (operationId : Uuid) (stream text : String)
    (truncated : Bool) (actor : String) :
    Commits d π (appendToolOutput d scopeId operationId stream text truncated actor) := by
  refine .transaction fun s u s' h => ?_
  simp only [getDb_bind_eq_ok, orThrow_bind_eq_ok, now_bind_eq_ok] at h
  obtain ⟨row, -, h⟩ := h
  obtain ⟨e, s₂, hev, h⟩ := bind_eq_ok.1 h
  obtain ⟨-, rfl⟩ := pure_eq_ok.1 h
  have recorded := insertEventLocked_changes (π := π) (by simp [EventType.lifecycle]) hev
  exact recorded

theorem finishTool_commits (scopeId : String) (operationId : Uuid) (status : ToolStatus)
    (resultRef : Option String) (error : Option (List (String × Json))) (actor : String)
    (resultRevisionId : Option String) :
    Commits d π
      (finishTool d scopeId operationId status resultRef error actor resultRevisionId) := by
  refine .now_bind fun now => .transaction fun s u s' h => ?_
  simp only [getDb_bind_eq_ok, orThrow_bind_eq_ok, ensure_bind_eq_ok, modifyDb_bind_eq_ok] at h
  obtain ⟨row, -, -, h⟩ := h
  obtain ⟨e, s₂, hev, h⟩ := bind_eq_ok.1 h
  obtain ⟨-, rfl⟩ := pure_eq_ok.1 h
  have recorded := insertEventLocked_changes (π := π)
    (by cases status <;> simp [ToolStatus.announcedBy, EventType.lifecycle]) hev
  exact .head .tools recorded

end CodeForge
