import CodeForge.Persistence.Integrity
import CodeForge.Persistence.Replies

/-!
# Answers

A request for the user's input is a row that is answered once.  An answer is one transaction: the
row is resolved, its run is put back into the queue, and one event says so (`Resolves`).  Nobody
else touches the row, neither before nor after (`Step.pendings`), so that a resolved row stays as
it is whatever is called next (`Steps.resolved`).

A call of `respond_to_run` repeats an answer, answers, or is refused.  `Db.Repeats` and
`Db.Answerable` tell the first two, and a call that is neither leaves all rows alone
(`respondToRunReply_refused`).
-/

namespace CodeForge

open Lib StoreM

variable {A : Access} {d : Deployment} {π : Discipline} {s t : Store} {scopeId : String}
  {runId : Uuid} {pendingId key text actor : String} {version : Nat}

/-! ## One answer -/

/-- The row of a request is resolved, its run is put back into the queue, and one event says so. -/
structure Resolves (d : Deployment) (db db' : Db) (p : PendingRow) (key text : String) : Prop where
  known : p ∈ db.pendings
  unresolved : p.resolved = false
  row : ∃ file n m actor, db'.pendings =
    db.pendings.updateIn p.scopeId p.id
      (fun q => q.resolve key (answerDigest d text) file (d.clock n) (d.clock m) actor)
  run : ∃ r after, db.run p.scopeId p.runId = some r ∧
    transition r.state .queued r.stateVersion none none = .ok after ∧
    db'.runs.view RunRow.state =
      Function.update (db.runs.view RunRow.state) (p.scopeId, p.runId) (some after)
  event : ∃ e, db'.events.rows = db.events.rows ++ [e] ∧ e.runKey = (p.scopeId, p.runId) ∧
    e.type = .runResumed

/-- What putting a run back does to it, with the event that says so. -/
theorem transitionRunLocked_spec {u : Unit}
    (h : transitionRunLocked d scopeId runId .queued version {} actor s = .ok u t) :
    ∃ row after, s.db.run scopeId runId = some row ∧
      transition row.state .queued version none none = .ok after ∧
      t.db.runs.view RunRow.state =
        Function.update (s.db.runs.view RunRow.state) (scopeId, runId) (some after) ∧
      ∃ e, t.db.events.rows = s.db.events.rows ++ [e] ∧ e.runKey = (scopeId, runId) ∧
        e.type = .runResumed := by
  simp only [transitionRunLocked, getDb_bind_eq_ok, orThrow_bind_eq_ok, fromExcept_bind_eq_ok]
    at h
  obtain ⟨row, run, after, change, h⟩ := h
  obtain ⟨out, s₁, hout, h⟩ := bind_eq_ok.1 h
  obtain ⟨rfl, rfl⟩ := writeOutput_eq_ok hout
  simp only [now_bind_eq_ok, modifyDb_bind_eq_ok] at h
  obtain ⟨e, s₂, hev, hend⟩ := bind_eq_ok.1 h
  obtain ⟨-, rfl⟩ := pure_eq_ok.1 hend
  obtain ⟨⟨r, ss, record⟩, ⟨scope, id, type, -⟩, -⟩ := insertEventLocked_records hev
  have version : row.stateVersion = version := (transition_eq_ok.1 change).1
  obtain ⟨events, now, by_, insert, result⟩ := record.result
  refine ⟨row, after, run, change, ?_, e, ?_, Prod.ext scope id, type⟩
  · rw [result]
    simp only [Db.setEventSeqs, Db.moveRun]
    rw [Table.view_updateIn_same, Table.view_updateIn_of run, if_pos version]
    · rfl
    · intro r
      rfl
  · rw [result]
    exact (Table.insert?_eq_some.1 insert).2

/-- A call that goes through repeats an answer, or is one. -/
theorem respondToRun_spec {o : Option RunRow}
    (h : respondToRun d scopeId runId pendingId key version text actor s = .ok o t) :
    o = t.db.run scopeId runId ∧
    ∃ p r, s.db.pendings.getIn scopeId pendingId = some p ∧ p.runId = runId ∧
      s.db.run scopeId runId = some r ∧
      ((p.resolved = true ∧ p.responseKey = some key ∧
          p.responseDigest = some (answerDigest d text) ∧ t = s) ∨
        (s.db.responseKeyTaken p key = false ∧ r.stateVersion = version ∧
          Resolves d s.db t.db p key text)) := by
  obtain ⟨u, s₁, body, hend⟩ := bind_eq_ok.1 h
  clear h
  simp only [getDb_bind_eq_ok, pure_eq_ok] at hend
  obtain ⟨rfl, rfl⟩ := hend
  simp only [transaction_eq_ok, getDb_bind_eq_ok, orThrow_bind_eq_ok] at body
  obtain ⟨p, found, r, run, h⟩ := body
  obtain ⟨hp, ofRun⟩ := Option.filter_eq_some_iff.1 found
  have hrun : p.runId = runId := of_decide_eq_true ofRun
  obtain ⟨known, hpscope, hpid⟩ := Table.getIn_eq_some.1 hp
  change p.scopeId = scopeId at hpscope
  change p.id = pendingId at hpid
  subst hpscope hpid hrun
  refine ⟨rfl, p, r, hp, rfl, run, ?_⟩
  split at h
  next resolved =>
    obtain ⟨same, rfl⟩ := ensure_eq_ok.1 h
    simp only [Bool.and_eq_true, decide_eq_true_eq] at same
    exact .inl ⟨resolved, same.1, same.2, rfl⟩
  next open_ =>
    simp only [resolveResponse, getDb_bind_eq_ok, writeObject_bind_eq_ok, now_bind_eq_ok,
      ensure_bind_eq_ok, modifyDb_bind_eq_ok, Bool.not_eq_true', decide_eq_true_eq] at h
    obtain ⟨free, current, h⟩ := h
    obtain ⟨-, hscope, hid⟩ := Db.run_eq_some.1 run
    have locked := h
    rw [hscope, hid] at locked
    obtain ⟨row, after, run', change, states, event⟩ := transitionRunLocked_spec locked
    cases run.symm.trans run'
    refine .inr ⟨free, current, known, Bool.eq_false_of_not_eq_true open_, ?_, ?_, event⟩
    · obtain ⟨bodies, -⟩ := transitionRunLocked_writes h
      exact ⟨_, _, _, _, congrArg Prod.snd bodies⟩
    · refine ⟨r, after, run, ?_, states⟩
      rw [current]
      exact change

/-! ## Who rewrites the rows -/

/-- Events, claims, releases and tools do not. -/
theorem Db.Apart.pendings : Db.Apart Db.pendings where
  event _ _ _ _ _ := rfl
  attempts _ _ := rfl
  occupySession _ _ _ := rfl
  occupyWorkspace _ _ _ _ := rfl
  startRun _ _ _ _ := rfl
  release _ _ _ _ := rfl
  tools _ _ := rfl

theorem Db.Aside.pendings : Db.Aside Db.pendings := Db.Apart.pendings.toAside

theorem acceptOnce_pendings {request : RunRequest} {idempotencyKey fingerprint : String}
    {snapshot : RunSnapshot} {rejectIfActive : Bool} :
    Keeps Db.pendings
      (acceptOnce d request idempotencyKey fingerprint snapshot rejectIfActive) := by
  intro s
  cases ended : acceptOnce d request idempotencyKey fingerprint snapshot rejectIfActive s with
  | ok run t =>
      rw [finalState_of_ok ended]
      exact (acceptOnce_writes ended).1
  | error e t => rw [finalState_of_error ended, acceptOnce_error_db ended]

/-- The rows stay, a new one is added, or one is resolved. -/
theorem Step.pendings (st : Step d π s t) :
    t.db.pendings = s.db.pendings ∨ (∃ p, s.db.pendings.insert? p = some t.db.pendings) ∨
      ∃ p key text, Resolves d s.db t.db p key text := by
  cases st with
  | fault grown rollback => exact .inl (by rw [rollback])
  | call op obeys =>
      cases op with
      | createSession scopeId key title externalRef context =>
          exact .inl (congrArg Prod.snd (createSession_keeps scopeId key title externalRef context s))
      | acceptOnce => exact .inl (acceptOnce_pendings s)
      | claimNextRun => exact .inl (claimNextRun_keeps .pendings _ _ _ _ s)
      | transitionRun =>
          exact .inl (transitionRun_keeps .pendings (fun _ _ _ _ _ _ => rfl) s)
      | cancelRun => exact .inl (cancelRun_keeps .pendings (fun _ _ _ _ _ _ _ => rfl) _ _ _ s)
      | recordWorkspaceRevision =>
          exact .inl (recordWorkspaceRevision_keeps (fun _ _ _ _ _ _ _ => rfl) _ _ _ _ _ _ s)
      | appendEvent => exact .inl (appendEvent_keeps .pendings _ _ _ _ _ s)
      | prepareTool => exact .inl (prepareTool_keeps .pendings _ _ s)
      | startTool => exact .inl (startTool_keeps .pendings _ _ _ s)
      | appendToolOutput => exact .inl (appendToolOutput_keeps .pendings _ _ _ _ _ _ s)
      | finishTool => exact .inl (finishTool_keeps .pendings _ _ _ _ _ _ _ s)
      | respondToRun scopeId runId pendingId key version text actor =>
          dsimp only [Op.exec]
          cases ended : CodeForge.respondToRun d scopeId runId pendingId key version text actor s
            with
          | ok o u =>
              rw [finalState_of_ok ended]
              obtain ⟨-, p, r, -, -, -, ⟨-, -, -, rfl⟩ | ⟨-, -, resolves⟩⟩ := respondToRun_spec ended
              · exact .inl rfl
              · exact .inr (.inr ⟨p, key, text, resolves⟩)
          | error e u =>
              rw [finalState_of_error ended]
              exact .inl (by rw [respondToRun_error_db ended])
      | openPending p =>
          dsimp only [Op.exec]
          cases ended : CodeForge.openPending p s with
          | ok o u =>
              rw [finalState_of_ok ended]
              obtain ⟨pendings, insert, rfl⟩ := openPending_eq_ok ended
              exact .inr (.inl ⟨p, insert⟩)
          | error e u =>
              rw [finalState_of_error ended]
              exact .inl (congrArg Db.pendings (transaction_error_db ended))

/-- The row an answer resolves. -/
theorem Resolves.mem {db db' : Db} {p : PendingRow} (h : Resolves d db db' p key text) :
    ∃ q ∈ db'.pendings, (q.scopeId, q.id) = (p.scopeId, p.id) ∧ q.runId = p.runId ∧
      q.responseKey = some key ∧ q.responseDigest = some (answerDigest d text) ∧
        ∃ n, q.resolvedAt = some (d.clock n) := by
  obtain ⟨file, n, m, actor, row⟩ := h.row
  refine ⟨p.resolve key (answerDigest d text) file (d.clock n) (d.clock m) actor, ?_, rfl, rfl,
    rfl, rfl, n, rfl⟩
  rw [row]
  have found : db.pendings.getIn p.scopeId p.id = some p := Table.getIn_of_mem h.known
  exact (Table.getIn_eq_some.1 (Table.getIn_updateIn_of found _ _)).1

/-- A row that was resolved is not touched. -/
theorem Step.resolved (st : Step d π s t) {p : PendingRow} (known : p ∈ s.db.pendings)
    (resolved : p.resolved = true) : p ∈ t.db.pendings := by
  rcases st.pendings with same | ⟨p', insert⟩ | ⟨p', key, text, h⟩
  · rw [same]
    exact known
  · exact Table.mem_of_insert? insert known
  · obtain ⟨file, n, m, actor, row⟩ := h.row
    rw [row, Table.updateIn, Table.mem_updateWhere]
    refine ⟨p, known, if_neg ?_⟩
    intro chosen
    simp only [Bool.and_eq_true, decide_eq_true_eq] at chosen
    have same : p = p' := Table.eq_of_key known h.known chosen.2
    rw [same, h.unresolved] at resolved
    cases resolved

/-- It stays as it is, whatever is called. -/
theorem Steps.resolved (st : Steps d π s t) {p : PendingRow} (known : p ∈ s.db.pendings)
    (resolved : p.resolved = true) : p ∈ t.db.pendings := by
  induction st with
  | refl => exact known
  | tail _ last ih => exact last.resolved ih resolved

/-- A row is resolved by an answer, and carries its key and digest. -/
theorem Step.resolves (st : Step d π s t) {p q : PendingRow} (known : p ∈ s.db.pendings)
    (unresolved : p.resolved = false) (later : q ∈ t.db.pendings)
    (same : (q.scopeId, q.id) = (p.scopeId, p.id)) (resolved : q.resolved = true) :
    ∃ key text, Resolves d s.db t.db p key text ∧ q.responseKey = some key ∧
      q.responseDigest = some (answerDigest d text) := by
  have other : q ∉ s.db.pendings := by
    intro old
    have eq : q = p := Table.eq_of_key old known (Prod.mk.inj same).2
    rw [eq, unresolved] at resolved
    cases resolved
  rcases st.pendings with kept | ⟨p', insert⟩ | ⟨p', key, text, h⟩
  · rw [kept] at later
    exact absurd later other
  · rcases (Table.mem_insert? insert).1 later with old | rfl
    · exact absurd old other
    · have free := (Table.insert?_eq_some.1 insert).1 p known
      rw [rowClash_of_key (Prod.mk.inj same).2.symm] at free
      cases free
  · obtain ⟨file, n, m, actor, row⟩ := h.row
    rw [row, Table.updateIn, Table.mem_updateWhere] at later
    obtain ⟨a, ha, hq⟩ := later
    split at hq
    next chosen =>
      simp only [Bool.and_eq_true, decide_eq_true_eq] at chosen
      have eq : a = p' := Table.eq_of_key ha h.known chosen.2
      have mine : a = p := by
        refine Table.eq_of_key ha known ?_
        rw [← hq] at same
        exact (Prod.mk.inj same).2
      rw [← eq, mine] at h
      rw [← hq]
      exact ⟨key, text, h, rfl, rfl⟩
    next => exact absurd (hq ▸ ha) other

/-! ## Calls after an answer -/

/-- An answer may be given again. -/
theorem respondToRun_again {p : PendingRow} {r : RunRow} (known : p ∈ s.db.pendings)
    (run : s.db.run p.scopeId p.runId = some r) (resolved : p.resolved = true)
    (hkey : p.responseKey = some key) (digest : p.responseDigest = some (answerDigest d text))
    (version : Nat) (actor : String) :
    respondToRun d p.scopeId p.runId p.id key version text actor s = .ok (some r) s := by
  have found : (s.db.pendings.getIn p.scopeId p.id).filter (fun q => q.runId = p.runId) =
      some p := by
    rw [show s.db.pendings.getIn p.scopeId p.id = some p from Table.getIn_of_mem known]
    simp
  have same : (p.responseKey = some key && p.responseDigest =
      some (fingerprintOf d (.obj [("text", .str text)]))) = true := by
    rw [hkey, digest]
    simp [answerDigest]
  refine bind_eq_ok.2 ⟨⟨⟩, s, transaction_eq_ok.2 (bind_eq_ok.2 ⟨s.db, s, rfl, ?_⟩), ?_⟩
  · rw [orThrow_bind_eq_ok]
    refine ⟨p, found, ?_⟩
    rw [orThrow_bind_eq_ok]
    refine ⟨r, run, ?_⟩
    rw [if_pos resolved]
    exact ensure_eq_ok.2 ⟨same, rfl⟩
  · refine bind_eq_ok.2 ⟨s.db, s, rfl, ?_⟩
    rw [run]
    rfl

theorem respondToRunReply_again {p : PendingRow} (known : p ∈ s.db.pendings)
    (run : ∃ r, s.db.run p.scopeId p.runId = some r) (resolved : p.resolved = true)
    (hkey : p.responseKey = some key) (digest : p.responseDigest = some (answerDigest d text))
    (reads : A.Reads d s p.scopeId p.runId) (version : Nat) (actor : String) :
    ∃ view, respondToRunReply A d p.scopeId p.runId p.id key version text actor s =
      .ok view s := by
  obtain ⟨r, run⟩ := run
  obtain ⟨view, hview⟩ := reads
  refine ⟨view, bind_eq_ok.2 ⟨some r, s, ?_, ?_⟩⟩
  · exact stored_of_ok (respondToRun_again known run resolved hkey digest version actor)
  · rw [readRun, hview]

/-- A call that does not go through raises an error and leaves the rows alone. -/
theorem respondToRunReply_refused
    (h : ∀ o t, respondToRun d scopeId runId pendingId key version text actor s ≠ .ok o t) :
    ∃ e t, respondToRunReply A d scopeId runId pendingId key version text actor s = .error e t ∧
      t.db = s.db := by
  cases ended : respondToRun d scopeId runId pendingId key version text actor s with
  | ok o t => exact absurd ended (h o t)
  | error e t =>
      refine ⟨.store e, t, bind_eq_error.2 (.inl ?_), respondToRun_error_db ended⟩
      rw [stored, ended]

/-- Another answer to a request that was answered, and an answer to it for another run, do not go
through. -/
theorem respondToRun_other {p : PendingRow} (known : p ∈ s.db.pendings)
    (resolved : p.resolved = true)
    (other : p.runId ≠ runId ∨ p.responseKey ≠ some key ∨
      p.responseDigest ≠ some (answerDigest d text)) (o : Option RunRow) (t : Store) :
    respondToRun d p.scopeId runId p.id key version text actor s ≠ .ok o t := by
  intro ended
  obtain ⟨-, q, r, found, ofRun, -, h⟩ := respondToRun_spec ended
  rw [show s.db.pendings.getIn p.scopeId p.id = some p from Table.getIn_of_mem known] at found
  cases found
  rcases h with ⟨-, hkey, digest, -⟩ | ⟨-, -, resolves⟩
  · rcases other with other | other | other
    · exact other ofRun
    · exact other hkey
    · exact other digest
  · rw [resolves.unresolved] at resolved
    cases resolved

/-- An answer that comes with another version than the one of the run, or while the run is not to
be put back, does not go through. -/
theorem respondToRun_unfit {p : PendingRow} {r : RunRow} (known : p ∈ s.db.pendings)
    (unresolved : p.resolved = false) (run : s.db.run p.scopeId p.runId = some r)
    (late : r.stateVersion ≠ version ∨ .queued ∉ allowedTransitions r.status)
    (o : Option RunRow) (t : Store) :
    respondToRun d p.scopeId p.runId p.id key version text actor s ≠ .ok o t := by
  intro ended
  obtain ⟨-, q, r', found, -, run', h⟩ := respondToRun_spec ended
  rw [show s.db.pendings.getIn p.scopeId p.id = some p from Table.getIn_of_mem known] at found
  cases found
  cases run.symm.trans run'
  rcases h with ⟨resolved, -⟩ | ⟨-, current, resolves⟩
  · rw [unresolved] at resolved
    cases resolved
  · obtain ⟨r'', after, run'', change, -⟩ := resolves.run
    cases run.symm.trans run''
    rcases late with late | late
    · exact late current
    · exact late (transition_eq_ok.1 change).2.1

/-- Runs do not go away. -/
theorem Steps.run_known (st : Steps d π s t) (known : ∃ r, s.db.run scopeId runId = some r) :
    ∃ r, t.db.run scopeId runId = some r := by
  obtain ⟨r, run⟩ := known
  have view : s.db.statuses (scopeId, runId) = some (r.status, r.stateVersion) :=
    Table.view_of_getIn run _
  obtain ⟨b, later, -⟩ := st.statuses view
  obtain ⟨r', run', -⟩ := Option.map_eq_some_iff.1 later
  exact ⟨r', run'⟩

/-- Where digests do not collide, other texts have other digests. -/
theorem answerDigest_injective (collisionFree : Function.Injective d.sha256) :
    Function.Injective (answerDigest d) := by
  intro text text' same
  have loaded : ∀ text : String,
      loadBytes .plain (utf8 (Json.obj [("text", .str text)]).canonical) =
        .value (.obj [("text", .str text)]) := by
    intro text
    have valid : (Json.obj [("text", .str text)]).Valid .plain := by
      simp [Json.Valid, Json.ValidMembers]
    exact loadBytes_utf8 Json.Separators.compact valid
  have bytes : utf8 (Json.obj [("text", .str text)]).canonical =
      utf8 (Json.obj [("text", .str text')]).canonical := collisionFree same
  have value := loaded text
  rw [bytes, loaded text'] at value
  simpa using value.symm

/-- A reply is consumed once, in every run of calls from any store: a resolved row stays as it is;
it was resolved by one answer, with one event and one step of its run; after that the same call
changes nothing, whatever version it comes with, and any other is refused; and before it a call
with another version, or for a run that is not to be put back, is refused. -/
theorem Store.consumed_once (clock : ∀ n, d.clock n ≠ "") (s : Store) :
    (∀ t, Steps d π s t → ∀ p ∈ s.db.pendings, p.resolved = true → p ∈ t.db.pendings) ∧
    (∀ t, Step d π s t → ∀ p ∈ s.db.pendings, ∀ q ∈ t.db.pendings,
      (q.scopeId, q.id) = (p.scopeId, p.id) → p.resolved = false → q.resolved = true →
        ∃ key text, Resolves d s.db t.db p key text ∧ q.responseKey = some key ∧
          q.responseDigest = some (answerDigest d text)) ∧
    (∀ t p key text, Step d π s t → Resolves d s.db t.db p key text →
      ∀ u, Steps d π t u → ∀ runId key' version text' actor,
        (runId = p.runId → key' = key → text' = text → A.Reads d u p.scopeId p.runId →
          ∃ view, respondToRunReply A d p.scopeId runId p.id key' version text' actor u =
            .ok view u) ∧
        (runId ≠ p.runId ∨ key' ≠ key ∨ answerDigest d text' ≠ answerDigest d text →
          ∃ e w, respondToRunReply A d p.scopeId runId p.id key' version text' actor u =
            .error e w ∧ w.db = u.db)) ∧
    (∀ p ∈ s.db.pendings, p.resolved = false → ∀ r, s.db.run p.scopeId p.runId = some r →
      ∀ key version text actor,
        r.stateVersion ≠ version ∨ .queued ∉ allowedTransitions r.status →
          ∃ e w, respondToRunReply A d p.scopeId p.runId p.id key version text actor s =
            .error e w ∧ w.db = s.db) := by
  refine ⟨fun t st p known resolved => st.resolved known resolved,
    fun t st p known q later same unresolved resolved =>
      st.resolves known unresolved later same resolved, ?_, ?_⟩
  · intro t p key text st h u later runId key' version text' actor
    obtain ⟨q, hq, hkey, hrun, hrkey, hrdigest, n, hat⟩ := h.mem
    obtain ⟨scope, id⟩ := Prod.mk.inj hkey
    have resolved : q.resolved = true := by
      rw [PendingRow.resolved, hat]
      exact decide_eq_true (clock n)
    have known := later.resolved hq resolved
    obtain ⟨r, after, run, -, -⟩ := h.run
    have run' : ∃ r, u.db.run q.scopeId q.runId = some r := by
      rw [scope, hrun]
      exact Steps.run_known (.head st later) ⟨r, run⟩
    rw [← scope, ← id, ← hrun]
    constructor
    · rintro rfl rfl rfl reads
      exact respondToRunReply_again known run' resolved hrkey hrdigest reads version actor
    · intro other
      refine respondToRunReply_refused fun o w => respondToRun_other known resolved ?_ o w
      rcases other with other | other | other
      · exact .inl (Ne.symm other)
      · refine .inr (.inl ?_)
        rw [hrkey]
        exact fun e => other (Option.some.inj e).symm
      · refine .inr (.inr ?_)
        rw [hrdigest]
        exact fun e => other (Option.some.inj e).symm
  · intro p known unresolved r run key version text actor late
    exact respondToRunReply_refused fun o w => respondToRun_unfit known unresolved run late o w

theorem Deployment.plain_clock (n : Nat) : Deployment.plain.clock n ≠ "" := by
  intro h
  have length := congrArg String.length h
  simp only [Deployment.plain, String.length_append, String.length_empty] at length
  have mark : (toString "Z").length = 1 := by decide
  omega

/-- The first request, answered too late. -/
theorem consumed_once_asked :
    ∃ e w, respondToRunReply .plain .plain "ada" ⟨2⟩ "q" "k" 1 "a" "user:ada"
        (Op.execAll .plain Op.asked {}) = .error e w ∧
      w.db = (Op.execAll .plain Op.asked {}).db := by
  have found : (Op.execAll .plain Op.asked {}).db.pendings.getIn "ada" "q" = some .first := by
    decide +kernel
  have run : ((Op.execAll .plain Op.asked {}).db.run "ada" ⟨2⟩).map RunRow.stateVersion =
      some 2 := by decide +kernel
  obtain ⟨r, hr, version⟩ := Option.map_eq_some_iff.1 run
  have stale : r.stateVersion ≠ 1 := by
    rw [version]
    decide
  obtain ⟨-, -, -, refused⟩ := Store.consumed_once (A := .plain) (π := {})
    Deployment.plain_clock (Op.execAll .plain Op.asked {})
  exact refused .first (Table.getIn_eq_some.1 found).1 rfl r hr "k" 1 "a" "user:ada" (.inl stale)

end CodeForge
