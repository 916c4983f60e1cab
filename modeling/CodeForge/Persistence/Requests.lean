import CodeForge.Persistence.Acceptance

/-!
# Accepting a request

`accept_once` either finds the run the key was used for, or adds one: the input and the
snapshot are written to files named after the new run, so nothing was there before and
nothing replaces them later (`acceptOnce_eq_ok`).  However it ends, the runs of other
keys are left alone.

A session in which runs are accepted only while none is active has at most one active
run (`Reachable.singleActive`).
-/

namespace CodeForge

open Lib StoreM

/-! ## Keys -/

/-- What a request is known by. -/
structure RequestKey where
  scopeId : String
  sessionId : Uuid
  idempotencyKey : String
deriving DecidableEq, Repr

/-- The key of a request. -/
def RunRequest.requestKey (request : RunRequest) (idempotencyKey : String) : RequestKey :=
  ⟨request.context.scopeId, request.sessionId, idempotencyKey⟩

/-- The key a run was accepted under. -/
def Acceptance.requestKey (a : Acceptance) : RequestKey :=
  ⟨a.scopeId, a.sessionId, a.idempotencyKey⟩

/-- A key is used once. -/
theorem Db.requestKey_unique {db : Db} {a b : Acceptance} (ha : a ∈ db.acceptances)
    (hb : b ∈ db.acceptances) (h : a.requestKey = b.requestKey) : a = b := by
  obtain ⟨r, hr, rfl⟩ := Db.mem_acceptances.1 ha
  obtain ⟨r', hr', rfl⟩ := Db.mem_acceptances.1 hb
  obtain ⟨scope, session, key⟩ := RequestKey.mk.inj h
  have clash : rowClash r r' = true := by
    change (decide (r.id = r'.id) || (decide (r.scopeId = r'.scopeId) &&
      decide (r.sessionId = r'.sessionId) && (decide (r.runSeq = r'.runSeq) ||
        decide (r.idempotencyKey = r'.idempotencyKey)))) = true
    rw [show r.scopeId = r'.scopeId from scope, show r.sessionId = r'.sessionId from session,
      show r.idempotencyKey = r'.idempotencyKey from key]
    simp
  rw [Table.eq_of_clash hr hr' clash]

theorem Db.requestedRun_eq_some {db : Db} {scopeId : String} {sessionId : Uuid}
    {idempotencyKey : String} {r : RunRow}
    (h : db.requestedRun scopeId sessionId idempotencyKey = some r) :
    r ∈ db.runs ∧ r.acceptance.requestKey = ⟨scopeId, sessionId, idempotencyKey⟩ := by
  have found := List.find?_some h
  simp only [Bool.and_eq_true, decide_eq_true_eq] at found
  obtain ⟨⟨scope, session⟩, key⟩ := found
  exact ⟨List.mem_of_find?_eq_some h, by
    rw [Acceptance.requestKey, RunRow.acceptance, scope, session, key]⟩

theorem Db.requestedRun_eq_none {db : Db} {k : RequestKey} :
    db.requestedRun k.scopeId k.sessionId k.idempotencyKey = none ↔
      ∀ a ∈ db.acceptances, a.requestKey ≠ k := by
  rw [requestedRun, List.find?_eq_none]
  constructor
  · rintro free a ha rfl
    obtain ⟨r, hr, rfl⟩ := Db.mem_acceptances.1 ha
    exact free r hr (by simp [Acceptance.requestKey, RunRow.acceptance])
  · intro free r hr found
    simp only [Bool.and_eq_true, decide_eq_true_eq] at found
    obtain ⟨⟨scope, session⟩, key⟩ := found
    exact free _ (Db.mem_acceptances.2 ⟨r, hr, rfl⟩) (by
      rw [Acceptance.requestKey, RunRow.acceptance, scope, session, key])

/-- The run of a key, if there is one. -/
theorem Db.requestedRun_of_mem {db : Db} {a : Acceptance} (ha : a ∈ db.acceptances) :
    ∃ r, db.requestedRun a.scopeId a.sessionId a.idempotencyKey = some r ∧ r.acceptance = a := by
  cases h : db.requestedRun a.scopeId a.sessionId a.idempotencyKey with
  | none => exact absurd rfl (Db.requestedRun_eq_none (k := a.requestKey) |>.1 h a ha)
  | some r =>
      obtain ⟨hr, key⟩ := Db.requestedRun_eq_some h
      exact ⟨r, rfl, Db.requestKey_unique (Db.mem_acceptances.2 ⟨r, hr, rfl⟩) ha key⟩

/-! ## Stored bodies -/

/-- The run has the columns of its request, and its files hold the input and the snapshot
it was accepted with. -/
structure Acceptance.StoredAs (d : Deployment) (files : Files) (a : Acceptance)
    (request : RunRequest) (idempotencyKey fingerprint : String) (snapshot : RunSnapshot) :
    Prop where
  key : a.requestKey = request.requestKey idempotencyKey
  fingerprint : a.requestFingerprint = fingerprint
  agent : a.agentRef = request.agentRef ∧ a.executionContext = request.context
  refs : a.inputRef = .message a.sessionId a.id .user ∧
    a.configSnapshotRef = .snapshot a.sessionId a.id
  /-- The files are below one base. -/
  bodies : ∃ base,
    files.lookup (base, a.inputRef) =
      some (messagePayload d a.sessionId a.id .user request.input a.runSeq) ∧
    files.lookup (base, a.configSnapshotRef) = some (snapshotPayload snapshot)
  input : a.inputChars = request.input.length ∧
    a.inputDigest = d.sha256 (messagePayload d a.sessionId a.id .user request.input a.runSeq)
  snapshot : a.configSnapshotBytes = (snapshotPayload snapshot).length ∧
    a.configSnapshotDigest = d.sha256 (snapshotPayload snapshot)

/-- Stored bodies are never replaced. -/
theorem Acceptance.StoredAs.mono {d : Deployment} {f g : Files} {a : Acceptance}
    {request : RunRequest} {idempotencyKey fingerprint : String} {snapshot : RunSnapshot}
    (h : a.StoredAs d f request idempotencyKey fingerprint snapshot) (hfg : Files.Grows f g) :
    a.StoredAs d g request idempotencyKey fingerprint snapshot := by
  obtain ⟨base, input, frozen⟩ := h.bodies
  refine { h with bodies := ⟨base, hfg.objects _ _ ?_ input, hfg.objects _ _ ?_ frozen⟩ }
  · rw [h.refs.1]
    rfl
  · rw [h.refs.2]
    rfl

/-- What writing an object file leaves behind. -/
theorem writeObject_eq_ok {d : Deployment} {base : String} {path : ContentPath}
    {payload : List UInt8} {s t : Store} {ref : ObjectRef}
    (h : writeObject d base path payload s = .ok ref t) :
    ref = ⟨path, payload.length, d.sha256 payload⟩ ∧ t.db = s.db ∧ t.drawn = s.drawn ∧
      t.files = (s.files.writeObject d.sha256 base path payload).2 := by
  cases h
  exact ⟨rfl, rfl, rfl, rfl⟩

/-- A payload written to a new path is there afterwards. -/
theorem Files.Grows.lookup_new {d : Deployment} {f g : Files} {base : String} {path : ContentPath}
    {payload : List UInt8} (later : Grows (f.writeObject d.sha256 base path payload).2 g)
    (object : path.isLog = false) (fresh : f.lookup (base, path) = none) :
    g.lookup (base, path) = some payload :=
  later.objects _ _ object (writeObject_new d.sha256 payload fresh)

/-- A successful acceptance finds the run of its key, or adds it. -/
theorem acceptOnce_eq_ok {d : Deployment} {request : RunRequest}
    {idempotencyKey fingerprint : String} {snapshot : RunSnapshot} {rejectIfActive : Bool}
    {s t : Store} {run : AcceptedRun} (names : Files.NamesDrawn s.files s.drawn)
    (h : acceptOnce d request idempotencyKey fingerprint snapshot rejectIfActive s = .ok run t) :
    (run.reused = true ∧ t.db = s.db ∧ ∃ a ∈ s.db.acceptances, a.id = run.id ∧
      a.requestKey = request.requestKey idempotencyKey ∧ a.requestFingerprint = fingerprint) ∨
    (run.reused = false ∧ (∀ a ∈ s.db.acceptances, a.requestKey ≠ request.requestKey idempotencyKey) ∧
      ∃ a, t.db.acceptances = s.db.acceptances ++ [a] ∧ a.id = run.id ∧
        a.StoredAs d t.files request idempotencyKey fingerprint snapshot) := by
  unfold acceptOnce at h
  simp only [now_bind_eq_ok, transaction_eq_ok, getDb_bind_eq_ok] at h
  cases hreq : s.db.requestedRun request.context.scopeId request.sessionId idempotencyKey with
  | some existing =>
      simp only [hreq, ensure_bind_eq_ok, pure_eq_ok] at h
      obtain ⟨same, rfl, rfl⟩ := h
      obtain ⟨hr, key⟩ := Db.requestedRun_eq_some hreq
      exact .inl ⟨rfl, rfl, _, Db.mem_acceptances.2 ⟨existing, hr, rfl⟩, rfl, key,
        of_decide_eq_true same⟩
  | none =>
      simp only [hreq, orThrow_bind_eq_ok, fromExcept_bind_eq_ok, ensure_bind_eq_ok,
        uuid4_bind_eq_ok] at h
      obtain ⟨view, hview, -, -, -, h⟩ := h
      obtain ⟨inputRef, s₁, hinput, h⟩ := bind_eq_ok.1 h
      obtain ⟨snapshotRef, s₂, hsnapshot, h⟩ := bind_eq_ok.1 h
      obtain ⟨_, s₃, hrun, h⟩ := bind_eq_ok.1 h
      obtain ⟨e, s₄, hev, h⟩ := bind_eq_ok.1 h
      simp only [modifyDb_bind_eq_ok, pure_eq_ok] at h
      obtain ⟨rfl, rfl⟩ := h
      obtain ⟨rfl, db₁, -, files₁⟩ := writeObject_eq_ok hinput
      obtain ⟨rfl, db₂, -, files₂⟩ := writeObject_eq_ok hsnapshot
      obtain ⟨runs, hins, rfl⟩ := insertRun_eq_ok.1 hrun
      have later : Files.Grows s₂.files s₄.files :=
        ((insertEventLocked_grows _ _ _ _ _ _ _).of_ok hev).files
      obtain ⟨⟨r, ss, record⟩, -⟩ := insertEventLocked_records hev
      rw [db₂, db₁] at hins
      have added : ∀ row, s.db.runs.insert? row = some runs →
          s₄.db.acceptances = s.db.acceptances ++ [row.acceptance] := by
        intro row hrow
        refine record.acceptances.1.trans ?_
        rw [Db.acceptances, (Table.insert?_eq_some.1 hrow).2, List.map_append]
        rfl
      refine .inr ⟨rfl, Db.requestedRun_eq_none.1 hreq, _, added _ hins, rfl, rfl, rfl, ⟨rfl, rfl⟩,
        ⟨rfl, rfl⟩, ⟨view.workspace.contentBase d, ?_, ?_⟩, ⟨rfl, rfl⟩, rfl, rfl⟩
      · rw [files₂] at later
        have kept := (Files.writeObject_grows d.sha256 s₁.files (view.workspace.contentBase d)
          (.snapshot request.sessionId ⟨s.drawn⟩) (snapshotPayload snapshot)).trans later
        rw [files₁] at kept
        exact kept.lookup_new rfl (names.lookup_none rfl (Nat.le_refl _))
      · rw [files₂] at later
        refine later.lookup_new rfl ?_
        rw [files₁, Files.writeObject_lookup_ne]
        · exact names.lookup_none rfl (Nat.le_refl _)
        · intro same
          cases same

/-- An acceptance that fails leaves the tables as they were. -/
theorem acceptOnce_error {d : Deployment} {request : RunRequest}
    {idempotencyKey fingerprint : String} {snapshot : RunSnapshot} {rejectIfActive : Bool}
    {s t : Store} {error : StoreError}
    (h : acceptOnce d request idempotencyKey fingerprint snapshot rejectIfActive s = .error error t) :
    t.db = s.db := by
  unfold acceptOnce at h
  exact transaction_error_db (s := { s with ticks := s.ticks + 1 }) h

/-- A key that was used for something else is refused. -/
theorem acceptOnce_conflict {d : Deployment} {request : RunRequest}
    {idempotencyKey fingerprint : String} (snapshot : RunSnapshot) (rejectIfActive : Bool)
    {s : Store} {a : Acceptance} (ha : a ∈ s.db.acceptances)
    (key : a.requestKey = request.requestKey idempotencyKey)
    (other : a.requestFingerprint ≠ fingerprint) :
    ∃ t, acceptOnce d request idempotencyKey fingerprint snapshot rejectIfActive s =
      .error (.domain .idempotencyConflict "Key is already bound to different input") t := by
  obtain ⟨r, found, rfl⟩ := Db.requestedRun_of_mem ha
  obtain ⟨scope, session, name⟩ := RequestKey.mk.inj key
  rw [scope, session, name] at found
  have differs : decide (r.requestFingerprint = fingerprint) = false := decide_eq_false other
  refine ⟨{ s with ticks := s.ticks + 1 }, ?_⟩
  simp [acceptOnce, transaction, StoreM.now, getDb, bind, EStateM.bind, found, ensure, differs,
    throw_eq]

theorem Reachable.names {d : Deployment} {π : Discipline} {s : Store} (h : Reachable d π s) :
    Files.NamesDrawn s.files s.drawn :=
  (Steps.grown h).names fun k hk => absurd hk (AList.notMem_empty k)

/-! ## One active run -/

/-- The session of each run, and whether the run is at its end. -/
def Db.activity (db : Db) : Key → Option (Uuid × Bool) :=
  db.runs.view fun r => (r.sessionId, r.status.terminal)

theorem Db.hasActiveRun_iff {db : Db} {scopeId : String} {sessionId : Uuid} :
    db.hasActiveRun scopeId sessionId = true ↔
      ∃ id, db.activity (scopeId, id) = some (sessionId, false) := by
  simp only [hasActiveRun, List.any_eq_true, Bool.and_eq_true, decide_eq_true_eq,
    Bool.not_eq_true', activity, Table.view_eq_some]
  constructor
  · rintro ⟨r, hr, ⟨rfl, rfl⟩, active⟩
    exact ⟨r.id, r, hr, rfl, by rw [active]⟩
  · rintro ⟨id, r, hr, key, columns⟩
    obtain ⟨session, active⟩ := Prod.mk.inj columns
    exact ⟨r, hr, ⟨(Prod.mk.inj key).1, session⟩, active⟩

theorem Records.activity {d : Deployment} {f : Files} {db db' : Db} {r : RunRow}
    {s : SessionRow} {e : EventRow} (h : Records d f db r s e db') : db'.activity = db.activity := by
  obtain ⟨events, now, actor, -, rfl⟩ := h.result
  simp only [Db.activity, Db.setEventSeqs]
  rw [Table.view_updateIn_same]
  intro r
  rfl

/-- What a change does to the activity of runs: nothing, a run is accepted, or a run that
is not at its end moves on. -/
theorem Change.activity {d : Deployment} {π : Discipline} {f : Files} {n : Nat} {db db' : Db}
    (h : Change d π f n db db') :
    db'.activity = db.activity ∨
    (∃ k session, (db.hasActiveRun k.1 session = true → π.busy k.1 session) ∧
      db'.activity = Function.update db.activity k (some (session, false))) ∨
    ∃ k session ended, db.activity k = some (session, false) ∧
      db'.activity = Function.update db.activity k (some (session, ended)) := by
  cases h with
  | addWorkspace | rebind | revise | addSession | tools | pendings => exact .inl rfl
  | @accept db₁ id request s s₁ key fingerprint inputRef snapshotRef now actor runs r e known insert
      record event idle =>
      refine .inr (.inl ⟨(request.context.scopeId, id), request.sessionId, idle, ?_⟩)
      exact record.activity.trans (Table.view_insert? insert _)
  | @claim db₁ c nowIso leaseUntil scopeId id binding workerId actor attempts r s e run candidate
      claimable earlier insert record event =>
      have hrun : db.run c.run.scopeId c.run.id = some c.run := Table.getIn_of_mem run
      refine .inr (.inr ⟨(c.run.scopeId, c.run.id), c.run.sessionId, false, ?_, ?_⟩)
      · refine (Table.view_of_getIn hrun _).trans ?_
        rw [claimable.1]
        rfl
      · refine record.activity.trans ?_
        simp only [Db.activity, Db.startAttempt, Db.startRun, Db.occupyWorkspace,
          Db.occupySession, Candidate.attempt]
        rw [Table.view_updateIn_of hrun, if_pos rfl]
        rfl
  | @move db₁ row after target outcome reason outputRef outputChars error extra now actor r s e run
      change allowed extra_allowed record event =>
      have hrow : db.run row.scopeId row.id = some row := Table.getIn_of_mem run
      have active : row.status.terminal = false := by
        cases ended : row.status.terminal with
        | false => rfl
        | true =>
            have edge : after.status ∈ allowedTransitions row.status := (transition_edge change).1
            rw [allowedTransitions_terminal ended] at edge
            cases edge
      refine .inr (.inr ⟨(row.scopeId, row.id), row.sessionId, after.status.terminal, ?_, ?_⟩)
      · refine (Table.view_of_getIn hrow _).trans ?_
        rw [active]
      · have released : (if target.terminal then db₁.release row now actor else db₁).activity =
            db₁.activity := by
          split
          · simp only [Db.activity, Db.release]
            rw [Table.view_updateIn_same]
            intro r
            rfl
          · rfl
        refine (released.trans record.activity).trans ?_
        simp only [Db.activity, Db.moveRun]
        rw [Table.view_updateIn_of hrow, if_pos rfl]
        rfl
  | note record allowed => exact .inl record.activity

/-- A session has at most one run that is not at its end. -/
def Db.SingleActive (db : Db) (scopeId : String) (sessionId : Uuid) : Prop :=
  ∀ id id', db.activity (scopeId, id) = some (sessionId, false) →
    db.activity (scopeId, id') = some (sessionId, false) → id = id'

theorem Change.singleActive {d : Deployment} {π : Discipline} {f : Files} {n : Nat} {db db' : Db}
    {scopeId : String} {sessionId : Uuid} (h : Change d π f n db db')
    (polite : ¬ π.busy scopeId sessionId) (single : db.SingleActive scopeId sessionId) :
    db'.SingleActive scopeId sessionId := by
  rcases h.activity with same | ⟨k, session, idle, e⟩ | ⟨k, session, ended, known, e⟩
  · unfold Db.SingleActive
    rw [same]
    exact single
  · intro id id' hid hid'
    rw [e, Function.update_apply] at hid hid'
    -- an accepted run is the first active one of its session
    have alone : ∀ i, (scopeId, i) = k → session = sessionId →
        ∀ j, db.activity (scopeId, j) ≠ some (sessionId, false) := by
      rintro i rfl rfl j active
      exact polite (idle (Db.hasActiveRun_iff.2 ⟨j, active⟩))
    split at hid <;> split at hid'
    · rename_i hk hk'
      exact (Prod.mk.inj (hk.trans hk'.symm)).2
    · rename_i hk hk'
      exact absurd hid' (alone id hk (Prod.mk.inj (Option.some.inj hid)).1 id')
    · rename_i hk hk'
      exact absurd hid (alone id' hk' (Prod.mk.inj (Option.some.inj hid')).1 id)
    · exact single id id' hid hid'
  · intro id id' hid hid'
    have before : ∀ id, db'.activity (scopeId, id) = some (sessionId, false) →
        db.activity (scopeId, id) = some (sessionId, false) := by
      intro id active
      rw [e, Function.update_apply] at active
      split at active
      · rename_i hk
        cases active
        rw [hk, known]
      · exact active
    exact single id id' (before id hid) (before id' hid')

theorem Reachable.singleActive {d : Deployment} {π : Discipline} {s : Store}
    (h : Reachable d π s) {scopeId : String} {sessionId : Uuid}
    (polite : ¬ π.busy scopeId sessionId) : s.db.SingleActive scopeId sessionId :=
  h.db_invariant (I := fun db => db.SingleActive scopeId sessionId) (by rintro id id' ⟨⟩)
    fun c single => c.singleActive polite single

end CodeForge
