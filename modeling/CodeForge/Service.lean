import CodeForge.Lib.Interleaving
import CodeForge.Persistence.Requests

/-!
# Submitting a run

`RunService.submit` asks the store for the key of the request, resolves the skills, and
asks the store to accept the run.  These are separate steps, between which other calls
and other operations of the store take theirs.  What keeps a key from being used twice
is the look into the table inside the transaction of `accept_once`.

A `Submission` is one call with the step it is at.  `Submission.Idempotent` says what
all calls under one key, however many and in whatever order, have come to.
-/

namespace CodeForge

open Lib

/-! ## The service -/

/-- `request_fingerprint` -/
def requestFingerprint (d : Deployment) (request : RunRequest) : String :=
  fingerprintOf d (request.asDict d.uuidText)

/-- Where a call of `submit` is. -/
inductive SubmitPhase where
  /-- Before the checks of sizes and of the authorization. -/
  | checking
  /-- Before `require_session`. -/
  | requiring
  /-- Before `find_request`. -/
  | finding
  /-- Before `resolve_and_store`. -/
  | resolving
  /-- Before `accept_once`, the skills resolved. -/
  | accepting (snapshot : RunSnapshot)
  /-- Returned the run `find_request` found. -/
  | found (run : AcceptedRun)
  /-- Returned the run of `accept_once`. -/
  | accepted (run : AcceptedRun) (snapshot : RunSnapshot)
  | raised (error : StoreError)

/-- The run a call returned. -/
def SubmitPhase.result : SubmitPhase → Option AcceptedRun
  | .found run | .accepted run _ => some run
  | _ => none

/-- The call is over. -/
def SubmitPhase.ended : SubmitPhase → Bool
  | .found _ | .accepted _ _ | .raised _ => true
  | _ => false

theorem SubmitPhase.result_of_going {phase : SubmitPhase} (going : phase.ended = false) :
    phase.result = none := by
  cases phase <;> first | rfl | cases going

/-- A call of `submit`. -/
structure Submission where
  request : RunRequest
  idempotencyKey : String
  rejectIfActive : Bool
  phase : SubmitPhase := .checking

/-- What the ports of the service answer a call. -/
structure SubmitPorts where
  /-- `authorization.check` -/
  authorized : Except StoreError Unit
  /-- `resolver.resolve_and_store` -/
  resolved : Except StoreError RunSnapshot

namespace Submission

def requestKey (x : Submission) : RequestKey := x.request.requestKey x.idempotencyKey

def fingerprint (d : Deployment) (x : Submission) : String := requestFingerprint d x.request

/-- Key and input have their sizes. -/
def sized (x : Submission) : Bool :=
  1 ≤ x.idempotencyKey.length && x.idempotencyKey.length ≤ 200 &&
    1 ≤ x.request.input.length && x.request.input.length ≤ 100000

/-- The next step of a call. -/
def advance (d : Deployment) (ports : SubmitPorts) (x : Submission) (s : Store) :
    SubmitPhase × Store :=
  match x.phase with
  | .checking =>
      if x.sized then
        match ports.authorized with
        | .ok _ => (.requiring, s)
        | .error error => (.raised error, s)
      else (.raised (.domain .invalidRequest "Invalid request key or input size"), s)
  | .requiring =>
      match s.db.getSession x.request.context.scopeId x.request.sessionId with
      | some _ => (.finding, s)
      | none => (.raised (.domain .sessionNotFound "Session not found"), s)
  | .finding =>
      match s.db.findRequest x.request.context.scopeId x.request.sessionId x.idempotencyKey with
      | some existing =>
          if existing.fingerprint ≠ x.fingerprint d then
            (.raised (.domain .idempotencyConflict "Key is already bound to different input"), s)
          else (.found { existing.run with reused := true }, s)
      | none => (.resolving, s)
  | .resolving =>
      match ports.resolved with
      | .ok snapshot => (.accepting snapshot, s)
      | .error error => (.raised error, s)
  | .accepting snapshot =>
      match acceptOnce d x.request x.idempotencyKey (x.fingerprint d) snapshot x.rejectIfActive s with
      | .ok run t => (.accepted run snapshot, t)
      | .error error t => (.raised error, t)
  | phase => (phase, s)

/-- A step of a call, or a fault on the way of one. -/
inductive Step (d : Deployment) (s : Store) (x : Submission) : Store → Submission → Prop
  | advance (ports : SubmitPorts) (going : x.phase.ended = false) :
      Step d s x (x.advance d ports s).2 { x with phase := (x.advance d ports s).1 }
  /-- The tables are rolled back, what was written to files stays. -/
  | fault {t : Store} (error : StoreError) (going : x.phase.ended = false) (grown : s.Extends t)
      (rollback : t.db = s.db) : Step d s x t { x with phase := .raised error }

/-- The caller keeps to the discipline. -/
def Obeys (π : Discipline) (x : Submission) : Prop :=
  x.rejectIfActive = false → π.busy x.request.context.scopeId x.request.sessionId

/-- The run a call returned is one of its key and of its fingerprint. -/
def Knows (d : Deployment) (db : Db) (x : Submission) (run : AcceptedRun) : Prop :=
  ∃ a ∈ db.acceptances, a.id = run.id ∧ a.requestKey = x.requestKey ∧
    a.requestFingerprint = x.fingerprint d

/-- What a step of a call does: it leaves the tables alone and returns nothing, finds the run
of its key, or accepts one. -/
inductive Outcome (d : Deployment) (s : Store) (x : Submission) : Store → SubmitPhase → Prop
  | quiet {t : Store} {phase : SubmitPhase} (tables : t.db = s.db) (result : phase.result = none) :
      Outcome d s x t phase
  | reused {t : Store} {phase : SubmitPhase} {run : AcceptedRun} (tables : t.db = s.db)
      (result : phase.result = some run) (flag : run.reused = true) (known : x.Knows d s.db run) :
      Outcome d s x t phase
  | created {t : Store} {run : AcceptedRun} {snapshot : RunSnapshot} {a : Acceptance}
      (flag : run.reused = false) (fresh : ∀ b ∈ s.db.acceptances, b.requestKey ≠ x.requestKey)
      (added : t.db.acceptances = s.db.acceptances ++ [a]) (id : a.id = run.id)
      (stored : a.StoredAs d t.files x.request x.idempotencyKey (x.fingerprint d) snapshot) :
      Outcome d s x t (.accepted run snapshot)

variable {d : Deployment} {π : Discipline} {s t : Store} {x y : Submission}

theorem advance_outcome (names : Files.NamesDrawn s.files s.drawn) (ports : SubmitPorts)
    (going : x.phase.ended = false) :
    Outcome d s x (x.advance d ports s).2 (x.advance d ports s).1 := by
  cases phase : x.phase with
  | checking =>
      simp only [advance, phase]
      split
      · split <;> exact .quiet rfl rfl
      · exact .quiet rfl rfl
  | requiring =>
      simp only [advance, phase]
      split <;> exact .quiet rfl rfl
  | finding =>
      simp only [advance, phase]
      split
      · rename_i existing found
        obtain ⟨r, hr, rfl⟩ := Option.map_eq_some_iff.1 found
        obtain ⟨mem, key⟩ := Db.requestedRun_eq_some hr
        split
        · exact .quiet rfl rfl
        · rename_i same
          exact .reused rfl rfl rfl
            ⟨_, Db.mem_acceptances.2 ⟨r, mem, rfl⟩, rfl, key, not_not.1 same⟩
      · exact .quiet rfl rfl
  | resolving =>
      simp only [advance, phase]
      split <;> exact .quiet rfl rfl
  | accepting snapshot =>
      simp only [advance, phase]
      split
      · rename_i run t accepted
        rcases acceptOnce_eq_ok names accepted with
          ⟨flag, tables, known⟩ | ⟨flag, fresh, a, added, id, stored⟩
        · exact .reused tables rfl flag known
        · exact .created flag fresh added id stored
      · rename_i error t failed
        exact .quiet (acceptOnce_error failed) rfl
  | found run => simp [phase, SubmitPhase.ended] at going
  | accepted run snapshot => simp [phase, SubmitPhase.ended] at going
  | raised error => simp [phase, SubmitPhase.ended] at going

/-- A step changes nothing of a call but where it is. -/
theorem Step.same (h : x.Step d s t y) : y = { x with phase := y.phase } := by
  cases h <;> rfl

theorem Step.going (h : x.Step d s t y) : x.phase.ended = false := by
  cases h with
  | advance ports going => exact going
  | fault error going grown rollback => exact going

theorem Step.outcome (h : x.Step d s t y) (names : Files.NamesDrawn s.files s.drawn) :
    Outcome d s x t y.phase := by
  cases h with
  | advance ports going => exact advance_outcome names ports going
  | fault error going grown rollback => exact .quiet rollback rfl

/-- A step of a call is a step of the store, or none. -/
theorem Step.steps (h : x.Step d s t y) (obeys : x.Obeys π) : Steps d π s t := by
  cases h with
  | fault error going grown rollback => exact .single (.fault grown rollback)
  | advance ports going =>
      cases phase : x.phase with
      | accepting snapshot =>
          have moved : (x.advance d ports s).2 = Op.exec d (.acceptOnce x.request x.idempotencyKey
              (x.fingerprint d) snapshot x.rejectIfActive) s := by
            simp only [Submission.advance, phase, Op.exec, finalState]
            cases acceptOnce d x.request x.idempotencyKey (x.fingerprint d) snapshot
              x.rejectIfActive s <;> rfl
          rw [moved]
          exact .single (.call _ obeys)
      | _ =>
          have still : (x.advance d ports s).2 = s := by
            simp only [Submission.advance, phase]
            repeat' split
            all_goals rfl
          rw [still]

theorem Knows.mono {db db' : Db} {run : AcceptedRun} (h : x.Knows d db run)
    (later : db.acceptances <+: db'.acceptances) : x.Knows d db' run := by
  obtain ⟨a, ha, rest⟩ := h
  exact ⟨a, later.subset ha, rest⟩

/-! ## Calls under one key -/

/-- Calls of `submit`, and whatever else happens to the store but acceptances under the
key. -/
def system (d : Deployment) (π : Discipline) (k : RequestKey) (ι : Type) :
    System Store Submission ι where
  env s t := CodeForge.Step d π s t ∧ ∀ a ∈ t.db.acceptances, a.requestKey = k → a ∈ s.db.acceptances
  client _ s x t y := x.Obeys π ∧ x.Step d s t y

theorem system_steps {k : RequestKey} {ι : Type} {i : ι}
    (h : (system d π k ι).client i s x t y) : Steps d π s t := h.2.steps h.1

/-- A call on its own: it is one under the key, what it returned is known, and what it stored is
stored. -/
structure Sound (d : Deployment) (π : Discipline) (k : RequestKey) (s : Store) (x : Submission) :
    Prop where
  reach : Reachable d π s
  key : x.requestKey = k
  known : ∀ run, x.phase.result = some run → x.Knows d s.db run
  stored : ∀ run snapshot, x.phase = .accepted run snapshot → run.reused = false →
    ∃ a ∈ s.db.acceptances, a.id = run.id ∧
      a.StoredAs d s.files x.request x.idempotencyKey (x.fingerprint d) snapshot

theorem Sound.stable {k : RequestKey} (h : x.Sound d π k s) (st : Steps d π s t) :
    x.Sound d π k t where
  reach := h.reach.steps st
  key := h.key
  known run result := (h.known run result).mono st.acceptances
  stored run snapshot phase flag := by
    obtain ⟨a, ha, id, stored⟩ := h.stored run snapshot phase flag
    exact ⟨a, st.acceptances.subset ha, id, stored.mono st.grown.files⟩

theorem Sound.step {k : RequestKey} (h : x.Sound d π k s) (obeys : x.Obeys π) (st : x.Step d s t y) :
    y.Sound d π k t := by
  have later := st.steps obeys
  have outcome := st.outcome h.reach.names
  rw [st.same]
  generalize y.phase = phase at outcome ⊢
  refine ⟨h.reach.steps later, h.key, ?_, ?_⟩
  · intro run result
    cases outcome with
    | quiet tables none =>
        rw [none] at result
        cases result
    | reused tables some flag known =>
        rw [some] at result
        cases result
        exact known.mono later.acceptances
    | created flag fresh added id stored =>
        cases result
        exact ⟨_, by rw [added]; simp, id, stored.key, stored.fingerprint⟩
  · rintro run snapshot rfl flag
    cases outcome with
    | quiet tables none => cases none
    | reused tables some flag' known =>
        cases some
        rw [flag] at flag'
        cases flag'
    | created flag' fresh added id stored =>
        exact ⟨_, by rw [added]; simp, id, stored⟩

/-- The call returned a run of its own. -/
def Creates (x : Submission) : Prop := ∃ run, x.phase.result = some run ∧ run.reused = false

/-- The run of a key was made by one of the calls. -/
def Created {ι : Type} (k : RequestKey) (db : Db) (c : ι → Submission) : Prop :=
  ∀ a ∈ db.acceptances, a.requestKey = k → ∃ i, (c i).Creates ∧ ∀ j, (c j).Creates → j = i

/-- The calls that returned so far, and the run of their key. -/
structure Idempotent {ι : Type} (d : Deployment) (k : RequestKey) (s : Store)
    (c : ι → Submission) : Prop where
  /-- At most one run has the key. -/
  unique : ∀ a ∈ s.db.acceptances, ∀ b ∈ s.db.acceptances, a.requestKey = k → b.requestKey = k →
    a = b
  /-- If any call succeeded, exactly one of them made the run. -/
  creator : ∀ i run, (c i).phase.result = some run →
    ∃ j, (c j).Creates ∧ ∀ j', (c j').Creates → j' = j
  agree : ∀ i j run run', (c i).phase.result = some run → (c j).phase.result = some run' →
    run.id = run'.id ∧ (c i).fingerprint d = (c j).fingerprint d
  /-- Input and snapshot are those of the call that made the run. -/
  stored : ∀ i run snapshot, (c i).phase = .accepted run snapshot → run.reused = false →
    ∃ a ∈ s.db.acceptances, a.id = run.id ∧ a.StoredAs d s.files (c i).request
      (c i).idempotencyKey ((c i).fingerprint d) snapshot
  /-- Once the key is used for something else, both looks for it fail. -/
  conflict : ∀ i, ((c i).phase = .finding ∨ ∃ snapshot, (c i).phase = .accepting snapshot) →
    ∀ a ∈ s.db.acceptances, a.requestKey = k → a.requestFingerprint ≠ (c i).fingerprint d →
      ∀ ports, ((c i).advance d ports s).1 =
        .raised (.domain .idempotencyConflict "Key is already bound to different input")
  /-- Only a step that returns a new run touches the tables. -/
  failing : ∀ i t y, (c i).Step d s t y → ¬ y.Creates → t.db = s.db
  /-- The runs of the session are numbered from one. -/
  places : ∃ n, (s.db.acceptances.filter fun a => a.sessionKey = (k.scopeId, k.sessionId)).map
    Acceptance.runSeq = List.range' 1 n

/-- A call whose key is bound to different input fails. -/
theorem advance_conflict (looks : x.phase = .finding ∨ ∃ snapshot, x.phase = .accepting snapshot)
    {a : Acceptance} (ha : a ∈ s.db.acceptances) (key : a.requestKey = x.requestKey)
    (other : a.requestFingerprint ≠ x.fingerprint d) (ports : SubmitPorts) :
    (x.advance d ports s).1 =
      .raised (.domain .idempotencyConflict "Key is already bound to different input") := by
  rcases looks with phase | ⟨snapshot, phase⟩
  · obtain ⟨r, found, rfl⟩ := Db.requestedRun_of_mem ha
    obtain ⟨scope, session, name⟩ := RequestKey.mk.inj key
    rw [scope, session, name] at found
    have existing : s.db.findRequest x.request.context.scopeId x.request.sessionId
        x.idempotencyKey =
          some ⟨r.requestFingerprint, r.reused x.request.sessionId⟩ := by
      rw [Db.findRequest, found]
      rfl
    have differs : r.requestFingerprint ≠ x.fingerprint d := other
    simp only [advance, phase, existing]
    rw [if_pos differs]
  · obtain ⟨t, refused⟩ := acceptOnce_conflict (d := d) snapshot x.rejectIfActive ha key other
    simp only [advance, phase, refused]

theorem Step.failing (h : x.Step d s t y) (names : Files.NamesDrawn s.files s.drawn)
    (fails : ¬ y.Creates) : t.db = s.db := by
  have outcome := h.outcome names
  unfold Creates at fails
  generalize y.phase = phase at outcome fails
  cases outcome with
  | quiet tables none => exact tables
  | reused tables some flag known => exact tables
  | created flag fresh added id stored => exact absurd ⟨_, rfl, flag⟩ fails

section Calls

variable {ι : Type} [DecidableEq ι] {k : RequestKey} {c c₀ : ι → Submission} {s₀ : Store}

/-- A step of a call keeps that one call made the run. -/
theorem Created.step {i : ι} (sound : ∀ i, (c i).Sound d π k s) (created : Created k s.db c)
    (st : (c i).Step d s t y) : Created k t.db (Function.update c i y) := by
  have outcome := st.outcome (sound i).reach.names
  have idle : ¬ (c i).Creates := by
    rintro ⟨run, result, -⟩
    rw [SubmitPhase.result_of_going st.going] at result
    cases result
  -- a step that makes no run leaves it to the calls that did
  have kept : t.db = s.db → ¬ y.Creates → Created k t.db (Function.update c i y) := by
    intro tables quiet a ha key
    have same : ∀ j, (Function.update c i y j).Creates ↔ (c j).Creates := by
      intro j
      by_cases hj : j = i
      · subst hj
        rw [Function.update_self]
        exact iff_of_false quiet idle
      · rw [Function.update_of_ne hj]
    obtain ⟨j, creates, only⟩ := created a (tables ▸ ha) key
    exact ⟨j, (same j).2 creates, fun j' h => only j' ((same j').1 h)⟩
  by_cases creates : y.Creates
  · have fresh : ∀ b ∈ s.db.acceptances, b.requestKey ≠ k := by
      obtain ⟨run, result, flag⟩ := creates
      rw [← (sound i).key]
      generalize y.phase = phase at outcome result
      cases outcome with
      | quiet tables none =>
          rw [none] at result
          cases result
      | reused tables some flag' known =>
          rw [some] at result
          cases result
          rw [flag] at flag'
          cases flag'
      | created flag' fresh added id stored => exact fresh
    intro a ha key
    refine ⟨i, by rw [Function.update_self]; exact creates, fun j hj => ?_⟩
    by_contra hne
    rw [Function.update_of_ne hne] at hj
    obtain ⟨run, result, -⟩ := hj
    obtain ⟨b, hb, -, hkey, -⟩ := (sound j).known run result
    exact fresh b hb (hkey.trans (sound j).key)
  · exact kept (st.failing (sound i).reach.names creates) creates

/-- All calls of a run are sound, and the run of their key was made by one of them. -/
theorem run_created (reach : Reachable d π s₀) (new : ∀ a ∈ s₀.db.acceptances, a.requestKey ≠ k)
    (calls : ∀ i, (c₀ i).requestKey = k ∧ (c₀ i).phase = .checking)
    (run : (system d π k ι).Run (s₀, c₀) (s, c)) :
    (∀ i, (c i).Sound d π k s) ∧ Created k s.db c := by
  refine run.invariant (I := fun s c => (∀ i, (c i).Sound d π k s) ∧ Created k s.db c) ?_ ?_ ?_
  · rintro s t c ⟨st, foreign⟩ ⟨sound, created⟩
    exact ⟨fun i => (sound i).stable (.single st), fun a ha key => created a (foreign a ha key) key⟩
  · rintro s t c y i ⟨obeys, st⟩ ⟨sound, created⟩
    refine ⟨fun j => ?_, created.step sound st⟩
    by_cases hj : j = i
    · subst hj
      rw [Function.update_self]
      exact (sound j).step obeys st
    · rw [Function.update_of_ne hj]
      exact (sound j).stable (st.steps obeys)
  · refine ⟨fun i => ?_, fun a ha key => absurd key (new a ha)⟩
    obtain ⟨key, phase⟩ := calls i
    refine ⟨reach, key, ?_, ?_⟩
    · intro run result
      rw [phase] at result
      cases result
    · intro run snapshot accepted
      rw [phase] at accepted
      cases accepted

theorem run_steps (run : (system d π k ι).Run (s₀, c₀) (s, c)) : Steps d π s₀ s := by
  refine System.Run.shared ?_ ?_ run
  · rintro s t ⟨st, -⟩
    exact .single st
  · intro i s x t y h
    exact system_steps h

/-- Any number of calls under one key, in any order: one run, made by one of them. -/
theorem idempotent (reach : Reachable d π s₀) (new : ∀ a ∈ s₀.db.acceptances, a.requestKey ≠ k)
    (calls : ∀ i, (c₀ i).requestKey = k ∧ (c₀ i).phase = .checking)
    (run : (system d π k ι).Run (s₀, c₀) (s, c)) :
    Idempotent d k s c ∧
      (¬ π.busy k.scopeId k.sessionId → s.db.SingleActive k.scopeId k.sessionId) := by
  obtain ⟨sound, created⟩ := run_created reach new calls run
  have reach' := reach.steps (run_steps run)
  have unique : ∀ a ∈ s.db.acceptances, ∀ b ∈ s.db.acceptances, a.requestKey = k →
      b.requestKey = k → a = b := fun a ha b hb keyA keyB =>
    Db.requestKey_unique ha hb (keyA.trans keyB.symm)
  refine ⟨⟨unique, ?_, ?_, fun i => (sound i).stored, ?_, ?_, ?_⟩, reach'.singleActive⟩
  · intro i run result
    obtain ⟨a, ha, -, key, -⟩ := (sound i).known run result
    exact created a ha (key.trans (sound i).key)
  · intro i j run run' result result'
    obtain ⟨a, ha, id, key, same⟩ := (sound i).known run result
    obtain ⟨b, hb, id', key', same'⟩ := (sound j).known run' result'
    cases unique a ha b hb (key.trans (sound i).key) (key'.trans (sound j).key)
    exact ⟨id.symm.trans id', same.symm.trans same'⟩
  · intro i looks a ha key other ports
    exact advance_conflict looks ha (key.trans (sound i).key.symm) other ports
  · intro i t y st fails
    exact st.failing reach'.names fails
  · exact reach'.placed.range _

/-- Let the call take its next step, if it has one. -/
def proceed (d : Deployment) (ports : SubmitPorts) (a : Store × (ι → Submission)) (i : ι) :
    Store × (ι → Submission) :=
  if (a.2 i).phase.ended then a
  else
    let moved := (a.2 i).advance d ports a.1
    (moved.2, Function.update a.2 i { a.2 i with phase := moved.1 })

theorem proceed_run (k : RequestKey) (ports : SubmitPorts) (order : List ι)
    (a : Store × (ι → Submission)) (obeys : ∀ i, (a.2 i).Obeys π) :
    (system d π k ι).Run a (order.foldl (proceed d ports) a) := by
  induction order generalizing a with
  | nil => exact .refl
  | cons i order ih =>
      by_cases ended : (a.2 i).phase.ended = true
      · have still : proceed d ports a i = a := if_pos ended
        rw [List.foldl_cons, still]
        exact ih a obeys
      · have going : (a.2 i).phase.ended = false := by simpa using ended
        have moves : proceed d ports a i = (((a.2 i).advance d ports a.1).2,
            Function.update a.2 i { a.2 i with phase := ((a.2 i).advance d ports a.1).1 }) :=
          if_neg ended
        rw [List.foldl_cons]
        refine .head ?_ (ih _ ?_)
        · rw [moves]
          exact .client i ⟨obeys i, .advance ports going⟩
        · intro j
          rw [moves]
          dsimp only
          by_cases hj : j = i
          · subst hj
            rw [Function.update_self]
            exact obeys j
          · rw [Function.update_of_ne hj]
            exact obeys j

end Calls

end Submission

/-- The ports let the message pass. -/
def SubmitPorts.plain : SubmitPorts where
  authorized := .ok ()
  resolved := .ok
    { agentDigest := "general@1", runtimeRef := "runtime@1", modelProfileRef := "model@1",
      executionProfileRef := "local@1", skills := [], toolRefs := [] }

namespace Submission

/-- A message of a user, to be sent once. -/
def first : Submission where
  request := { sessionId := ⟨0⟩, input := "hello", context := { scopeId := "ada" } }
  idempotencyKey := "m"
  rejectIfActive := true

/-- The session the message is for. -/
def opened : Store :=
  Op.execAll .plain [.createSession "ada" "s" "Session" none { scopeId := "ada" }] {}

/-- Two calls that both find no run, and then both ask for one. -/
def race : Store × (Bool → Submission) :=
  [true, true, true, true, false, false, false, false, true, false].foldl (proceed .plain .plain)
    (opened, fun _ => first)

/-- The first makes the run, the second is given it. -/
theorem idempotent_race :
    (race.2 true).phase.result = some ⟨⟨2⟩, ⟨0⟩, .queued, 0, false⟩ ∧
      (race.2 false).phase.result = some ⟨⟨2⟩, ⟨0⟩, .queued, 0, true⟩ ∧
      Idempotent .plain first.requestKey race.1 race.2 ∧ race.1.db.SingleActive "ada" ⟨0⟩ := by
  let π : Discipline := { busy := fun _ _ => False }
  have reach : Reachable .plain π opened := by
    refine .execAll fun op hop => ?_
    rw [List.mem_singleton.1 hop]
    exact fun _ _ => trivial
  have new : ∀ a ∈ opened.db.acceptances, a.requestKey ≠ first.requestKey := by
    have empty : opened.db.acceptances.length = 0 := by decide +kernel
    intro a ha
    rw [List.length_eq_zero_iff.1 empty] at ha
    cases ha
  have run : (system .plain π first.requestKey Bool).Run (opened, fun _ => first) race :=
    proceed_run _ _ _ _ fun _ h => Bool.noConfusion h
  have results : [true, false].map (fun i => (race.2 i).phase.result) =
      [some ⟨⟨2⟩, ⟨0⟩, .queued, 0, false⟩, some ⟨⟨2⟩, ⟨0⟩, .queued, 0, true⟩] := by decide +kernel
  generalize race = r at run results ⊢
  generalize opened = s at reach new run
  have holds := idempotent reach new (fun _ => ⟨rfl, rfl⟩) run
  simp only [List.map_cons, List.map_nil, List.cons.injEq] at results
  exact ⟨results.1, results.2.1, holds.1, holds.2 id⟩

end Submission

end CodeForge
