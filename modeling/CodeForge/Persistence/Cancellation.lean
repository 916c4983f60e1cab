import CodeForge.Lib.Interleaving
import CodeForge.Persistence.Lifecycle
import CodeForge.Persistence.Transitions

/-!
# Calls of `cancel_run` beside each other

A call of `cancel_run` reads the state of the run, asks for `CANCELLING` in one
transaction, reads the run again and, for a run it had found in the queue, asks for
`CANCELLED` in a second one.  Between these steps workers and other calls go on.

Whatever they do, the request to cancel a run is recorded once at most, and a call that
returns has seen the run cancelling or at its end.  A call raises an error exactly if it is
disturbed: if the version of the run changed between its first read and its first
transaction, or the run was finished by someone else between its two transactions
(`CancelCall.settles`).
-/

namespace CodeForge

open Lib StoreM

/-! ## A call -/

/-- Where a call is. -/
inductive CancelPhase where
  /-- About to read the state of the run. -/
  | reading
  /-- There is nothing to cancel; about to read the run for the answer. -/
  | settled
  /-- About to ask for `CANCELLING`. -/
  | requesting (state : RunState)
  /-- Asked for; about to read the run. -/
  | requested (state : RunState)
  /-- About to ask for `CANCELLED`. -/
  | closing (version : Nat)
  /-- Asked for; about to read the run. -/
  | closed
  | returned (run : Option RunRow)
  | raised (error : StoreError)

def CancelPhase.ended : CancelPhase → Bool
  | .returned _ | .raised _ => true
  | _ => false

/-- A call of `cancel_run`. -/
structure CancelCall where
  scopeId : String
  runId : Uuid
  actorRef : Option String := none
  phase : CancelPhase := .reading

/-- The run is being cancelled or at its end. -/
def RunStatus.settled (status : RunStatus) : Bool := status.terminal || status = .cancelling

namespace CancelCall

def key (x : CancelCall) : Key := (x.scopeId, x.runId)

def actor (x : CancelCall) : String := textOr x.actorRef "system:runtime/api"

/-- The next step of a call. -/
def advance (d : Deployment) (x : CancelCall) (s : Store) : CancelPhase × Store :=
  match x.phase with
  | .reading =>
      match s.db.run x.scopeId x.runId with
      | some row => if row.status.settled then (.settled, s) else (.requesting row.state, s)
      | none => (.raised (.domain .runNotFound "Run not found"), s)
  | .settled => (.returned (s.db.run x.scopeId x.runId), s)
  | .requesting state =>
      match transitionRun d x.scopeId x.runId state.stateVersion .cancelling {} (some x.actor) s with
      | .ok _ t => (.requested state, t)
      | .error error t => (.raised error, t)
  | .requested state =>
      match s.db.run x.scopeId x.runId with
      | some row =>
          if state.status = .queued then (.closing row.stateVersion, s) else (.returned row, s)
      | none => (.raised (.domain .runNotFound "Run not found"), s)
  | .closing version =>
      match transitionRun d x.scopeId x.runId version .cancelled {} (some x.actor) s with
      | .ok _ t => (.closed, t)
      | .error error t => (.raised error, t)
  | .closed => (.returned (s.db.run x.scopeId x.runId), s)
  | phase => (phase, s)

/-- The next step of a call that has one. -/
def move (d : Deployment) (s : Store) (x : CancelCall) : Option (Store × CancelCall) :=
  if x.phase.ended then none
  else some ((x.advance d s).2, { x with phase := (x.advance d s).1 })

/-- Calls of `cancel_run`, and whatever else happens to the store. -/
def system (d : Deployment) (π : Discipline) (ι : Type) : System Store CancelCall ι where
  env := CodeForge.Step d π
  client _ s x t y := x.move d s = some (t, y)

/-- Nothing came between the step of a call and the read it relies on: its first transaction
finds the version that was read, its second a run that is still being cancelled. -/
def Undisturbed (s : Store) (x : CancelCall) : Prop :=
  match x.phase with
  | .requesting state =>
      ∀ row ∈ s.db.run x.scopeId x.runId, row.stateVersion = state.stateVersion
  | .closing _ => ∀ row ∈ s.db.run x.scopeId x.runId, row.status = .cancelling
  | _ => True

instance (s : Store) (x : CancelCall) : Decidable (x.Undisturbed s) := by
  unfold Undisturbed
  split <;> infer_instance

end CancelCall

/-! ## Paths of the state machine -/

theorem RunStatus.not_settled {status : RunStatus} (h : status.settled = false) :
    RunStatus.cancelling ∈ allowedTransitions status := by
  cases status with
  | queued | running | waitingUser | waitingExternal | recovering => decide
  | cancelling | succeeded | failed | cancelled | timedOut => cases h

theorem Advances.settled {a b : RunStatus × Nat} (h : Advances a b) (settled : a.1.settled = true) :
    b.1 = .cancelled := by
  obtain ⟨edge, -⟩ := h
  generalize a.1 = status at edge settled
  cases status with
  | cancelling => exact List.mem_singleton.1 edge
  | succeeded | failed | cancelled | timedOut => cases edge
  | queued | running | waitingUser | waitingExternal | recovering => cases settled

section Paths

variable {a b : RunStatus × Nat}

theorem version_le_of_path (path : Relation.ReflTransGen Advances a b) : a.2 ≤ b.2 := by
  induction path with
  | refl => exact Nat.le_refl _
  | tail _ step ih =>
      have := step.2
      omega

/-- A run at the version it had is where it was. -/
theorem eq_of_version (path : Relation.ReflTransGen Advances a b) (same : b.2 = a.2) : b = a := by
  cases path with
  | refl => rfl
  | tail path step =>
      have := version_le_of_path path
      have := step.2
      omega

theorem settled_of_path (path : Relation.ReflTransGen Advances a b)
    (settled : a.1.settled = true) : b.1.settled = true := by
  induction path with
  | refl => exact settled
  | tail _ step ih => rw [step.settled ih]; rfl

/-- A run that is being cancelled was not at its end before. -/
theorem eq_of_cancelling (path : Relation.ReflTransGen Advances a b)
    (settled : a.1.settled = true) (cancelling : b.1 = .cancelling) : b = a := by
  cases path with
  | refl => rfl
  | tail path step =>
      rw [step.settled (settled_of_path path settled)] at cancelling
      cases cancelling

end Paths

/-! ## One request for each run -/

/-- The requests to cancel a run that were recorded. -/
def Db.cancelRequests (db : Db) (k : Key) : List EventRow :=
  db.events.rows.filter fun e => e.runKey = k && e.type = .runCancelRequested

/-- A run has one request once it is being cancelled, none before. -/
def Db.RequestedOnce (db : Db) : Prop :=
  ∀ k, db.cancelRequests k = [] ∨ (db.cancelRequests k).length = 1 ∧
    ∃ a, db.statuses k = some a ∧ (a.1 = .cancelling ∨ a.1 = .cancelled)

theorem announcedBy_cancelRequested {status : RunStatus} :
    announcedBy status = .runCancelRequested ↔ status = .cancelling := by
  cases status <;> decide

theorem Db.cancelRequests_append {db db' : Db} {new : List EventRow}
    (events : db'.events.rows = db.events.rows ++ new)
    (other : ∀ e ∈ new, e.type ≠ .runCancelRequested) (k : Key) :
    db'.cancelRequests k = db.cancelRequests k := by
  have none : (new.filter fun e => e.runKey = k && e.type = .runCancelRequested) = [] := by
    rw [List.filter_eq_nil_iff]
    intro e he counted
    rw [Bool.and_eq_true, decide_eq_true_eq, decide_eq_true_eq] at counted
    exact other e he counted.2
  rw [cancelRequests, events, List.filter_append, none, List.append_nil]
  rfl

theorem Db.Moves.requestedOnce {π : Discipline} {db db' : Db} (h : db.Moves π db')
    (hevent : ¬ π.event .runCancelRequested) (once : db.RequestedOnce) : db'.RequestedOnce := by
  intro k
  cases h with
  | still statuses events quiet =>
      have other := Db.cancelRequests_append events (fun e he type => by
        have := quiet e he (by rw [type]; rfl)
        rw [type] at this
        exact hevent this) k
      rw [other, statuses]
      exact once k
  | @accepted e fresh type statuses events =>
      have other := Db.cancelRequests_append events (fun e' he' => by
        rw [List.mem_singleton.1 he', type]
        decide) k
      rw [other]
      rcases once k with none | ⟨one, a, known, status⟩
      · exact .inl none
      · refine .inr ⟨one, a, ?_, status⟩
        rw [statuses, Function.update_of_ne, known]
        rintro rfl
        rw [fresh] at known
        cases known
  | @moved e a b known edge type statuses events =>
      by_cases requested : b.1 = .cancelling
      · by_cases same : k = e.runKey
        · -- the first request of the run, which was not settled before
          subst same
          have request := type.trans (announcedBy_cancelRequested.2 requested)
          have counted : db'.cancelRequests e.runKey = db.cancelRequests e.runKey ++ [e] := by
            rw [Db.cancelRequests, events, List.filter_append]
            simp [Db.cancelRequests, request]
          rcases once e.runKey with none | ⟨-, a', known', status⟩
          · refine .inr ⟨by rw [counted, none]; rfl, b, ?_, .inl requested⟩
            rw [statuses, Function.update_self]
          · rw [known] at known'
            cases known'
            have settled : a.1.settled = true := by
              rcases status with h | h <;> rw [h] <;> rfl
            rw [edge.settled settled] at requested
            cases requested
        · have other : db'.cancelRequests k = db.cancelRequests k := by
            rw [Db.cancelRequests, events, List.filter_append]
            simp [Db.cancelRequests, Ne.symm same]
          rw [other, statuses, Function.update_of_ne same]
          exact once k
      · have other := Db.cancelRequests_append events (fun e' he' => by
          rw [List.mem_singleton.1 he', type]
          exact fun h => requested (announcedBy_cancelRequested.1 h)) k
        rw [other]
        rcases once k with none | ⟨one, a', known', status⟩
        · exact .inl none
        · refine .inr ⟨one, ?_⟩
          rw [statuses]
          by_cases same : k = e.runKey
          · subst same
            rw [known] at known'
            cases known'
            have settled : a.1.settled = true := by
              rcases status with h | h <;> rw [h] <;> rfl
            exact ⟨b, Function.update_self .., .inr (edge.settled settled)⟩
          · exact ⟨a', by rw [Function.update_of_ne same, known'], status⟩

variable {d : Deployment} {π : Discipline}

theorem Reachable.requestedOnce {s : Store} (h : Reachable d π s)
    (hevent : ¬ π.event .runCancelRequested) : s.db.RequestedOnce :=
  h.db_invariant (fun _ => .inl rfl) fun c once => c.moves.requestedOnce hevent once

/-! ## What a call knows -/

theorem Db.statuses_of_run {db : Db} {scopeId : String} {runId : Uuid} {row : RunRow}
    (run : db.run scopeId runId = some row) :
    db.statuses (scopeId, runId) = some (row.status, row.stateVersion) :=
  Table.view_of_getIn run _

theorem Db.run_of_statuses {db : Db} {scopeId : String} {runId : Uuid} {a : RunStatus × Nat}
    (h : db.statuses (scopeId, runId) = some a) :
    ∃ row, db.run scopeId runId = some row ∧ (row.status, row.stateVersion) = a := by
  obtain ⟨row, hrow, key, value⟩ := Table.view_eq_some.1 h
  obtain ⟨scope, id⟩ := Prod.mk.inj key
  exact ⟨row, Db.run_eq_some.2 ⟨hrow, scope, id⟩, value⟩

/-- The run is in its new status after a change of status. -/
theorem transitionRun_statuses {scopeId : String} {runId : Uuid} {expectedVersion : Nat}
    {target : RunStatus} {args : TransitionArgs} {actorRef : Option String} {o : Option RunRow}
    {s t : Store}
    (h : transitionRun d scopeId runId expectedVersion target args actorRef s = .ok o t) :
    t.db.statuses (scopeId, runId) = some (target, expectedVersion + 1) := by
  obtain ⟨row, after, e, -, change, states, -⟩ := transitionRun_spec h
  obtain ⟨version, -, -, -, rfl⟩ := transition_eq_ok.1 change
  obtain ⟨row', found, key, value⟩ := Table.view_eq_some.1
    ((congrFun states (scopeId, runId)).trans (Function.update_self ..))
  refine Table.view_eq_some.2 ⟨row', found, key, ?_⟩
  have status := congrArg RunState.status value
  have version' := congrArg RunState.stateVersion value
  rw [← version]
  exact Prod.ext status version'

namespace CancelCall

variable {s t : Store} {x y : CancelCall}

/-- What a call has seen of its run, at each of its steps. -/
def Expects (db : Db) (x : CancelCall) : Prop :=
  ∃ a, db.statuses x.key = some a ∧
    match x.phase with
    | .reading => True
    | .settled | .requested _ | .closed => a.1.settled = true
    | .requesting state => state.status.settled = false ∧
        Relation.ReflTransGen Advances (state.status, state.stateVersion) a
    | .closing version => a.1.settled = true ∧ (a.1 = .cancelling → a.2 = version)
    | .returned run => ∃ row, run = some row ∧ row.status.settled = true
    | .raised _ => True

/-- What others do to the run leaves it so. -/
theorem Expects.stable (h : x.Expects s.db) (st : Steps d π s t) : x.Expects t.db := by
  obtain ⟨a, known, seen⟩ := h
  obtain ⟨b, now, path⟩ := st.statuses known
  refine ⟨b, now, ?_⟩
  cases phase : x.phase with
  | reading => trivial
  | raised error => trivial
  | returned run =>
      rw [phase] at seen
      exact seen
  | settled | requested state | closed =>
      rw [phase] at seen
      exact settled_of_path path seen
  | requesting state =>
      rw [phase] at seen
      exact ⟨seen.1, seen.2.trans path⟩
  | closing version =>
      rw [phase] at seen
      refine ⟨settled_of_path path seen.1, fun cancelling => ?_⟩
      have same := eq_of_cancelling path seen.1 cancelling
      rw [same] at cancelling ⊢
      exact seen.2 cancelling

/-- A transaction of a call is one of the store. -/
theorem asks_steps (d : Deployment) {target : RunStatus} (allowed : π.target target)
    (x : CancelCall) (version : Nat) (s : Store) :
    Steps d π s (finalState
      (transitionRun d x.scopeId x.runId version target {} (some x.actor)) s) :=
  .single (.call (.transitionRun x.scopeId x.runId version target {} (some x.actor))
    ⟨allowed, π.extra_nil⟩)

/-- The steps of a call are steps of the store. -/
theorem advance_steps (cancelling : π.target .cancelling) (cancelled : π.target .cancelled)
    (x : CancelCall) (s : Store) : Steps d π s (x.advance d s).2 := by
  cases phase : x.phase with
  | reading =>
      simp only [advance, phase]
      split
      · split <;> exact .refl
      · exact .refl
  | settled | closed | returned run | raised error =>
      simp only [advance, phase]
      exact .refl
  | requested state =>
      simp only [advance, phase]
      split
      · split <;> exact .refl
      · exact .refl
  | requesting state =>
      have st := asks_steps d cancelling x state.stateVersion s
      simp only [advance, phase]
      split
      · rename_i ended
        rwa [finalState_of_ok ended] at st
      · rename_i ended
        rwa [finalState_of_error ended] at st
  | closing version =>
      have st := asks_steps d cancelled x version s
      simp only [advance, phase]
      split
      · rename_i ended
        rwa [finalState_of_ok ended] at st
      · rename_i ended
        rwa [finalState_of_error ended] at st

/-- A step of a call tells it what it expects next. -/
theorem Expects.advance (h : x.Expects s.db) :
    { x with phase := (x.advance d s).1 }.Expects (x.advance d s).2.db := by
  obtain ⟨a, known, seen⟩ := h
  obtain ⟨row, run, rfl⟩ := Db.run_of_statuses known
  cases phase : x.phase with
  | reading =>
      simp only [CancelCall.advance, phase, run]
      split
      · rename_i settled
        exact ⟨_, known, settled⟩
      · rename_i settled
        exact ⟨_, known, Bool.eq_false_iff.2 settled, .refl⟩
  | settled | closed =>
      rw [phase] at seen
      simp only [CancelCall.advance, phase, run]
      exact ⟨_, known, row, rfl, seen⟩
  | requested state =>
      rw [phase] at seen
      simp only [CancelCall.advance, phase, run]
      split
      · exact ⟨_, known, seen, fun _ => rfl⟩
      · exact ⟨_, known, row, rfl, seen⟩
  | requesting state =>
      simp only [CancelCall.advance, phase]
      split
      · rename_i ended
        exact ⟨_, transitionRun_statuses ended, rfl⟩
      · rename_i ended
        exact ⟨_, by rw [transaction_error_db ended]; exact known, trivial⟩
  | closing version =>
      simp only [CancelCall.advance, phase]
      split
      · rename_i ended
        exact ⟨_, transitionRun_statuses ended, rfl⟩
      · rename_i ended
        exact ⟨_, by rw [transaction_error_db ended]; exact known, trivial⟩
  | returned run =>
      rw [phase] at seen
      simp only [CancelCall.advance, phase]
      exact ⟨_, known, seen⟩
  | raised error =>
      simp only [CancelCall.advance, phase]
      exact ⟨_, known, trivial⟩

/-- A step that is not disturbed goes on, a disturbed one raises. -/
theorem Expects.raises (h : x.Expects s.db) (ready : s.db.Ready s.drawn)
    (going : x.phase.ended = false) :
    (∃ error, (x.advance d s).1 = .raised error) ↔ ¬ x.Undisturbed s := by
  obtain ⟨a, known, seen⟩ := h
  obtain ⟨row, run, rfl⟩ := Db.run_of_statuses known
  -- the phase after a transaction tells how it ended
  have asked : ∀ {version : Nat} {target : RunStatus} {next : CancelPhase},
      (∀ error, next ≠ .raised error) →
      ((∃ error, (match transitionRun d x.scopeId x.runId version target {} (some x.actor) s with
        | .ok _ t => (next, t)
        | .error error t => (CancelPhase.raised error, t)).1 = .raised error) ↔
      ∃ error t, transitionRun d x.scopeId x.runId version target {} (some x.actor) s =
        .error error t) := by
    intro version target next going
    cases transitionRun d x.scopeId x.runId version target {} (some x.actor) s with
    | ok o t => exact iff_of_false (fun ⟨error, same⟩ => going error same) (by simp)
    | error error t => exact iff_of_true ⟨error, rfl⟩ ⟨error, t, rfl⟩
  cases phase : x.phase with
  | reading =>
      simp only [CancelCall.advance, Undisturbed, phase, run]
      split <;> simp
  | settled | closed => simp [CancelCall.advance, Undisturbed, phase]
  | requested state =>
      simp only [CancelCall.advance, Undisturbed, phase, run]
      split <;> simp
  | requesting state =>
      rw [phase] at seen
      simp only [CancelCall.advance, Undisturbed, phase, run, Option.mem_def, Option.some.injEq,
        forall_eq']
      rw [asked (fun error => CancelPhase.noConfusion), transitionRun_fails_iff ready run,
        transition_permits (by decide) rfl]
      refine not_congr ⟨fun permitted => permitted.1, fun same => ⟨same, ?_⟩⟩
      have unmoved := congrArg Prod.fst (eq_of_version seen.2 same)
      rw [show row.state.status = state.status from unmoved]
      exact RunStatus.not_settled seen.1
  | closing version =>
      rw [phase] at seen
      simp only [CancelCall.advance, Undisturbed, phase, run, Option.mem_def, Option.some.injEq,
        forall_eq']
      rw [asked (fun error => CancelPhase.noConfusion), transitionRun_fails_iff ready run,
        transition_permits (by decide) rfl]
      refine not_congr ⟨fun permitted => ?_, fun cancelling => ⟨seen.2 cancelling, ?_⟩⟩
      · have edge : RunStatus.cancelled ∈ allowedTransitions row.status := permitted.2
        have settled : row.status.settled = true := seen.1
        generalize row.status = status at edge settled
        cases status with
        | cancelling => rfl
        | succeeded | failed | cancelled | timedOut => cases edge
        | queued | running | waitingUser | waitingExternal | recovering => cases settled
      · rw [show row.state.status = .cancelling from cancelling]
        exact List.mem_singleton_self _
  | returned run => simp [phase, CancelPhase.ended] at going
  | raised error => simp [phase, CancelPhase.ended] at going

/-! ## Racing calls -/

/-- What holds of calls that race: each run has one request at most, a call that returned has
seen the run cancelling or at its end, and a call raises where it is disturbed only. -/
structure Idempotent {ι : Type} (d : Deployment) (s : Store) (c : ι → CancelCall) : Prop where
  once : ∀ r ∈ s.db.runs, (s.db.cancelRequests (r.scopeId, r.id)).length ≤ 1
  answers : ∀ i run, (c i).phase = .returned run →
    ∃ row, run = some row ∧ (row.status = .cancelling ∨ row.status.terminal = true)
  raises : ∀ i, (c i).phase.ended = false →
    ((∃ error, ((c i).advance d s).1 = .raised error) ↔ ¬ (c i).Undisturbed s)

section Calls

variable {ι : Type} [DecidableEq ι] {s₀ : Store} {c₀ c : ι → CancelCall}

theorem move_eq_some (h : x.move d s = some (t, y)) :
    x.phase.ended = false ∧ t = (x.advance d s).2 ∧ y = { x with phase := (x.advance d s).1 } := by
  unfold move at h
  split at h
  · cases h
  · rename_i going
    cases h
    exact ⟨by simpa using going, rfl, rfl⟩

/-- Calls of `cancel_run` on runs that are there, in any order with each other and with whatever
else happens: they keep to what they promise, and in a run in which no step of a call is disturbed,
no call raises an error. -/
theorem settles (hevent : ¬ π.event .runCancelRequested) (cancelling : π.target .cancelling)
    (cancelled : π.target .cancelled) (reach : Reachable d π s₀)
    (calls : ∀ i, (c₀ i).phase = .reading ∧
      ∃ row, s₀.db.run (c₀ i).scopeId (c₀ i).runId = some row) :
    (∀ {s c}, (system d π ι).Run (s₀, c₀) (s, c) → Idempotent d s c) ∧
      ∀ {s c}, ((system d π ι).guarded Undisturbed).Run (s₀, c₀) (s, c) →
        ∀ i error, (c i).phase ≠ .raised error := by
  have begins : ∀ i, (c₀ i).Expects s₀.db := by
    intro i
    obtain ⟨phase, row, run⟩ := calls i
    exact ⟨_, Db.statuses_of_run run, by rw [phase]; trivial⟩
  have moves : ∀ {s t : Store} {x y : CancelCall}, x.move d s = some (t, y) → Steps d π s t := by
    intro s t x y move
    obtain ⟨-, rfl, -⟩ := move_eq_some move
    exact advance_steps cancelling cancelled x s
  constructor
  · intro s c run
    have st : Steps d π s₀ s := by
      refine System.Run.shared ?_ ?_ run
      · intro s t step
        exact .single step
      · intro i s x t y move
        exact moves move
    have knows : ∀ i, (c i).Expects s.db := by
      refine run.rely (R := CodeForge.Step d π) (I := fun _ s x => x.Expects s.db) ?_ ?_ ?_ ?_ begins
      · intro s t step
        exact .single step
      · intro i s x t y move
        exact moves move
      · intro i s t x st h
        exact h.stable st
      · intro i s x t y move h
        obtain ⟨-, rfl, rfl⟩ := move_eq_some move
        exact h.advance
    have reach' := reach.steps st
    refine ⟨?_, ?_, fun i going => (knows i).raises reach'.ready going⟩
    · intro r hr
      rcases reach'.requestedOnce hevent (r.scopeId, r.id) with none | ⟨one, -⟩
      · rw [none]
        exact Nat.zero_le _
      · exact Nat.le_of_eq one
    · intro i run phase
      obtain ⟨a, -, seen⟩ := knows i
      rw [phase] at seen
      obtain ⟨row, same, settled⟩ := seen
      refine ⟨row, same, ?_⟩
      rcases Bool.or_eq_true_iff.1 settled with terminal | still
      · exact .inr terminal
      · exact .inl (of_decide_eq_true still)
  · intro s c run
    have calm : ∀ i, Reachable d π s ∧ (c i).Expects s.db ∧ ∀ error, (c i).phase ≠ .raised error := by
      refine run.rely (R := CodeForge.Step d π)
        (I := fun _ s x => Reachable d π s ∧ x.Expects s.db ∧ ∀ error, x.phase ≠ .raised error)
        ?_ ?_ ?_ ?_ ?_
      · intro s t step
        exact .single step
      · intro i s x t y step
        exact moves step.2
      · intro i s t x st h
        exact ⟨h.1.steps st, h.2.1.stable st, h.2.2⟩
      · intro i s x t y step h
        obtain ⟨undisturbed, move⟩ := step
        obtain ⟨going, rfl, rfl⟩ := move_eq_some move
        refine ⟨h.1.steps (advance_steps cancelling cancelled x s), h.2.1.advance, ?_⟩
        intro error raised
        exact (h.2.1.raises h.1.ready going).1 ⟨error, raised⟩ undisturbed
      · intro i
        refine ⟨reach, begins i, fun error => ?_⟩
        rw [(calls i).1]
        exact CancelPhase.noConfusion
    exact fun i => (calm i).2.2

end Calls

/-- A call that cancels the run of the first claim. -/
def first : CancelCall := { scopeId := "ada", runId := ⟨2⟩ }

/-- The store after the first claim. -/
def claimed : Store := Op.execAll .plain Op.firstClaim {}

theorem claimed_reachable : Reachable .plain .callers claimed :=
  .execAll (Op.firstClaim_obeys trivial trivial)

/-- The status of the run a call returned. -/
def answer (x : CancelCall) : Option RunStatus :=
  match x.phase with
  | .returned run => run.map RunRow.status
  | _ => none

/-- The error a call raised. -/
def failure (x : CancelCall) : Option StoreError :=
  match x.phase with
  | .raised error => some error
  | _ => none

/-- A step of a call that is not disturbed. -/
def calmMove (s : Store) (x : CancelCall) : Option (Store × CancelCall) :=
  if x.Undisturbed s then x.move .plain s else none

/-- Two calls one after the other. -/
def inTurn : Store × (Bool → CancelCall) :=
  [true, true, true, false, false].foldl (System.play calmMove) (claimed, fun _ => first)

theorem settles_inTurn :
    (inTurn.2 true).answer = some .cancelling ∧ (inTurn.2 false).answer = some .cancelling ∧
      Idempotent .plain inTurn.1 inTurn.2 ∧
      ∀ i error, (inTurn.2 i).phase ≠ .raised error := by
  have answers : [true, false].map (fun i => (inTurn.2 i).answer) =
      [some .cancelling, some .cancelling] := by decide +kernel
  have known : (claimed.db.run first.scopeId first.runId).isSome = true := by decide +kernel
  have run : ((system .plain .callers Bool).guarded Undisturbed).Run (claimed, fun _ => first)
      inTurn := by
    refine System.run_play ?_ _ _
    intro i s x t y move
    unfold calmMove at move
    split at move
    · rename_i calm
      exact ⟨calm, move⟩
    · cases move
  have reach := claimed_reachable
  generalize claimed = s₀ at reach known run
  generalize inTurn = a at answers run ⊢
  have calls : ∀ i : Bool, ((fun _ => first) i : CancelCall).phase = .reading ∧
      ∃ row, s₀.db.run first.scopeId first.runId = some row :=
    fun _ => ⟨rfl, Option.isSome_iff_exists.1 known⟩
  have holds := settles (Discipline.callers_event rfl) trivial trivial reach calls
  simp only [List.map_cons, List.map_nil, List.cons.injEq] at answers
  exact ⟨answers.1, answers.2.1, holds.1 run.of_guarded, holds.2 run⟩

/-- Two calls that both read the state before either asks. -/
def race : Store × (Bool → CancelCall) :=
  [true, false, true, false].foldl (System.play (move .plain)) (claimed, fun _ => first)

/-- The second of them raises a conflict. -/
theorem race_conflicts :
    Reachable .plain .callers claimed ∧
      (system .plain .callers Bool).Run (claimed, fun _ => first) race ∧
      (race.2 false).failure = some (.domain .stateConflict "Run state_version changed") := by
  have raised : (race.2 false).failure =
      some (.domain .stateConflict "Run state_version changed") := by decide +kernel
  exact ⟨claimed_reachable, System.run_play (fun _ _ _ _ _ move => move) _ _, raised⟩

end CancelCall

end CodeForge
