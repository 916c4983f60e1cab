import CodeForge.Contracts

/-!
# The run state machine

`allowedTransitions` is the table of permitted status changes, `transition` one
checked change.  A change counts the state version up by one, keeps the task
outcome for success and the wait reason for waiting, and is announced by exactly
one lifecycle event.

`Lawful` says a state carries an outcome exactly when it succeeded and a reason
exactly when it waits.  Every change leads to a lawful state
(`transition_lawful`), along an edge of the table (`transition_edge`).
-/

namespace CodeForge

open Lib

/-- `ALLOWED_TRANSITIONS`. -/
def allowedTransitions : RunStatus → List RunStatus
  | .queued => [.running, .cancelling, .failed, .timedOut]
  | .running =>
      [.waitingUser, .waitingExternal, .recovering, .cancelling, .succeeded, .failed, .timedOut]
  | .waitingUser => [.queued, .cancelling, .failed, .timedOut]
  | .waitingExternal => [.queued, .cancelling, .failed, .timedOut]
  | .recovering => [.queued, .waitingUser, .cancelling, .failed, .timedOut]
  | .cancelling => [.cancelled]
  | .succeeded => []
  | .failed => []
  | .cancelled => []
  | .timedOut => []

/-- The part of a run the state machine decides on. -/
structure RunState where
  status : RunStatus := .queued
  stateVersion : Nat := 0
  taskOutcome : Option TaskOutcome := none
  waitReason : Option String := none
deriving DecidableEq, Repr

/-- The event a change to a status is announced by. -/
def announcedBy : RunStatus → EventType
  | .queued => .runResumed
  | .running => .runStarted
  | .waitingUser => .runWaiting
  | .waitingExternal => .runWaiting
  | .recovering => .runRecovering
  | .cancelling => .runCancelRequested
  | .succeeded | .failed | .cancelled | .timedOut => .runFinished

/-- A reason that is present and not empty. -/
def givenReason : Option String → Bool
  | some r => r ≠ ""
  | none => false

/-- The state after a permitted change. -/
def RunState.moveTo (state : RunState) (target : RunStatus) (taskOutcome : Option TaskOutcome)
    (reason : Option String) : RunState where
  status := target
  stateVersion := state.stateVersion + 1
  taskOutcome := taskOutcome
  waitReason := if target.waiting then reason else none

/-- `transition`: check a change and carry it out. -/
def transition (state : RunState) (target : RunStatus) (expectedVersion : Nat)
    (taskOutcome : Option TaskOutcome) (reason : Option String) : Except StoreError RunState :=
  if state.stateVersion ≠ expectedVersion then
    .error (.domain .stateConflict "Run state_version changed")
  else if target ∉ allowedTransitions state.status then
    .error (.domain .invalidTransition
      s!"{state.status.value} -> {target.value} is forbidden")
  else if target = .succeeded ∧ taskOutcome = none then
    .error (.domain .invalidRequest "Normal completion requires an explicit task_outcome")
  else if target ≠ .succeeded ∧ taskOutcome ≠ none then
    .error (.domain .invalidRequest "task_outcome belongs to normal completion only")
  else if target.waiting ∧ givenReason reason = false then
    .error (.domain .invalidRequest "Waiting requires a reason")
  else .ok (state.moveTo target taskOutcome reason)

/-! ## What a change does -/

/-- Everything a successful change says about itself. -/
theorem transition_eq_ok {state after : RunState} {target : RunStatus} {version : Nat}
    {outcome : Option TaskOutcome} {reason : Option String} :
    transition state target version outcome reason = .ok after ↔
      state.stateVersion = version ∧ target ∈ allowedTransitions state.status ∧
        (target = .succeeded ↔ outcome ≠ none) ∧
        (target.waiting = true → givenReason reason = true) ∧
        after = state.moveTo target outcome reason := by
  unfold transition
  constructor
  · intro h
    split_ifs at h with hv ht hs ho hw
    have hv' : state.stateVersion = version := by simpa using hv
    refine ⟨hv', by simpa using ht, ⟨fun e n => hs ⟨e, n⟩, fun n => ?_⟩, fun w => ?_, ?_⟩
    · by_contra e
      exact ho ⟨e, n⟩
    · cases hr : givenReason reason with
      | true => rfl
      | false => exact absurd ⟨w, hr⟩ hw
    · exact (Except.ok.inj h).symm
  · rintro ⟨rfl, ht, ho, hr, rfl⟩
    rw [if_neg (by simp), if_neg (by simpa using ht), if_neg (fun h => ho.1 h.1 h.2),
      if_neg (fun h => h.1 (ho.2 h.2)), if_neg (fun h => by simp [hr h.1] at h)]

/-- A change without outcome and reason, to a status that needs neither, depends on version and
edge alone. -/
theorem transition_permits {state : RunState} {target : RunStatus} {version : Nat}
    (unsuccessful : target ≠ .succeeded) (moving : target.waiting = false) :
    (∃ after, transition state target version none none = .ok after) ↔
      state.stateVersion = version ∧ target ∈ allowedTransitions state.status := by
  constructor
  · rintro ⟨after, change⟩
    obtain ⟨same, edge, -⟩ := transition_eq_ok.1 change
    exact ⟨same, edge⟩
  · rintro ⟨same, edge⟩
    refine ⟨_, transition_eq_ok.2 ⟨same, edge, ?_, ?_, rfl⟩⟩
    · exact iff_of_false unsuccessful (not_not.2 rfl)
    · intro waits
      rw [moving] at waits
      cases waits

/-- A run that is being cancelled may be cancelled. -/
theorem transition_cancelled {state after : RunState} {version : Nat}
    (h : transition state .cancelling version none none = .ok after) :
    ∃ final, transition after .cancelled after.stateVersion none none = .ok final := by
  obtain ⟨-, -, -, -, rfl⟩ := transition_eq_ok.1 h
  refine (transition_permits (by decide) rfl).2 ⟨rfl, ?_⟩
  change RunStatus.cancelled ∈ allowedTransitions .cancelling
  decide

theorem transition_edge {state after : RunState} {target : RunStatus} {version : Nat}
    {outcome : Option TaskOutcome} {reason : Option String}
    (h : transition state target version outcome reason = .ok after) :
    after.status ∈ allowedTransitions state.status ∧
      after.stateVersion = state.stateVersion + 1 := by
  obtain ⟨-, ht, -, -, rfl⟩ := transition_eq_ok.1 h
  exact ⟨ht, rfl⟩

/-- A state carries an outcome exactly when it succeeded, a reason exactly when
it waits. -/
structure RunState.Lawful (state : RunState) : Prop where
  outcome : state.taskOutcome ≠ none ↔ state.status = .succeeded
  reason : givenReason state.waitReason = true ↔ state.status.waiting = true
  noReason : state.status.waiting = false → state.waitReason = none

theorem transition_lawful {state after : RunState} {target : RunStatus} {version : Nat}
    {outcome : Option TaskOutcome} {reason : Option String}
    (h : transition state target version outcome reason = .ok after) : after.Lawful := by
  obtain ⟨-, -, ho, hr, rfl⟩ := transition_eq_ok.1 h
  refine ⟨ho.symm, ?_, fun hw => ?_⟩
  · by_cases hw : target.waiting = true
    · simp [RunState.moveTo, hw, hr hw]
    · simp [RunState.moveTo, hw, givenReason]
  · exact if_neg (by rw [show target.waiting = false from hw]; decide)

theorem lawful_initial : ({} : RunState).Lawful := by
  constructor <;> simp [givenReason, RunStatus.waiting]

/-- A run that waits in its queue starts with nothing but its status and version. -/
theorem transition_running {state : RunState} (lawful : state.Lawful)
    (queued : state.status = .queued) :
    transition state .running state.stateVersion none none =
      .ok { state with status := .running, stateVersion := state.stateVersion + 1 } := by
  have outcome : state.taskOutcome = none := by
    by_contra h
    have succeeded := lawful.outcome.1 h
    rw [queued] at succeeded
    cases succeeded
  have reason := lawful.noReason (by rw [queued]; rfl)
  refine transition_eq_ok.2 ⟨rfl, by rw [queued]; decide, by simp, by simp [RunStatus.waiting], ?_⟩
  simp [RunState.moveTo, outcome, reason]

/-- No change leaves a terminal status. -/
theorem allowedTransitions_terminal {status : RunStatus} (h : status.terminal = true) :
    allowedTransitions status = [] := by
  cases status <;> simp_all [RunStatus.terminal, allowedTransitions]

/-- Only a run that was started and suspended is put into the queue again. -/
theorem queued_of_edge {status : RunStatus} (h : .queued ∈ allowedTransitions status) :
    status.inFlight = true := by
  cases status <;> simp_all [RunStatus.inFlight, allowedTransitions]

theorem edge_from_queued {target : RunStatus} (h : target ∈ allowedTransitions .queued) :
    target = .running ∨ target = .cancelling ∨ target = .failed ∨ target = .timedOut := by
  simpa [allowedTransitions] using h

end CodeForge
