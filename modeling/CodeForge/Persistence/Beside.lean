import CodeForge.Persistence.Ledger
import CodeForge.Persistence.Transitions

/-!
# Beside a run

While a worker executes a run, others use the store.  They may do whatever they
like, except that nobody else calls `transition_run` for the run (`Op.Spares`).
A run that is being executed then stays as it is, until it is asked to cancel
(`Beside.course`), and a run that is over stays as it is.

Where they leave the ledger of the run alone as well, its rows are the worker's
own (`Beside.toolsOf`).
-/

namespace CodeForge

open Lib StoreM

variable {d : Deployment} {π : Discipline} {s t : Store} {k : Key}

/-! ## The state of one run -/

/-- The state of a run. -/
def Db.stateOf (db : Db) (k : Key) : Option RunState := db.runs.view RunRow.state k

theorem Db.stateOf_of_run {db : Db} {scopeId : String} {runId : Uuid} {row : RunRow}
    (run : db.run scopeId runId = some row) : db.stateOf (scopeId, runId) = some row.state :=
  Table.view_of_getIn run RunRow.state

/-- No claim and no answer moves a run from here. -/
def RunStatus.Seated (status : RunStatus) : Prop :=
  status ≠ .queued ∧ .queued ∉ allowedTransitions status

theorem RunStatus.Seated.cases {status : RunStatus} (h : status.Seated) :
    status = .running ∨ status = .cancelling ∨ status.terminal = true := by
  cases status with
  | running => exact .inl rfl
  | cancelling => exact .inr (.inl rfl)
  | succeeded | failed | cancelled | timedOut => exact .inr (.inr rfl)
  | queued => exact absurd rfl h.1
  | waitingUser | waitingExternal | recovering => exact absurd List.mem_cons_self h.2

theorem RunStatus.running_seated : RunStatus.Seated .running := ⟨by decide, by decide⟩

theorem RunStatus.cancelling_seated : RunStatus.Seated .cancelling := ⟨by decide, by decide⟩

theorem RunStatus.succeeded_seated : RunStatus.Seated .succeeded := ⟨by decide, by decide⟩

theorem Records.stateOf {f : Files} {db db' : Db} {r : RunRow} {ss : SessionRow} {e : EventRow}
    (h : Records d f db r ss e db') : db'.stateOf k = db.stateOf k := by
  obtain ⟨events, now, actor, insert, rfl⟩ := h.result
  simp only [Db.stateOf, Db.setEventSeqs]
  rw [Table.view_updateIn_same]
  intro r
  rfl

theorem Db.stateOf_release {db : Db} (r : RunRow) (now : Timestamp) (actor : String) :
    (db.release r now actor).stateOf k = db.stateOf k := by
  simp only [Db.stateOf, Db.release]
  rw [Table.view_updateIn_same]
  intro r
  rfl

/-- Callers who may only put runs back into the queue leave a seated run alone. -/
theorem Change.seated {f : Files} {n : Nat} {db db' : Db} (c : Change d π f n db db')
    (back : ∀ target, π.target target → target = .queued) {a : RunState}
    (state : db.stateOf k = some a) (seated : a.status.Seated) : db'.stateOf k = some a := by
  cases c with
  | addWorkspace | rebind | revise | addSession | tools | pendings => exact state
  | @accept db₁ id request ss s₁ key fingerprint inputRef snapshotRef now actor runs r e known
      insert record event idle fresh =>
      have other : k ≠ (request.context.scopeId, id) := by
        intro same
        have new : db.stateOf (request.context.scopeId, id) = none :=
          Table.view_of_insert? insert RunRow.state request.context.scopeId
        rw [same, new] at state
        cases state
      change db₁.stateOf k = some a
      rw [record.stateOf, Db.stateOf, Table.view_insert? insert]
      exact (Function.update_of_ne other _ _).trans state
  | @claim db₁ c nowIso leaseUntil scopeId id binding workerId actor attempts r ss e run candidate
      claimable earlier insert record event fresh =>
      have here : db.run c.run.scopeId c.run.id = some c.run := Table.getIn_of_mem run
      have other : k ≠ (c.run.scopeId, c.run.id) := by
        intro same
        rw [same, Db.stateOf_of_run here] at state
        cases state
        exact seated.1 claimable.1
      rw [record.stateOf, Db.stateOf]
      simp only [Db.startAttempt, Db.startRun, Db.occupyWorkspace, Db.occupySession,
        Candidate.attempt]
      rw [Table.view_updateIn_of here]
      exact (Function.update_of_ne other _ _).trans state
  | @move db₁ row after target outcome reason outputRef outputChars error extra now actor r ss e run
      change allowed extra_allowed record event fresh =>
      have here : db.run row.scopeId row.id = some row := Table.getIn_of_mem run
      have other : k ≠ (row.scopeId, row.id) := by
        intro same
        rw [same, Db.stateOf_of_run here] at state
        cases state
        have edge := (transition_eq_ok.1 change).2.1
        rw [back target allowed] at edge
        exact seated.2 edge
      have kept : db₁.stateOf k = some a := by
        rw [record.stateOf, Db.stateOf, Db.moveRun, Table.view_updateIn_of here]
        exact (Function.update_of_ne other _ _).trans state
      split
      · rw [Db.stateOf_release]
        exact kept
      · exact kept
  | note record => rw [record.stateOf, state]

theorem Changes.seated {f : Files} {n : Nat} {db db' : Db} (changes : Changes d π f n db db')
    (back : ∀ target, π.target target → target = .queued) {a : RunState}
    (state : db.stateOf k = some a) (seated : a.status.Seated) : db'.stateOf k = some a := by
  induction changes with
  | refl => exact state
  | tail _ c ih => exact c.seated back ih seated

/-! ## Changes of status -/

/-- A change of another run. -/
theorem transitionRun_elsewhere {scopeId : String} {runId : Uuid} (other : k ≠ (scopeId, runId))
    (version : Nat) (target : RunStatus) (args : TransitionArgs) (actorRef : Option String)
    (s : Store) :
    (finalState (transitionRun d scopeId runId version target args actorRef) s).db.stateOf k =
      s.db.stateOf k := by
  rw [finalState]
  cases ended : transitionRun d scopeId runId version target args actorRef s with
  | error e t => exact congrArg (Db.stateOf · k) (transaction_error_db ended)
  | ok o t =>
      obtain ⟨row, after, e, -, -, moved, -⟩ := transitionRun_spec ended
      exact (congrFun moved k).trans (Function.update_of_ne other _ _)

/-- A request to cancel another run. -/
theorem cancelRun_elsewhere {scopeId : String} {runId : Uuid} (other : k ≠ (scopeId, runId))
    (actorRef : Option String) (s : Store) :
    (finalState (cancelRun d scopeId runId actorRef) s).db.stateOf k = s.db.stateOf k := by
  have kept : Keeps (Db.stateOf · k) (cancelRun d scopeId runId actorRef) := by
    refine .bind .getDb fun db => .bind (.orThrow _ _) fun row => .ite (.pure _) ?_
    refine .bind (transitionRun_elsewhere other _ _ _ _) fun current => .ite ?_ (.pure _)
    exact .bind (.orThrow _ _) fun _ => transitionRun_elsewhere other _ _ _ _
  exact kept s

section Cancel

variable {scopeId : String} {runId : Uuid} {actorRef : Option String} {row : RunRow}

/-- A request to cancel starts with the row of the run. -/
theorem found_bind {β : Type} {f : RunRow → StoreM β}
    (found : s.db.run scopeId runId = some row) :
    (do let db ← getDb
        let row ← orThrow (db.run scopeId runId) (.domain .runNotFound "Run not found")
        f row : StoreM β) s = f row s := by
  simp [getDb, bind, EStateM.bind, orThrow, found, pure, EStateM.pure]

/-- A run that is being cancelled or over is not changed. -/
theorem cancelRun_over (found : s.db.run scopeId runId = some row)
    (atEnd : row.status = .cancelling ∨ row.status.terminal = true) :
    cancelRun d scopeId runId actorRef s = .ok (some row) s := by
  have stop : (row.status.terminal || row.status = .cancelling) = true := by
    rcases atEnd with cancelling | terminal
    · simp [cancelling]
    · simp [terminal]
  rw [cancelRun, found_bind found, if_pos stop]
  rfl

/-- For a run that is running a request is one change. -/
theorem cancelRun_running (found : s.db.run scopeId runId = some row)
    (running : row.status = .running) :
    finalState (cancelRun d scopeId runId actorRef) s =
      finalState (transitionRun d scopeId runId row.stateVersion .cancelling {}
        (some (textOr actorRef "system:runtime/api"))) s := by
  have goes : ¬ (row.status.terminal || row.status = .cancelling) = true := by
    rw [running]
    decide
  cases ended : transitionRun d scopeId runId row.stateVersion .cancelling {}
      (some (textOr actorRef "system:runtime/api")) s with
  | error e t =>
      have whole : cancelRun d scopeId runId actorRef s = .error e t := by
        rw [cancelRun, found_bind found, if_neg goes]
        exact bind_eq_error.2 (.inl ended)
      rw [finalState_of_error ended, finalState_of_error whole]
  | ok o t =>
      have whole : cancelRun d scopeId runId actorRef s = .ok o t := by
        rw [cancelRun, found_bind found, if_neg goes]
        refine bind_eq_ok.2 ⟨o, t, ended, ?_⟩
        rw [if_neg (by rw [running]; decide)]
        rfl
      rw [finalState_of_ok ended, finalState_of_ok whole]

end Cancel

/-- A request to cancel leaves a run alone, unless it is running. -/
theorem cancelRun_course {scopeId : String} {runId : Uuid} {actorRef : Option String}
    {a : RunState} (state : s.db.stateOf k = some a) (seated : a.status.Seated) :
    (finalState (cancelRun d scopeId runId actorRef) s).db.stateOf k = some a ∨
      a.status = .running ∧
        (finalState (cancelRun d scopeId runId actorRef) s).db.stateOf k =
          some (a.moveTo .cancelling none none) := by
  by_cases same : k = (scopeId, runId)
  · subst same
    obtain ⟨row, found, rfl⟩ := Option.map_eq_some_iff.1
      (show (s.db.run scopeId runId).map RunRow.state = some a from state)
    rcases seated.cases with running | atEnd
    · rw [cancelRun_running found running, finalState]
      cases ended : transitionRun d scopeId runId row.stateVersion .cancelling {}
          (some (textOr actorRef "system:runtime/api")) s with
      | error e t => exact .inl (transaction_error_db ended ▸ state)
      | ok o t =>
          obtain ⟨row', after, e, run, change, moved, -⟩ := transitionRun_spec ended
          cases found.symm.trans run
          obtain ⟨-, -, -, -, rfl⟩ := transition_eq_ok.1 change
          exact .inr ⟨running, (congrFun moved _).trans (Function.update_self _ _ _)⟩
    · rw [finalState_of_ok (cancelRun_over found atEnd)]
      exact .inl state
  · exact .inl ((cancelRun_elsewhere same actorRef s).trans state)

/-! ## Calls of others -/

/-- The call is no `transition_run` for the run. -/
def Op.Spares (k : Key) : Op → Prop
  | .transitionRun scopeId runId _ _ _ _ => k ≠ (scopeId, runId)
  | _ => True

/-- The call is one of those that a worker makes while it executes a run. -/
def Op.ofWorker : Op → Bool
  | .recordWorkspaceRevision .. | .appendEvent .. | .prepareTool .. | .startTool ..
  | .appendToolOutput .. | .finishTool .. => true
  | _ => false

theorem Op.ofWorker.spares {op : Op} (h : op.ofWorker = true) : op.Spares k := by
  cases op with
  | transitionRun => cases h
  | _ => trivial

/-- Nobody calls a run `RUNNING`, it has to be claimed. -/
def Discipline.claimed : Discipline := { target := (· ≠ .running) }

theorem Op.ofWorker.obeys {op : Op} (h : op.ofWorker = true) : op.Obeys .claimed := by
  cases op with
  | recordWorkspaceRevision | appendEvent | prepareTool | startTool | appendToolOutput
  | finishTool => trivial
  | createSession | acceptOnce | claimNextRun | transitionRun | cancelRun | respondToRun
  | openPending => cases h

/-- A seated run stays as it is, or is asked to cancel. -/
theorem Op.exec_course {op : Op} (spares : op.Spares k) {a : RunState}
    (state : s.db.stateOf k = some a) (seated : a.status.Seated) :
    (op.exec d s).db.stateOf k = some a ∨
      a.status = .running ∧
        (op.exec d s).db.stateOf k = some (a.moveTo .cancelling none none) := by
  let back : Discipline := { target := fun target => target = .queued }
  have kept : op.Obeys back → (op.exec d s).db.stateOf k = some a := fun obeys =>
    (op.exec_changes d back obeys s).seated (fun _ => id) state seated
  cases op with
  | cancelRun => exact cancelRun_course state seated
  | transitionRun => exact .inl ((transitionRun_elsewhere spares _ _ _ _ s).trans state)
  | createSession => exact .inl (kept fun _ _ => trivial)
  | acceptOnce => exact .inl (kept fun _ => trivial)
  | respondToRun => exact .inl (kept rfl)
  | claimNextRun | recordWorkspaceRevision | appendEvent | prepareTool | startTool
  | appendToolOutput | finishTool | openPending => exact .inl (kept trivial)

/-- One call of others, held to `permits`, or a fault on the way of one. -/
inductive Beside (d : Deployment) (permits : Db → Op → Prop) (s : Store) : Store → Prop
  | call (op : Op) (permitted : permits s.db op) : Beside d permits s (op.exec d s)
  | fault {t : Store} (grown : s.Extends t) (rollback : t.db = s.db) : Beside d permits s t

theorem Beside.idle {permits : Db → Op → Prop} : Beside d permits s s := .fault (.refl s) rfl

theorem Beside.step {permits : Db → Op → Prop} (h : Beside d permits s t) : Step d {} s t := by
  cases h with
  | call op permitted => exact .call op op.obeys_default
  | fault grown rollback => exact .fault grown rollback

theorem Beside.steps {permits : Db → Op → Prop}
    (h : Relation.ReflTransGen (Beside d permits) s t) : Steps d {} s t :=
  h.lift id fun _ _ h => h.step

/-- The course of a seated run while others do something. -/
theorem Beside.course {permits : Db → Op → Prop} (spared : ∀ db op, permits db op → op.Spares k)
    (h : Beside d permits s t) {a : RunState} (state : s.db.stateOf k = some a)
    (seated : a.status.Seated) : t.db.stateOf k = some a ∨
      a.status = .running ∧ t.db.stateOf k = some (a.moveTo .cancelling none none) := by
  cases h with
  | call op permitted => exact op.exec_course (spared _ _ permitted) state seated
  | fault grown rollback =>
      rw [rollback]
      exact .inl state

end CodeForge
