import CodeForge.Harness.LocalRun
import CodeForge.Persistence.Damage
import CodeForge.Persistence.Integrity
import CodeForge.Persistence.Ownership
import CodeForge.Persistence.Transitions

/-!
# The course of a run

While the local harness executes a run, others may cancel it.  Before its last call
the harness moves the run nowhere, and its last call expects the version it has just
read.  So a run that was running is succeeded in the end, or it is being cancelled
and stays so (`execute_settles`).

Of a succeeded run nothing is left in its session and its workspace, while a run that
is being cancelled keeps both (`execute_leases`).
-/

namespace CodeForge.Harness

open Lib StoreM

variable {env : Surroundings} {work : Assignment} {k : Key} {permits : Db → Op → Prop}
  {s t : Store}

/-! ## The calls of the harness -/

/-- A call that a worker makes while it executes a run. -/
abbrev Own (d : Deployment) : Store → Store → Prop := Beside d fun _ op => op.ofWorker = true

/-- Such a call that does not write the ledger. -/
abbrev Minor (d : Deployment) : Store → Store → Prop :=
  Beside d fun _ op => op.ofWorker = true ∧ op.writesLedger = false

theorem Minor.own {d : Deployment} (h : Minor d s t) : Own d s t := by
  cases h with
  | call op permitted => exact .call op permitted.1
  | fault grown rollback => exact .fault grown rollback

/-- A call of the store that is one of its operations. -/
theorem Within.op {ε α : Type} {x : StoreM α} {raise : StoreError → ε} {d : Deployment} (op : Op)
    (permitted : ∀ db, permits db op) (same : ∀ s, finalState x s = op.exec d s) :
    Client.Within (Beside d permits) (Client.ask raise x) :=
  .ask raise fun s => (same s).symm ▸ .call op (permitted s.db)

/-- A call that changes nothing. -/
theorem Within.idle {ε ε' α : Type} {x : EStateM ε' Store α} {raise : ε' → ε} {d : Deployment}
    (same : ∀ s, finalState x s = s) : Client.Within (Beside d permits) (Client.ask raise x) :=
  .ask raise fun s => (same s).symm ▸ .idle

theorem uuid4_within : Client.Within (Minor env.deployment) (ask uuid4) :=
  .ask _ fun s => .fault (Grows.uuid4 s (Nat.zero_le _)) rfl

theorem getRun_within : Client.Within (Minor env.deployment) (env.getRun work) := by
  refine Within.idle fun s => ?_
  rw [finalState, readRun]
  cases (env.access.reader s.files).getRun env.deployment s.db work.scopeId work.runId <;> rfl

theorem appendEvent_within {scopeId : String} {runId : Uuid} {type : EventType}
    {data : List (String × Json)} {actor : String} :
    Client.Within (Minor env.deployment)
      (ask (appendEvent env.deployment scopeId runId type data actor)) :=
  Within.op (.appendEvent scopeId runId type data actor) (fun _ => ⟨rfl, rfl⟩) fun _ => rfl

theorem skillEvent_within {call : CodeCall} {id : Uuid} {type : EventType}
    {more : List (String × Json)} :
    Client.Within (Minor env.deployment)
      (ask (skillEvent env.deployment call id type more)) := by
  unfold skillEvent
  split
  · exact Within.idle fun _ => rfl
  · exact Within.op (.appendEvent _ _ _ _ _) (fun _ => ⟨rfl, rfl⟩) fun s =>
      finalState_discard _ _ s

theorem committedEvent_within {call : CodeCall} {paths : List String} {revision : Option String} :
    Client.Within (Minor env.deployment)
      (ask (committedEvent env.deployment call paths revision)) := by
  unfold committedEvent
  split
  · exact Within.idle fun _ => rfl
  · split
    · exact Within.idle fun _ => rfl
    · exact Within.op (.appendEvent _ _ _ _ _) (fun _ => ⟨rfl, rfl⟩) fun s =>
        finalState_discard _ _ s

theorem finalState_tryDomain {α : Type} (x : StoreM α) (s : Store) :
    finalState (tryDomain x) s = finalState x s := by
  unfold finalState tryDomain
  cases x s with
  | ok a t => rfl
  | error e t => cases e <;> rfl

theorem commitResult_within {result : OperationResult} {call : CodeCall} :
    Client.Within (Minor env.deployment) (ask (commitResult env.deployment result call)) := by
  unfold commitResult
  split
  · unfold persistWorkspaceCommit
    split
    · exact Within.idle fun s => finalState_tryDomain _ s
    · split
      · exact Within.op (.recordWorkspaceRevision _ _ _ _ _ _) (fun _ => ⟨rfl, rfl⟩) fun s =>
          (finalState_tryDomain _ s).trans (finalState_discard _ _ s)
      · exact Within.idle fun s => finalState_tryDomain _ s
  · exact Within.idle fun _ => rfl

theorem watch_within {call : CodeCall} {id : Uuid} (submitted : Submitted) :
    Client.Within (Minor env.deployment) (env.watch call id submitted) := by
  induction submitted with
  | ended outcome => exact .given outcome
  | output out next ih =>
      rw [Surroundings.watch]
      split
      · refine .bind (.attempt fun s => ?_) fun passed => ih passed
        exact .call (.appendToolOutput call.scopeId id out.stream (String.ofList out.text)
          out.truncated call.actor) ⟨rfl, rfl⟩
      · exact ih true

/-! ## What the harness is made of -/

/-- What is true of the harness up to the final text, if it is of its parts.  `W` need not be true
where it is being cancelled, and the harness looks whether it is before each operation. -/
structure Composes (env : Surroundings) (work : Assignment) (P W : ∀ α : Type, HarnessM α → Prop) :
    Prop where
  given : ∀ {α : Type} (r : Except Raised α), P α (.given r)
  bind : ∀ {α β : Type} {p : HarnessM α} {f : α → HarnessM β},
    P α p → (∀ a, P β (f a)) → P β (p >>= f)
  minor : ∀ {α : Type} {p : HarnessM α},
    p.Within (Minor env.deployment) → P α p
  later : ∀ {α β : Type} {p : HarnessM α} {f : α → HarnessM β},
    p.Within (Minor env.deployment) → (∀ a, W β (f a)) → W β (p >>= f)
  operation : ∀ {β : Type} {call : CodeCall} {asked : ToolCall} {f : Ended → HarnessM β},
    (call.scopeId, call.runId) = work.key → (asked.scopeId, asked.runId) = work.key →
      (∀ ended, P β (f ended)) → W β (env.operation call asked >>= f)
  looks : ∀ {β : Type} {p q : HarnessM β}, P β p → W β q →
    P β (env.getRun work >>= fun current => if stops current then p else q)

namespace Composes

variable {P W : ∀ α : Type, HarnessM α → Prop} (h : Composes env work P W)

include h

theorem pure {α : Type} (a : α) : P α (Pure.pure a) := h.given (.ok a)

theorem stop {α : Type} (e : Raised) : P α (.stop e) := h.given (.error e)

theorem activateItems (items : List Json) : P _ (env.activateItems work items) := by
  induction items with
  | nil => exact h.pure _
  | cons item items ih =>
      rw [Surroundings.activateItems]
      refine h.bind (h.given _) fun skill => h.bind (h.minor appendEvent_within) fun _ => ?_
      exact h.bind (h.given _) fun block => h.bind ih fun blocks => h.pure _

theorem activateSkills : P _ (env.activateSkills work) :=
  h.bind (h.given _) fun items => h.activateItems items

theorem runBlocks (index : Nat) (tally : Tally) (actions : List (String × String)) :
    P _ (env.runBlocks work index tally actions) := by
  induction actions generalizing index tally with
  | nil => exact h.pure _
  | cons action actions ih =>
      obtain ⟨toolRef, code⟩ := action
      rw [Surroundings.runBlocks]
      cases toolNamed toolRef with
      | none =>
          refine h.bind (h.minor getRun_within) fun current => ?_
          split
          · exact h.pure _
          · exact ih _ _
      | some tool => exact h.looks (h.pure _) (h.operation rfl rfl fun ended => ih _ _)

theorem executeModelTool (tool : CodeTool) (code skillName : String) :
    P _ (env.executeModelTool work tool code skillName) := by
  rw [Surroundings.executeModelTool]
  split
  · exact h.pure _
  · exact h.looks (h.pure _) (h.later uuid4_within fun hex => h.operation rfl rfl fun _ => h.pure _)

theorem callTool (name arguments : Json) : P _ (env.callTool work name arguments) := by
  rw [Surroundings.callTool]
  refine h.bind (h.given _) fun skill => ?_
  split
  · exact h.pure _
  · split
    · exact h.bind (h.given _) fun code => h.executeModelTool _ _ _
    · split
      · exact h.bind (h.given _) fun command => h.executeModelTool _ _ _
      · exact h.pure _
  · exact h.stop _

theorem answerCall (entry : Json) : P _ (env.answerCall work entry) := by
  rw [Surroundings.answerCall]
  refine h.bind (h.given _) fun function => h.bind (h.given _) fun arguments => ?_
  cases arguments with
  | obj members => exact h.bind (h.callTool _ _) fun _ => h.pure _
  | null | bool _ | num _ | str _ | arr _ => exact h.stop _

theorem answerCalls (entries : List Json) : P _ (env.answerCalls work entries) := by
  induction entries with
  | nil => exact h.pure _
  | cons entry entries ih =>
      exact h.bind (h.answerCall entry) fun answer => h.bind ih fun answers => h.pure _

theorem modelSteps (complete : List Json → Except Raised ModelMessage) (steps : Nat)
    (messages : List Json) : P _ (env.modelSteps work complete steps messages) := by
  induction steps generalizing messages with
  | zero => exact h.pure _
  | succ steps ih =>
      rw [Surroundings.modelSteps]
      refine h.bind (h.minor getRun_within) fun current => ?_
      split
      · exact h.pure _
      · refine h.bind (h.given _) fun message => ?_
        dsimp only
        split
        · exact h.pure _
        · exact h.bind (h.given _) fun entries => h.bind (h.answerCalls _) fun answers => ih _

/-- What composes is true of the harness up to the final text. -/
theorem finalMessage : P _ (env.finalMessage work) := by
  refine h.bind (h.given _) fun _ => h.bind h.activateSkills fun skillContext => ?_
  refine h.bind (h.runBlocks _ _ _) fun tally => ?_
  split
  · cases env.complete with
    | none => exact h.pure _
    | some complete => exact h.modelSteps _ _ _
  · exact h.pure _

end Composes

/-! ## Where the run is -/

/-- An operation that was prepared is minor calls, and two that write its row. -/
theorem carryOut_within {T : Store → Store → Prop} {call : CodeCall} {id : Uuid}
    (minor : ∀ s t, Minor env.deployment s t → T s t)
    (starts : ∀ s, T s (finalState (startTool env.deployment call.scopeId id call.actor) s))
    (finishes : ∀ status resultRef error revision s, T s (finalState
      (finishTool env.deployment call.scopeId id status resultRef error call.actor revision) s)) :
    (env.carryOut call id).Within T := by
  rw [Surroundings.carryOut]
  refine .bind (.ask _ starts) fun _ => ?_
  refine .bind (skillEvent_within.mono minor) fun _ => ?_
  refine .bind ((watch_within _).mono minor) fun outcome => ?_
  refine .bind (commitResult_within.mono minor) fun committed => ?_
  refine .bind (committedEvent_within.mono minor) fun _ => ?_
  refine .bind (.ask _ (finishes _ _ _ _)) fun _ => ?_
  exact .bind (skillEvent_within.mono minor) fun _ => .pure _

theorem operation_within {call : CodeCall} {asked : ToolCall} :
    (env.operation call asked).Within (Own env.deployment) := by
  refine .bind (Within.op (.prepareTool asked call.actor) (fun _ => rfl) fun _ => rfl) fun x => ?_
  exact carryOut_within (fun _ _ => Minor.own)
    (fun s => .call (.startTool call.scopeId x.1 call.actor) rfl)
    fun status resultRef error revision s =>
      .call (.finishTool call.scopeId x.1 status resultRef error call.actor revision) rfl

/-- Up to the final text the harness moves the run nowhere. -/
theorem composes_own : Composes env work
    (fun _ p => p.Within (Own env.deployment))
    (fun _ p => p.Within (Own env.deployment)) where
  given r := .given r
  bind hp hf := .bind hp hf
  minor hp := hp.mono fun _ _ => Minor.own
  later hp hf := .bind (hp.mono fun _ _ => Minor.own) hf
  operation _ _ hf := .bind operation_within hf
  looks hp hq := .bind (getRun_within.mono fun _ _ => Minor.own) fun _ => by
    split
    · exact hp
    · exact hq

/-- The last calls are minor ones, and one that reports the run as succeeded. -/
theorem conclude_within {T : Store → Store → Prop}
    (minor : ∀ s t, Minor env.deployment s t → T s t)
    (settles : ∀ version args s, T s (finalState (transitionRun env.deployment work.scopeId
      work.runId version .succeeded args (some env.actor)) s))
    {text : String} {outcome : TaskOutcome} : (env.conclude work text outcome).Within T := by
  rw [Surroundings.conclude]
  refine .bind (uuid4_within.mono minor) fun messageId => ?_
  refine .bind (appendEvent_within.mono minor) fun _ => ?_
  refine .bind (getRun_within.mono minor) fun view => ?_
  dsimp only
  split
  · exact .pure _
  · split
    · exact .bind (.ask _ (settles _ _)) fun _ => getRun_within.mono minor
    · exact .pure _

/-- The run is as it was, or is being cancelled since. -/
def Live (a : RunState) (k : Key) (s : Store) : Prop :=
  s.db.stateOf k = some a ∨ s.db.stateOf k = some (a.moveTo .cancelling none none)

/-- The run is live, or has succeeded since. -/
def Seen (a : RunState) (outcome : TaskOutcome) (k : Key) (s : Store) : Prop :=
  Live a k s ∨ s.db.stateOf k = some (a.moveTo .succeeded (some outcome) none)

/-- What is true where the harness has ended: it told how the run is, or stopped before. -/
def Settled (a : RunState) (outcome : TaskOutcome) (k : Key) :
    Except Raised (Option Reader.RunView) → Store → Prop
  | .ok view, t => ∃ v, view = some v ∧ t.db.stateOf k = some v.row.state ∧
      (v.row.state = a.moveTo .succeeded (some outcome) none ∨
        v.row.state = a.moveTo .cancelling none none)
  | .error _, t => Seen a outcome k t

variable {a : RunState} {outcome : TaskOutcome}

theorem Live.stable {d : Deployment} (spared : ∀ db op, permits db op → op.Spares k)
    (running : a.status = .running) : Client.Stable (Beside d permits) (Live a k) := by
  intro s t moved live
  rcases live with state | state
  · rcases moved.course spared state (running ▸ RunStatus.running_seated) with same | ⟨-, cancels⟩
    · exact .inl same
    · exact .inr cancels
  · rcases moved.course spared state RunStatus.cancelling_seated with same | ⟨cancelled, -⟩
    · exact .inr same
    · cases cancelled

/-- A run that is being cancelled, or is over, stays as it is. -/
theorem stays {d : Deployment} (spared : ∀ db op, permits db op → op.Spares k) {b : RunState}
    (seated : b.status.Seated) (atEnd : b.status ≠ .running) :
    Client.Stable (Beside d permits) (fun s => s.db.stateOf k = some b) := by
  intro s t moved state
  rcases moved.course spared state seated with same | ⟨running, -⟩
  · exact same
  · exact absurd running atEnd

theorem Seen.stable {d : Deployment} (spared : ∀ db op, permits db op → op.Spares k)
    (running : a.status = .running) : Client.Stable (Beside d permits) (Seen a outcome k) := by
  intro s t moved seen
  rcases seen with live | state
  · exact .inl (Live.stable spared running s t moved live)
  · exact .inr (stays spared RunStatus.succeeded_seated (fun same => by cases same) s t moved state)

theorem readRun_state {A : Access} {d : Deployment} {scopeId : String} {runId : Uuid}
    {view : Option Reader.RunView} (h : readRun A d scopeId runId s = .ok view t) :
    t = s ∧ view.map (·.row.state) = s.db.stateOf (scopeId, runId) := by
  rw [readRun] at h
  cases read : (A.reader s.files).getRun d s.db scopeId runId with
  | error e =>
      rw [read] at h
      cases h
  | ok view' =>
      rw [read] at h
      cases h
      refine ⟨rfl, ?_⟩
      rw [Reader.getRun] at read
      change _ = (s.db.run scopeId runId).map RunRow.state
      cases found : s.db.run scopeId runId with
      | none =>
          rw [found] at read
          cases read
          rfl
      | some row =>
          rw [found] at read
          obtain ⟨v, decoded, same⟩ := except_map_eq_ok.1 read
          rw [← same]
          exact congrArg (fun r => some (RunRow.state r)) (Reader.decodeRun_row decoded)

/-- The run is told as it was some moments ago. -/
theorem getRun_meets {R : Store → Store → Prop} {I : Store → Prop} (stable : Client.Stable R I)
    (hs : I s) : (env.getRun work).Meets R I (fun r t => I t ∧ ∀ view, r = .ok view →
      ∃ u, I u ∧ Relation.ReflTransGen R u t ∧
        view.map (·.row.state) = u.db.stateOf work.key) s := by
  refine .ask fun u moves => ?_
  have hu := stable.later moves hs
  refine ⟨hu, fun view u' read t later => ?_, fun e u' read t later => ?_⟩
  · obtain ⟨rfl, same⟩ := readRun_state read
    have ht := stable.later later hu
    exact ⟨ht, ht, fun _ told => by cases told; exact ⟨_, hu, later, same⟩⟩
  · obtain ⟨rfl, -⟩ := error_of_readRun read
    have ht := stable.later later hu
    exact ⟨ht, ht, fun _ told => by cases told⟩

/-- Only a run that is as it was succeeds. -/
theorem succeed_meets {d : Deployment} (spared : ∀ db op, permits db op → op.Spares k)
    (running : a.status = .running) {text : String} {actorRef : Option String}
    (live : Live a k s) :
    (ask (transitionRun d k.1 k.2 a.stateVersion .succeeded
      { taskOutcome := some outcome, output := some text } actorRef)).Meets (Beside d permits)
      (Seen a outcome k) (fun r t => match r with
        | .ok _ => t.db.stateOf k = some (a.moveTo .succeeded (some outcome) none)
        | .error _ => Live a k t) s := by
  have stable : Client.Stable (Beside d permits) (Live a k) := .stable spared running
  have atEnd := stays (d := d) spared (b := a.moveTo .succeeded (some outcome) none)
    RunStatus.succeeded_seated fun same => by cases same
  refine .ask fun u moves => ?_
  have hu := stable.later moves live
  refine ⟨.inl hu, fun o u' ended t later => ?_, fun e u' ended t later => ?_⟩
  · obtain ⟨row, after, e, run, change, moved, -⟩ := transitionRun_spec ended
    obtain ⟨version, -, -, -, rfl⟩ := transition_eq_ok.1 change
    have here := Db.stateOf_of_run run
    have same : row.state = a := by
      rcases hu with state | state
      · exact Option.some.inj (here.symm.trans state)
      · -- a run that is being cancelled has the next version
        have newer := congrArg RunState.stateVersion (Option.some.inj (here.symm.trans state))
        rw [version] at newer
        exact absurd newer (Nat.ne_of_lt (Nat.lt_succ_self _))
    have succeeded : u'.db.stateOf k = some (a.moveTo .succeeded (some outcome) none) := by
      rw [← same]
      exact (congrFun moved _).trans (Function.update_self _ _ _)
    have ht := atEnd.later later succeeded
    exact ⟨.inr ht, ht⟩
  · have ht := stable.later later (show Live a k u' by rwa [Live, transaction_error_db ended])
    exact ⟨.inl ht, ht⟩

/-- From the final text to the end. -/
theorem conclude_meets (spared : ∀ db op, permits db op → op.Spares work.key)
    (running : a.status = .running) {text : String} (live : Live a work.key s) :
    (env.conclude work text outcome).Meets (Beside env.deployment permits)
      (Seen a outcome work.key) (Settled a outcome work.key) s := by
  have stable : Client.Stable (Beside env.deployment permits) (Live a work.key) :=
    .stable spared running
  have minor : ∀ {α : Type} {p : HarnessM α} {u : Store},
      p.Within (Minor env.deployment) → Live a work.key u →
        p.Meets (Beside env.deployment permits) (Seen a outcome work.key)
          (fun _ => Live a work.key) u := fun within live =>
    (within.meets stable (.stable (fun _ _ h => Op.ofWorker.spares h.1) running) live).mono
      (fun _ => .inl) fun _ _ => id
  rw [Surroundings.conclude]
  refine (minor uuid4_within live).bind (fun _ _ => .inl) fun messageId t₁ live => ?_
  refine (minor appendEvent_within live).bind (fun _ _ => .inl) fun _ t₂ live => ?_
  refine ((getRun_meets stable live).mono (fun _ => .inl) fun _ _ => id).bind
    (fun e t h => .inl h.1) fun view t₃ ⟨live, told⟩ => ?_
  obtain ⟨u, seen, later, same⟩ := told view rfl
  rcases seen with state | state
  · -- the run was told as it was
    obtain ⟨v, rfl, here⟩ := Option.map_eq_some_iff.1 (same.trans state)
    have status : v.row.status = .running := (congrArg RunState.status here).trans running
    have version : v.row.stateVersion = a.stateVersion := congrArg RunState.stateVersion here
    simp only [Option.map_some, Option.getD_some, status, version]
    rw [if_neg (by decide), if_pos (by decide)]
    refine (succeed_meets spared running live).bind (fun e t => .inl) fun _ t₄ succeeded => ?_
    refine ((getRun_meets (stays spared RunStatus.succeeded_seated fun same => by cases same)
      succeeded).mono (fun _ => .inr) fun r t ⟨state, told⟩ => ?_)
    cases r with
    | error e => exact .inr state
    | ok view =>
        obtain ⟨u, seen, -, same⟩ := told view rfl
        obtain ⟨v, rfl, here⟩ := Option.map_eq_some_iff.1 (same.trans seen)
        exact ⟨v, rfl, state.trans (congrArg some here.symm), .inl here⟩
  · -- it was told as being cancelled
    obtain ⟨v, rfl, here⟩ := Option.map_eq_some_iff.1 (same.trans state)
    have status : v.row.status = .cancelling := congrArg RunState.status here
    simp only [Option.map_some, status]
    rw [if_neg (by decide), if_neg (by decide)]
    have stays := stays (d := env.deployment) spared (b := a.moveTo .cancelling none none)
      RunStatus.cancelling_seated fun same => by cases same
    refine .done fun t later' => ?_
    have ht := stays.later later' (stays.later later state)
    exact ⟨.inl (.inr ht), v, rfl, ht.trans (congrArg some here.symm), .inr here⟩

/-- The harness up to the final text. -/
theorem finalMessage_live (spared : ∀ db op, permits db op → op.Spares work.key)
    (running : a.status = .running) (live : Live a work.key s) :
    (env.finalMessage work).Meets (Beside env.deployment permits) (Live a work.key)
      (fun _ => Live a work.key) s :=
  composes_own.finalMessage.meets (.stable spared running)
    (.stable (fun _ _ own => Op.ofWorker.spares own) running) live

/-- **The run is settled.**  Whatever others do with the store, as long as they do not call
`transition_run` for the run: while the harness executes a run that was running, it is as it was,
or being cancelled, or it has succeeded.  If the harness tells how the run is in the end, it has
succeeded or is being cancelled, and stays so. -/
theorem execute_settles (spared : ∀ db op, permits db op → op.Spares work.key)
    (running : a.status = .running) (state : s.db.stateOf work.key = some a)
    {q : HarnessM (Option Reader.RunView)}
    (run : Client.Run (Beside env.deployment permits) (env.execute work, s) (q, t)) :
    (∃ outcome, Seen a outcome work.key t) ∧
      ∀ r, q = .done r → ∃ outcome, Settled a outcome work.key r t := by
  have meets : (env.execute work).Meets (Beside env.deployment permits)
      (fun t => ∃ outcome, Seen a outcome work.key t)
      (fun r t => ∃ outcome, Settled a outcome work.key r t) s := by
    refine ((finalMessage_live spared running (.inl state)).mono
      (fun _ live => ⟨.completed, .inl live⟩) fun _ _ => id).bind ?_ ?_
    · exact fun _ _ live => ⟨.completed, .inl live⟩
    · intro ⟨text, outcome⟩ u live
      exact (conclude_meets spared running live).mono (fun _ seen => ⟨outcome, seen⟩)
        fun _ _ settled => ⟨outcome, settled⟩
  refine ⟨run.always meets, ?_⟩
  rintro r rfl
  exact run.ended meets

/-! ### A run that is cancelled -/

/-- An operation that succeeds, says nothing and leaves the workspace as it was. -/
def Outcome.plain : Outcome where
  toOperationResult := .plain
  unprepared := by decide
  stopped := by decide

/-- A harness without a model, whose operations all succeed. -/
def Surroundings.plain : Surroundings where
  deployment := .plain
  access := .plain
  python := ⟨.plain, fun _ => ""⟩
  workerId := "w1"
  maxToolSteps := 12
  prepareAttempt := .ok ()
  loadSkillBody := none
  complete := none
  submit _ := .ended (.ok .plain)
  logs _ := none

/-- The attempt of `Op.firstClaim`, with a message of one block. -/
def Assignment.plain : Assignment where
  scopeId := "ada"
  runId := ⟨2⟩
  sessionId := ⟨0⟩
  input := "```python\npass\n```"
  configSnapshot := .obj []
  attemptId := ⟨4⟩
  workspaceId := ⟨1⟩
  workspaceEpoch := 1
  userBinding := some (.plain "ada" "p" "p")
  workingDirectory := none

/-- The store before the harness begins. -/
def claimed : Store := Op.execAll .plain Op.firstClaim {}

/-- Others cancel the run. -/
def Cancels (_ : Db) (op : Op) : Prop := op = .cancelRun "ada" ⟨2⟩ none

theorem Cancels.spares (db : Db) (op : Op) (h : Cancels db op) :
    op.Spares Assignment.plain.key := by
  subst h
  trivial

theorem Cancels.obeys (db : Db) (op : Op) (h : Cancels db op) : op.Obeys .claimed := by
  subst h
  exact ⟨by simp [Discipline.claimed], by simp [Discipline.claimed]⟩

/-- The run is cancelled wherever the order says so. -/
def cancelledAt (order : List (Option Unit)) (a : HarnessM (Option Reader.RunView) × Store) :
    HarnessM (Option Reader.RunView) × Store :=
  order.foldl (Client.turn fun _ s => (Op.cancelRun "ada" ⟨2⟩ none).exec .plain s) a

theorem cancelledAt_run (order : List (Option Unit))
    (a : HarnessM (Option Reader.RunView) × Store) :
    Client.Run (Beside Surroundings.plain.deployment Cancels) a
      ((cancelledAt order a).1, (cancelledAt order a).2) :=
  Client.Run.play (fun _ _ => .call _ rfl) order a

theorem claimed_running : ∃ a : RunState,
    claimed.db.stateOf Assignment.plain.key = some a ∧ a.status = .running := by
  have running : (claimed.db.stateOf Assignment.plain.key).map (·.status) = some .running := by
    decide +kernel
  exact Option.map_eq_some_iff.1 running

theorem claimed_cancelled : ∃ b : RunState,
    ((Op.cancelRun "ada" ⟨2⟩ none).exec .plain claimed).db.stateOf Assignment.plain.key = some b ∧
      b.status = .cancelling := by
  have cancelling : (((Op.cancelRun "ada" ⟨2⟩ none).exec .plain claimed).db.stateOf
      Assignment.plain.key).map (·.status) = some .cancelling := by decide +kernel
  exact Option.map_eq_some_iff.1 cancelling

/-- A run is cancelled while its block is executed. -/
theorem execute_settles_cancelled : ∃ a : RunState,
    claimed.db.stateOf Assignment.plain.key = some a ∧
      ∃ outcome, Seen a outcome Assignment.plain.key
        (cancelledAt [none, none, none, some (), none, none]
          (Surroundings.plain.execute .plain, claimed)).2 := by
  obtain ⟨a, state, running⟩ := claimed_running
  exact ⟨a, state, (execute_settles Cancels.spares running state
    (cancelledAt_run [none, none, none, some (), none, none] _)).1⟩

/-! ## The session and the workspace -/

/-- The run has neither its session nor its workspace any more. -/
structure Freed (db : Db) (row : RunRow) : Prop where
  attempt : ∀ x ∈ db.attempts, x.OfRun row → ¬ x.Live
  session : ∀ ses ∈ db.sessions, ses.scopeId = row.scopeId → ses.activeRunId ≠ some row.id
  workspace : ∀ w ∈ db.workspaces, ∀ x ∈ db.attempts, x.OfRun row →
    w.activeAttemptId ≠ some x.id

/-- The session and the workspace of the run are the run's. -/
structure Held (db : Db) (row : RunRow) : Prop where
  attempt : row.activeAttemptId ≠ none
  session : ∃ ses, db.session row.scopeId row.sessionId = some ses ∧
    ses.activeRunId = some row.id
  workspace : ∃ w, db.workspace row.scopeId row.workspaceId = some w ∧
    w.activeAttemptId = row.activeAttemptId

theorem Freed.of_lease {db : Db} (inv : Lease.Inv db.lease) {row : RunRow} (hrow : row ∈ db.runs)
    (atEnd : row.status.terminal = true) : Freed db row := by
  have owns := Db.ownership_of_lease inv
  have none_live : ∀ x ∈ db.attempts, x.OfRun row → ¬ x.Live := fun x hx of live => by
    have active := (Db.activeAttempt_iff inv hrow).2 ⟨x, hx, of, live, rfl⟩
    rw [owns.terminal row hrow atEnd] at active
    cases active
  refine ⟨none_live, fun ses hses scope active => ?_, fun w hw x hx of active => ?_⟩
  · obtain ⟨r, hr, -, -, same, held⟩ := owns.ofSession ses hses _ active
    rw [Table.eq_of_key hr hrow same] at held
    exact held (owns.terminal row hrow atEnd)
  · obtain ⟨y, hy, -, live, same⟩ := (Db.workspaceAttempt_iff inv hw).1 active
    exact none_live x hx of (Table.eq_of_key hy hx same ▸ live)

theorem Held.of_lease {db : Db} (inv : Lease.Inv db.lease) {row : RunRow} (hrow : row ∈ db.runs)
    (live : row.status.terminal = false) {id : Uuid} {g : Lease.Grant Key Key Key}
    (granted : db.lease.grant (row.scopeId, id) = some g) (job : g.job = (row.scopeId, row.id)) :
    Held db row := by
  have owns := Db.ownership_of_lease inv
  have active : row.activeAttemptId ≠ none := by
    intro idle
    refine inv.fresh _ _ (Db.lease_job hrow) ?_ ?_ _ _ granted job
    · intro closed
      rw [RunStatus.phase_closed.1 closed] at live
      cases live
    · simp [RunRow.lease, idle]
  obtain ⟨id, active'⟩ := Option.ne_none_iff_exists'.1 active
  obtain ⟨x, -, -, -, w, home, held⟩ := (owns.workspace row hrow id).1 active'
  exact ⟨active, owns.session row hrow active, w, home, held.trans active'.symm⟩

/-- An attempt stays an attempt at its run. -/
theorem Steps.granted {d : Deployment} {π : Discipline} (st : Steps d π s t) {id : Key}
    {g : Lease.Grant Key Key Key} (known : s.db.lease.grant id = some g) :
    ∃ g', t.db.lease.grant id = some g' ∧ g'.job = g.job := by
  refine st.preserves (I := fun _ _ db => ∃ g', db.lease.grant id = some g' ∧ g'.job = g.job)
    (fun _ _ h => h) ?_ ⟨g, known, rfl⟩
  rintro f n db db' c ⟨g₁, here, job⟩
  rcases c.lease_step with same | step
  · rw [same]
    exact ⟨g₁, here, job⟩
  · obtain ⟨g₂, later, job'⟩ := step.grant_stays here
    exact ⟨g₂, later, job'.trans job⟩

theorem Own.step {d : Deployment} (own : Own d s t) : Step d .claimed s t := by
  cases own with
  | call op permitted => exact .call op (Op.ofWorker.obeys permitted)
  | fault grown rollback => exact .fault grown rollback

/-- What the harness does is steps of the store. -/
theorem execute_within : (env.execute work).Within (Step env.deployment .claimed) := by
  refine .bind (composes_own.finalMessage.mono fun _ _ => Own.step) fun _ => ?_
  refine conclude_within (fun _ _ minor => Own.step (Minor.own minor)) fun version args s => ?_
  exact .call (.transitionRun work.scopeId work.runId version .succeeded args (some env.actor))
    ⟨by simp [Discipline.claimed], trivial⟩

/-! ### Runs that end -/

/-- An intact store can be read. -/
theorem reads_of_intact {A : Access} {d : Deployment} {v : Supplied} (intact : s.Intact d v)
    (readable : ∀ k, A.unreadable k = false) (scopeId : String) (runId : Uuid) :
    A.Reads d s scopeId runId := by
  refine Reader.getRun_ok_iff.2 fun c refs => ?_
  obtain ⟨input, snapshot, -, -, bodies⟩ := intact.run _ _ refs
  have message : ∀ {ref : ContentPath} {role : Role} {text : String},
      s.files.lookup (s.db.bases d c.sessionId, ref) =
        some (messagePayload d c.sessionId runId role text c.runSeq) →
          ∃ body, (A.reader s.files).readMessage (s.db.bases d c.sessionId) ref = .ok body := by
    intro ref role text found
    refine ⟨.json (.str text), ?_⟩
    unfold Reader.readMessage
    rw [Access.readObject_of_lookup (readable _) found, except_ok_bind]
    exact Reader.loadObject_message _ d c.sessionId runId role text c.runSeq
  refine ⟨⟨.json snapshot.asDict.sorted, ?_⟩, message bodies.inputFile, fun ref here => ?_⟩
  · unfold Reader.readObjectJson
    rw [Access.readObject_of_lookup (readable _) bodies.snapshotFile, except_ok_bind,
      Reader.loadObject, snapshotPayload, Json.spaced,
      loadBytes_utf8 Json.Separators.spaced (snapshot.asDict_valid _)]
  · cases out : v.output (scopeId, runId) with
    | none =>
        rw [(bodies.noOutput out).1] at here
        cases here
    | some text =>
        obtain ⟨ref', same, found, -⟩ := bodies.output text out
        cases same.symm.trans here
        exact message found

/-- A store that was reached, and whose references lead to what was supplied. -/
def Sound (d : Deployment) (s : Store) : Prop := Reachable d .claimed s ∧ ∃ v, s.Intact d v

namespace Sound

variable {d : Deployment}

theorem call (h : Sound d s) (op : Op) (obeys : op.Obeys .claimed) (fits : op.Fits d s)
    (after : op.exec d s = t) : Sound d t := by
  subst after
  obtain ⟨reachable, v, intact⟩ := h
  exact ⟨reachable.tail (.call op obeys), _,
    Supplies.keeps (π := .claimed) (.call op obeys fits) reachable intact⟩

theorem uuid4 (h : Sound d s) : Sound d { s with drawn := s.drawn + 1 } := by
  obtain ⟨reachable, v, intact⟩ := h
  have grown : s.Extends { s with drawn := s.drawn + 1 } := Grows.uuid4 s (Nat.zero_le _)
  exact ⟨reachable.tail (.fault grown rfl), v,
    Supplies.keeps (π := .claimed) (.fault grown rfl) reachable intact⟩

/-- A run is told as it is. -/
theorem told {A : Access} (h : Sound d s) (readable : ∀ k, A.unreadable k = false)
    {scopeId : String} {runId : Uuid} {b : RunState}
    (state : s.db.stateOf (scopeId, runId) = some b) : ∃ view : Reader.RunView,
      readRun A d scopeId runId s = .ok (some view) s ∧ view.row.state = b := by
  obtain ⟨-, v, intact⟩ := h
  obtain ⟨view, read⟩ := reads_of_intact intact readable scopeId runId
  have told : readRun A d scopeId runId s = .ok view s := by rw [readRun, read]
  obtain ⟨-, here⟩ := readRun_state told
  obtain ⟨x, rfl, same⟩ := Option.map_eq_some_iff.1 (here.trans state)
  exact ⟨x, told, same⟩

end Sound

/-- A harness that has neither blocks nor skills nor a model. -/
theorem execute_eq_conclude (prepared : env.prepareAttempt = .ok ())
    (skills : skillItems work.configSnapshot = some []) (blocks : planActions work.input = [])
    (model : env.complete = none) :
    env.execute work = env.conclude work noModelText .blocked := by
  rw [Surroundings.execute, Surroundings.finalMessage, prepared, Surroundings.activateSkills,
    skills, blocks, model]
  rfl

/-- A run that was cancelled is told, if nobody does anything else. -/
theorem conclude_tells {b : RunState} {text : String} {outcome : TaskOutcome}
    (sound : Sound env.deployment s) (readable : ∀ k, env.access.unreadable k = false)
    (state : s.db.stateOf work.key = some b) (cancelling : b.status = .cancelling) : ∃ view t,
      Client.Run (Beside env.deployment permits) (env.conclude work text outcome, s)
        (.done (.ok view), t) := by
  obtain ⟨row, found, -⟩ := Option.map_eq_some_iff.1
    (show (s.db.run work.scopeId work.runId).map RunRow.state = some b from state)
  let s₁ : Store := { s with drawn := s.drawn + 1 }
  have sound₁ : Sound env.deployment s₁ := sound.uuid4
  -- the event is written
  let data : List (String × Json) :=
    [("message_id", .str (env.deployment.uuidText ⟨s.drawn⟩)), ("text", .str text)]
  let op : Op := .appendEvent work.scopeId work.runId .messageCompleted data env.actor
  obtain ⟨e, s₂, appended⟩ : Ends (appendEvent env.deployment work.scopeId work.runId
      .messageCompleted data env.actor) s₁ :=
    transaction_ends (.bind rfl (.orThrow_bind found (.bind rfl
      (insertEventLocked_total (s := { s₁ with ticks := s₁.ticks + 1 }) sound₁.1.ready found
        _ _ _ _))))
  have after : op.exec env.deployment s₁ = s₂ := finalState_of_ok appended
  have sound₂ := sound₁.call op trivial trivial after
  have state₂ : s₂.db.stateOf work.key = some b := by
    have own : Own env.deployment s₁ s₂ := after ▸ .call op rfl
    exact stays (fun _ _ => Op.ofWorker.spares) (cancelling ▸ RunStatus.cancelling_seated)
      (by simp [cancelling]) s₁ s₂ own state
  -- the run is read
  obtain ⟨view, told, same⟩ := sound₂.told readable state₂
  have status : view.row.status = .cancelling := (congrArg RunState.status same).trans cancelling
  refine ⟨some view, s₂, .seq (.ask rfl) (.seq (.ask appended) (.seq (.ask told) ?_))⟩
  simp only [Option.map_some, status]
  rw [if_neg (by decide), if_neg (by decide)]
  exact .refl

/-! ### What is left of the run -/

/-- **What is left of the run.**  Nobody calls a run `RUNNING` without a claim, or calls
`transition_run` for this run.  When the harness tells how the run is, it has succeeded, and
neither its session nor its workspace is occupied by it any more; or it is being cancelled, and
occupies both. -/
theorem execute_leases (reachable : Reachable env.deployment .claimed s)
    (spared : ∀ db op, permits db op → op.Spares work.key ∧ op.Obeys .claimed)
    (running : a.status = .running) (state : s.db.stateOf work.key = some a)
    {view : Option Reader.RunView}
    (run : Client.Run (Beside env.deployment permits) (env.execute work, s)
      (.done (.ok view), t)) :
    ∃ row, t.db.run work.scopeId work.runId = some row ∧ view.map (·.row.state) = some row.state ∧
      ((row.status = .succeeded ∧ Freed t.db row) ∨
        (row.status = .cancelling ∧ Held t.db row)) := by
  obtain ⟨moves, -⟩ := run.within execute_within
  have steps : Steps env.deployment .claimed s t := by
    refine moves.lift id fun u v move => ?_
    rcases move with others | own
    · cases others with
      | call op permitted => exact .call op (spared _ _ permitted).2
      | fault grown rollback => exact .fault grown rollback
    · exact own
  have reached : Reachable env.deployment .claimed t := reachable.trans steps
  have after : Lease.Inv t.db.lease := reached.lease (by simp [Discipline.claimed])
  obtain ⟨-, ended⟩ := execute_settles (fun db op h => (spared db op h).1) running state run
  obtain ⟨outcome, v, rfl, here, how⟩ := ended _ rfl
  obtain ⟨row, found, same⟩ := Option.map_eq_some_iff.1
    (show (t.db.run work.scopeId work.runId).map RunRow.state = some v.row.state from here)
  have status : row.status = v.row.state.status := congrArg RunState.status same
  obtain ⟨hrow, scope, id⟩ := Db.run_eq_some.1 found
  refine ⟨row, found, congrArg some same.symm, ?_⟩
  rcases how with succeeded | cancelling
  · rw [succeeded] at status
    exact .inl ⟨status, .of_lease after hrow (by rw [status]; rfl)⟩
  · rw [cancelling] at status
    -- the attempt that the run had when it was running
    have before : Lease.Inv s.db.lease := reachable.lease (by simp [Discipline.claimed])
    obtain ⟨r, found₀, same₀⟩ := Option.map_eq_some_iff.1
      (show (s.db.run work.scopeId work.runId).map RunRow.state = some a from state)
    obtain ⟨hr, scope₀, id₀⟩ := Db.run_eq_some.1 found₀
    have inFlight : r.status.inFlight = true := by
      rw [show r.status = .running from (congrArg RunState.status same₀).trans running]
      rfl
    obtain ⟨x, active⟩ := Option.ne_none_iff_exists'.1
      ((Db.ownership_of_lease before).inFlight r hr inFlight)
    obtain ⟨y, hy, of, -, rfl⟩ := (Db.activeAttempt_iff before hr).1 active
    obtain ⟨g, granted, job⟩ := Steps.granted steps (Db.lease_grant hy)
    have kept : t.db.lease.grant (row.scopeId, y.id) = some g := by
      rw [scope, ← scope₀, ← of.1]
      exact granted
    have mine : g.job = (row.scopeId, row.id) := by
      rw [job, scope, id, ← scope₀, ← id₀, ← of.1, ← of.2]
      rfl
    exact .inr ⟨status, .of_lease after hrow (by rw [status]; rfl) kept mine⟩

theorem claimed_sound : Sound .plain claimed := by
  have obeys : ∀ op ∈ Op.firstClaim, op.Obeys .claimed := Op.firstClaim_obeys trivial trivial
  have fit : Op.AllFit .plain Op.firstClaim {} := ⟨by rintro b w - ⟨⟩, trivial, trivial, trivial⟩
  have steps := Supplies.execAll (d := .plain) (v := {}) obeys fit
  exact ⟨.execAll obeys, _, Reachable.intact .refl .initial steps⟩

/-- The attempt of `Op.firstClaim`, with a message that has no blocks. -/
def Assignment.quiet : Assignment := { Assignment.plain with input := "" }

/-- The run is cancelled before the harness begins, and keeps what it has. -/
theorem execute_leases_cancelled : ∃ t view row,
    Client.Run (Beside Surroundings.plain.deployment Cancels)
      (Surroundings.plain.execute .quiet, claimed) (.done (.ok view), t) ∧
    t.db.run "ada" ⟨2⟩ = some row ∧ view.map (·.row.state) = some row.state ∧
      ((row.status = .succeeded ∧ Freed t.db row) ∨
        (row.status = .cancelling ∧ Held t.db row)) := by
  obtain ⟨a, state, running⟩ := claimed_running
  obtain ⟨b, state₁, cancelling⟩ := claimed_cancelled
  have reachable := claimed_sound.1
  have sound := claimed_sound.call (.cancelRun "ada" ⟨2⟩ none) (Cancels.obeys {} _ rfl) trivial rfl
  have first : Client.Run (Beside Surroundings.plain.deployment Cancels)
      (Surroundings.plain.execute .quiet, claimed)
      (Surroundings.plain.execute .quiet, (Op.cancelRun "ada" ⟨2⟩ none).exec .plain claimed) :=
    .single (.others (.call _ rfl))
  generalize (Op.cancelRun "ada" ⟨2⟩ none).exec .plain claimed = u at *
  generalize claimed = s at *
  have blocks : planActions "" = [] := by decide +kernel
  have same : Surroundings.plain.execute .quiet =
      Surroundings.plain.conclude .quiet noModelText .blocked :=
    execute_eq_conclude rfl rfl blocks rfl
  obtain ⟨view, t, rest⟩ : ∃ view t, Client.Run (Beside Surroundings.plain.deployment Cancels)
      (Surroundings.plain.conclude .quiet noModelText .blocked, u) (.done (.ok view), t) :=
    conclude_tells sound (fun _ => rfl) state₁ cancelling
  rw [← same] at rest
  have run := first.trans rest
  have spared : ∀ db op, Cancels db op → op.Spares Assignment.quiet.key ∧ op.Obeys .claimed :=
    fun db op h => ⟨Cancels.spares db op h, Cancels.obeys db op h⟩
  obtain ⟨row, told⟩ := execute_leases reachable spared running state run
  exact ⟨t, view, row, run, told⟩

end CodeForge.Harness
