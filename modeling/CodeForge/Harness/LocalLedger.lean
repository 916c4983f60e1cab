import CodeForge.Harness.LocalCourse
import CodeForge.Persistence.RunTools

/-!
# The ledger of a run

The local harness writes the rows of its tools one operation after the other, and
the tools of a run are written by nobody else.  An operation amends the row of its
call (`operation_meets`).  So at most one tool is open at a time, and none at a
normal end (`execute_closes`).

Once the run is being cancelled, at most one more tool is prepared
(`execute_cancels`).
-/

namespace CodeForge.Harness

open Lib StoreM

variable {env : Surroundings} {work : Assignment} {k : Key} {permits : Db → Op → Prop}
  {s t : Store}

/-! ## Calls that leave the ledger alone -/

theorem Beside.toolsOf {d : Deployment} (left : ∀ db op, permits db op → op.Leaves k db)
    (h : Beside d permits s t) : t.db.toolsOf k = s.db.toolsOf k := by
  cases h with
  | call op permitted => exact Op.exec_toolsOf (left _ _ permitted)
  | fault grown rollback => exact congrArg (Db.toolsOf · k) rollback

theorem Minor.toolsOf {d : Deployment} (h : Minor d s t) : t.db.toolsOf k = s.db.toolsOf k := by
  cases h with
  | call op permitted => exact Op.exec_toolsOf_of_not_writes permitted.2
  | fault grown rollback => exact congrArg (Db.toolsOf · k) rollback

section Operation

variable (left : ∀ db op, permits db op → op.Leaves k db)

include left

/-- The others change nothing about the tools of the run. -/
theorem tools_stable {d : Deployment} (P : List ToolRow → Prop) :
    Client.Stable (Beside d permits) (fun s => P (s.db.toolsOf k)) := by
  intro s t moved hs
  rw [Beside.toolsOf left moved]
  exact hs

/-- Neither do minor calls. -/
theorem minor_tools {α : Type} {p : HarnessM α} (P : List ToolRow → Prop)
    (within : p.Within (Minor env.deployment)) (hs : P (s.db.toolsOf k)) :
    p.Meets (Beside env.deployment permits) (fun t => P (t.db.toolsOf k))
      (fun _ t => P (t.db.toolsOf k)) s := by
  refine within.meets (tools_stable left P) (fun u v moved hu => ?_) hs
  show P (v.db.toolsOf k)
  rwa [moved.toolsOf]

/-- A call that writes the tools. -/
theorem ask_tools {d : Deployment} {α : Type} {x : StoreM α} {P I : List ToolRow → Prop}
    {Q : Except Raised α → List ToolRow → Prop} (hs : P (s.db.toolsOf k))
    (before : ∀ l, P l → I l) (after : ∀ r l, Q r l → I l)
    (ok : ∀ u b v, P (u.db.toolsOf k) → x u = .ok b v → Q (.ok b) (v.db.toolsOf k))
    (error : ∀ u e v, P (u.db.toolsOf k) → x u = .error e v →
      Q (.error (.call (.store e))) (v.db.toolsOf k)) :
    (ask x).Meets (Beside d permits) (fun t => I (t.db.toolsOf k))
      (fun r t => Q r (t.db.toolsOf k)) s := by
  have ends : ∀ {r : Except Raised α} {v : Store}, Q r (v.db.toolsOf k) →
      (Client.done r).Meets (Beside d permits) (fun t => I (t.db.toolsOf k))
        (fun r t => Q r (t.db.toolsOf k)) v := fun hv t later => by
    have ht := (tools_stable left (Q _)).later later hv
    exact ⟨after _ _ ht, ht⟩
  refine .ask fun u moves => ?_
  have hu := (tools_stable left P).later moves hs
  exact ⟨before _ hu, fun b v ended => ends (ok u b v hu ended),
    fun e v ended => ends (error u e v hu ended)⟩

end Operation

/-! ## An operation -/

/-- The rows are as they were, or that of one call is new or rewritten. -/
def Touched (before after : List ToolRow) (c : ToolCall) : Prop :=
  after = before ∨ ∃ id, Amended before after id c

/-- What an operation that has ended leaves. -/
structure Finished (before after : List ToolRow) (c : ToolCall) (ended : Ended) : Prop where
  amended : Amended before after ended.operationId c
  status : ∀ row ∈ after, row.id = ended.operationId → row.status = ended.status
  atEnd : ended.status ≠ .prepared ∧ ended.status ≠ .running

/-- How the first call of an operation ends. -/
def Prepared (before : List ToolRow) (c : ToolCall) (r : Except Raised (Uuid × ToolStatus))
    (after : List ToolRow) : Prop :=
  match r with
  | .ok x => Amended before after x.1 c
  | .error _ => Touched before after c

/-- How an operation ends. -/
def Operated (before : List ToolRow) (c : ToolCall) (r : Except Raised Ended)
    (after : List ToolRow) : Prop :=
  match r with
  | .ok ended => Finished before after c ended
  | .error _ => Touched before after c

theorem statusOf_over (outcome : Outcome)
    (committed : Except (ErrorCode × String) (Option WorkspaceCommit)) :
    statusOf outcome.toOperationResult committed ≠ .prepared ∧
      statusOf outcome.toOperationResult committed ≠ .running := by
  cases committed with
  | error e => exact ⟨nofun, nofun⟩
  | ok commit => exact ⟨outcome.unprepared, outcome.stopped⟩

section Operation

variable {before : List ToolRow} {call : CodeCall} {asked : ToolCall} {operationId : Uuid}
  (left : ∀ db op, permits db op → op.Leaves (call.scopeId, call.runId) db)

include left

/-- The end of an operation: its row gets the status of the operation. -/
theorem finish_meets {status : ToolStatus} {resultRef : Option String}
    {error : Option (List (String × Json))} {revision : Option String}
    (amended : Amended before (s.db.toolsOf (call.scopeId, call.runId)) operationId asked) :
    (ask (finishTool env.deployment call.scopeId operationId status resultRef error call.actor
      revision)).Meets (Beside env.deployment permits)
      (fun t => Touched before (t.db.toolsOf (call.scopeId, call.runId)) asked)
      (fun r t => Amended before (t.db.toolsOf (call.scopeId, call.runId)) operationId asked ∧
        (r = .ok () → ∀ row ∈ t.db.toolsOf (call.scopeId, call.runId), row.id = operationId →
          row.status = status)) s := by
  refine ask_tools left (P := (Amended before · operationId asked)) (I := (Touched before · asked))
    (Q := fun r l => Amended before l operationId asked ∧
      (r = .ok () → ∀ row ∈ l, row.id = operationId → row.status = status)) amended
    (fun _ h => .inr ⟨_, h⟩) (fun _ _ h => .inr ⟨_, h.1⟩) ?_ ?_
  · intro u _ v h ended
    have both := finishTool_amends (k := (call.scopeId, call.runId)) ended h
    exact ⟨both.1, fun _ => both.2⟩
  · intro u e v h ended
    rw [finishTool_error ended]
    exact ⟨h, fun same => by cases same⟩

/-- An operation that was prepared. -/
theorem carryOut_meets
    (amended : Amended before (s.db.toolsOf (call.scopeId, call.runId)) operationId asked) :
    (env.carryOut call operationId).Meets (Beside env.deployment permits)
      (fun t => Touched before (t.db.toolsOf (call.scopeId, call.runId)) asked)
      (fun r t => Operated before asked r (t.db.toolsOf (call.scopeId, call.runId))) s := by
  -- a minor call, and how it stops
  have minor : ∀ {α : Type} {p : HarnessM α} {u : Store}, p.Within (Minor env.deployment) →
      Amended before (u.db.toolsOf (call.scopeId, call.runId)) operationId asked →
        p.Meets (Beside env.deployment permits)
          (fun t => Touched before (t.db.toolsOf (call.scopeId, call.runId)) asked)
          (fun _ t => Amended before (t.db.toolsOf (call.scopeId, call.runId)) operationId
            asked) u :=
    fun within hu => (minor_tools left (Amended before · operationId asked) within hu).mono
      (fun _ amended => .inr ⟨_, amended⟩) fun _ _ => id
  have stops : ∀ (e : Raised) (u : Store),
      Amended before (u.db.toolsOf (call.scopeId, call.runId)) operationId asked →
        Operated before asked (.error e) (u.db.toolsOf (call.scopeId, call.runId)) :=
    fun _ _ amended => .inr ⟨_, amended⟩
  have started : (ask (startTool env.deployment call.scopeId operationId call.actor)).Meets
      (Beside env.deployment permits)
      (fun t => Touched before (t.db.toolsOf (call.scopeId, call.runId)) asked)
      (fun _ t => Amended before (t.db.toolsOf (call.scopeId, call.runId)) operationId
        asked) s := by
    refine ask_tools left (P := (Amended before · operationId asked))
      (I := (Touched before · asked)) (Q := fun _ l => Amended before l operationId asked) amended
      (fun _ h => .inr ⟨_, h⟩) (fun _ _ h => .inr ⟨_, h⟩)
      (fun u _ v h ended => startTool_amends ended h) fun u e v h ended => ?_
    rwa [startTool_error ended]
  rw [Surroundings.carryOut]
  refine started.bind stops fun _ t₁ amended => ?_
  refine (minor skillEvent_within amended).bind stops fun _ t₂ amended => ?_
  refine (minor (watch_within _) amended).bind stops fun outcome t₃ amended => ?_
  refine (minor commitResult_within amended).bind stops fun committed t₄ amended => ?_
  refine (minor committedEvent_within amended).bind stops fun _ t₅ amended => ?_
  refine (finish_meets left amended).bind (fun e u h => stops e u h.1) fun _ t₆ h => ?_
  let done : List ToolRow → Prop := fun l => Amended before l operationId asked ∧
    ∀ row ∈ l, row.id = operationId →
      row.status = statusOf outcome.toOperationResult committed
  refine ((minor_tools left done skillEvent_within ⟨h.1, h.2 rfl⟩).mono
    (fun _ h => .inr ⟨_, h.1⟩) fun _ _ => id).bind (fun e u h => stops e u h.1) fun _ t₇ h => ?_
  refine .done fun t later => ?_
  obtain ⟨amended, told⟩ := (tools_stable left done).later later h
  exact ⟨.inr ⟨_, amended⟩, amended, told, statusOf_over outcome committed⟩

/-- An operation amends the row of its call, which has the status of the operation in the end. -/
theorem operation_meets (mine : (asked.scopeId, asked.runId) = (call.scopeId, call.runId))
    (known : s.db.toolsOf (call.scopeId, call.runId) = before) :
    (env.operation call asked).Meets (Beside env.deployment permits)
      (fun t => Touched before (t.db.toolsOf (call.scopeId, call.runId)) asked)
      (fun r t => Operated before asked r (t.db.toolsOf (call.scopeId, call.runId))) s := by
  have prepared : (ask (prepareTool env.deployment asked call.actor)).Meets
      (Beside env.deployment permits)
      (fun t => Touched before (t.db.toolsOf (call.scopeId, call.runId)) asked)
      (fun r t => Prepared before asked r (t.db.toolsOf (call.scopeId, call.runId))) s := by
    refine ask_tools left (P := (· = before)) (I := (Touched before · asked))
      (Q := Prepared before asked) known (fun _ => .inl) ?_ ?_ ?_
    · intro r l h
      cases r with
      | ok x => exact .inr ⟨x.1, h⟩
      | error e => exact h
    · intro u x v same ended
      have amended := prepareTool_amends ended
      rw [mine, same] at amended
      exact amended
    · intro u e v same ended
      rw [prepareTool_error ended]
      exact .inl same
  exact prepared.bind (fun _ _ h => h) fun x t amended => carryOut_meets left amended

end Operation

/-! ## Open tools -/

/-- The tool was prepared, and has not ended. -/
def ToolRow.Open (row : ToolRow) : Prop := row.status = .prepared ∨ row.status = .running

/-- Every tool that is open was there from the first. -/
def Closed (base l : List ToolRow) : Prop := ∀ row ∈ l, ToolRow.Open row → row ∈ base

/-- So was every tool that is open, but for one. -/
def OneOpen (base l : List ToolRow) : Prop :=
  ∃ id, ∀ row ∈ l, ToolRow.Open row → row.id = id ∨ row ∈ base

theorem Closed.oneOpen {base l : List ToolRow} (h : Closed base l) : OneOpen base l :=
  ⟨⟨0⟩, fun row hrow isOpen => .inr (h row hrow isOpen)⟩

theorem Touched.oneOpen {base before after : List ToolRow} {c : ToolCall}
    (h : Touched before after c) (closed : Closed base before) : OneOpen base after := by
  rcases h with same | ⟨id, amended⟩
  · exact Closed.oneOpen (same ▸ closed)
  · refine ⟨id, fun row hrow isOpen => ?_⟩
    by_cases same : row.id = id
    · exact .inl same
    · exact .inr (closed row ((amended.others row same).1 hrow) isOpen)

theorem Finished.closed {base before after : List ToolRow} {c : ToolCall} {ended : Ended}
    (h : Finished before after c ended) (closed : Closed base before) : Closed base after := by
  intro row hrow isOpen
  by_cases same : row.id = ended.operationId
  · rcases isOpen with prepared | running
    · exact absurd ((h.status row hrow same).symm.trans prepared) h.atEnd.1
    · exact absurd ((h.status row hrow same).symm.trans running) h.atEnd.2
  · exact closed row ((h.amended.others row same).1 hrow) isOpen

/-- A part of the harness closes what it opens, unless it is stopped. -/
def Closes (env : Surroundings) (work : Assignment) (permits : Db → Op → Prop) {α : Type}
    (p : HarnessM α) : Prop :=
  ∀ (base : List ToolRow) (s : Store), Closed base (s.db.toolsOf work.key) →
    p.Meets (Beside env.deployment permits) (fun t => OneOpen base (t.db.toolsOf work.key))
      (fun r t => OneOpen base (t.db.toolsOf work.key) ∧
        ∀ b, r = .ok b → Closed base (t.db.toolsOf work.key)) s

theorem Closes.bind {α β : Type} {p : HarnessM α} {f : α → HarnessM β}
    (hp : Closes env work permits p) (hf : ∀ b, Closes env work permits (f b)) :
    Closes env work permits (p >>= f) := fun base _ closed =>
  (hp base _ closed).bind (fun e t h => ⟨h.1, fun _ same => by cases same⟩)
    fun b t h => hf b base t (h.2 b rfl)

section Closes

variable (left : ∀ db op, permits db op → op.Leaves work.key db)

include left

theorem Closes.of_minor {α : Type} {p : HarnessM α} (within : p.Within (Minor env.deployment)) :
    Closes env work permits p := fun base _ closed =>
  (minor_tools left (Closed base) within closed).mono (fun _ h => h.oneOpen)
    fun _ _ h => ⟨h.oneOpen, fun _ _ => h⟩

theorem Closes.operation {call : CodeCall} {asked : ToolCall}
    (here : (call.scopeId, call.runId) = work.key)
    (mine : (asked.scopeId, asked.runId) = work.key) :
    Closes env work permits (env.operation call asked) := by
  intro base s closed
  rw [← here] at left closed mine ⊢
  refine (operation_meets left mine rfl).mono (fun t touched => touched.oneOpen closed) ?_
  intro r t h
  cases r with
  | ok ended => exact ⟨(h.closed closed).oneOpen, fun _ _ => h.closed closed⟩
  | error e => exact ⟨h.oneOpen closed, fun _ same => by cases same⟩

/-- Up to the final text, what the harness opens it closes. -/
theorem composes_closes : Composes env work (fun _ p => Closes env work permits p)
    (fun _ p => Closes env work permits p) where
  given r := .of_minor left (.given r)
  bind := .bind
  minor := .of_minor left
  later within hf := .bind (.of_minor left within) hf
  operation here mine hf := .bind (.operation left here mine) hf
  looks hp hq := .bind (.of_minor left getRun_within) fun _ => by
    split
    · exact hp
    · exact hq

/-- The last calls do not write the ledger. -/
theorem conclude_tools (P : List ToolRow → Prop) {text : String} {outcome : TaskOutcome}
    (hs : P (s.db.toolsOf work.key)) :
    (env.conclude work text outcome).Meets (Beside env.deployment permits)
      (fun t => P (t.db.toolsOf work.key)) (fun _ t => P (t.db.toolsOf work.key)) s := by
  have same : (env.conclude work text outcome).Within
      (fun s t => t.db.toolsOf work.key = s.db.toolsOf work.key) := by
    refine conclude_within (fun _ _ => Minor.toolsOf) fun version args s => ?_
    let op : Op := .transitionRun work.scopeId work.runId version .succeeded args (some env.actor)
    have quiet : op.writesLedger = false := rfl
    exact Op.exec_toolsOf_of_not_writes quiet
  refine same.meets (tools_stable left P) (fun u v kept hu => ?_) hs
  show P (v.db.toolsOf work.key)
  rwa [kept]

theorem conclude_closes {text : String} {outcome : TaskOutcome} :
    Closes env work permits (env.conclude work text outcome) := fun base _ closed =>
  (conclude_tools left (Closed base) closed).mono (fun _ h => h.oneOpen)
    fun _ _ h => ⟨h.oneOpen, fun _ _ => h⟩

end Closes

/-- **At most one tool is open.**  The tools of the run are written by nobody else.  All the time at
most one tool of the run is open that was not when the harness began, and none is when it tells how
the run is. -/
theorem execute_closes (left : ∀ db op, permits db op → op.Leaves work.key db)
    {q : HarnessM (Option Reader.RunView)}
    (run : Client.Run (Beside env.deployment permits) (env.execute work, s) (q, t)) :
    OneOpen (s.db.toolsOf work.key) (t.db.toolsOf work.key) ∧
      ∀ view, q = .done (.ok view) →
        Closed (s.db.toolsOf work.key) (t.db.toolsOf work.key) := by
  have closes : Closes env work permits (env.execute work) :=
    .bind (composes_closes left).finalMessage fun _ => conclude_closes left
  have meets := closes (s.db.toolsOf work.key) s fun row hrow _ => hrow
  refine ⟨run.always meets, ?_⟩
  rintro view rfl
  exact (run.ended meets).2 view rfl

theorem Cancels.leaves (db : Db) (op : Op) (h : Cancels db op) :
    op.Leaves Assignment.plain.key db := by
  subst h
  trivial

/-- The tools of a run that is cancelled while its block is executed. -/
theorem execute_closes_cancelled :
    OneOpen (claimed.db.toolsOf Assignment.plain.key)
      ((cancelledAt [none, none, none, some (), none, none]
        (Surroundings.plain.execute .plain, claimed)).2.db.toolsOf Assignment.plain.key) := by
  have run := cancelledAt_run [none, none, none, some (), none, none]
    (Surroundings.plain.execute .plain, claimed)
  exact (execute_closes Cancels.leaves run).1

/-! ## Tools of a run that is being cancelled -/

/-- The run is being cancelled. -/
def Cancelling (k : Key) (s : Store) : Prop :=
  ∃ b : RunState, s.db.stateOf k = some b ∧ b.status = .cancelling

/-- All tools were there from the first. -/
def Known (base l : List ToolRow) : Prop := ∀ row ∈ l, ∃ old ∈ base, old.id = row.id

/-- All tools were, but for one. -/
def OneNew (base l : List ToolRow) : Prop :=
  ∃ id, ∀ row ∈ l, row.id = id ∨ ∃ old ∈ base, old.id = row.id

theorem Known.refl (l : List ToolRow) : Known l l := fun row hrow => ⟨row, hrow, rfl⟩

theorem Known.trans {a b c : List ToolRow} (h : Known a b) (h' : Known b c) : Known a c := by
  intro row hrow
  obtain ⟨mid, hmid, same⟩ := h' row hrow
  obtain ⟨old, hold, same'⟩ := h mid hmid
  exact ⟨old, hold, same'.trans same⟩

theorem Known.oneNew {base l : List ToolRow} (h : Known base l) : OneNew base l :=
  ⟨⟨0⟩, fun row hrow => .inr (h row hrow)⟩

theorem OneNew.trans {a b c : List ToolRow} (h : OneNew a b) (h' : Known b c) : OneNew a c := by
  obtain ⟨id, only⟩ := h
  refine ⟨id, fun row hrow => ?_⟩
  obtain ⟨mid, hmid, same⟩ := h' row hrow
  rcases only mid hmid with new | ⟨old, hold, same'⟩
  · exact .inl (same.symm.trans new)
  · exact .inr ⟨old, hold, same'.trans same⟩

theorem Amended.oneNew {base before after : List ToolRow} {id : Uuid} {c : ToolCall}
    (h : Amended before after id c) (known : Known base before) : OneNew base after := by
  refine ⟨id, fun row hrow => ?_⟩
  by_cases same : row.id = id
  · exact .inl same
  · exact .inr (known row ((h.others row same).1 hrow))

/-- The calls of a part of the harness do not end the cancellation, and add no tool. -/
def Tame (k : Key) (s t : Store) : Prop :=
  (Cancelling k s → Cancelling k t) ∧ Known (s.db.toolsOf k) (t.db.toolsOf k)

theorem Cancelling.stable {d : Deployment} (spared : ∀ db op, permits db op → op.Spares k) :
    Client.Stable (Beside d permits) (Cancelling k) := by
  rintro s t moved ⟨b, state, cancelling⟩
  have seated : b.status.Seated := cancelling ▸ RunStatus.cancelling_seated
  have atEnd : b.status ≠ .running := by simp [cancelling]
  exact ⟨b, stays spared seated atEnd s t moved state, cancelling⟩

theorem Own.cancelling {d : Deployment} (own : Own d s t) (h : Cancelling k s) : Cancelling k t :=
  Cancelling.stable (fun _ _ => Op.ofWorker.spares) s t own h

theorem Minor.tame {d : Deployment} (h : Minor d s t) : Tame k s t :=
  ⟨Own.cancelling (Minor.own h), by rw [h.toolsOf]; exact .refl _⟩

/-- To rewrite a row adds none. -/
theorem known_map {l : List ToolRow} {f : ToolRow → ToolRow} (same : ∀ row, (f row).id = row.id) :
    Known l (l.map f) := by
  intro row hrow
  obtain ⟨old, hold, rfl⟩ := List.mem_map.1 hrow
  exact ⟨old, hold, (same old).symm⟩

/-- A call that rewrites a row, if it goes through, adds none. -/
theorem Tame.of_update {x : StoreM Unit} {scopeId : String} {id : Uuid} {f : ToolRow → ToolRow}
    {hf} (own : Own env.deployment s (finalState x s))
    (error : ∀ {e t}, x s = .error e t → t.db = s.db)
    (ok : ∀ {u t}, x s = .ok u t → t.db.tools = s.db.tools.updateIn scopeId id f hf) :
    Tame k s (finalState x s) := by
  refine ⟨own.cancelling, ?_⟩
  cases ended : x s with
  | error e t =>
      rw [finalState_of_error ended, error ended]
      exact .refl _
  | ok u t =>
      rw [finalState_of_ok ended, Db.toolsOf_update (ok ended)]
      refine known_map fun row => ?_
      split
      · exact congrArg ToolIdent.id (hf row)
      · rfl

theorem startTool_tame {scopeId : String} {id : Uuid} {actor : String} :
    Tame k s (finalState (startTool env.deployment scopeId id actor) s) :=
  .of_update (.call (.startTool scopeId id actor) rfl) startTool_error startTool_eq_ok

theorem finishTool_tame {scopeId : String} {id : Uuid} {status : ToolStatus}
    {resultRef : Option String} {error : Option (List (String × Json))} {actor : String}
    {revision : Option String} :
    Tame k s (finalState
      (finishTool env.deployment scopeId id status resultRef error actor revision) s) :=
  .of_update (.call (.finishTool scopeId id status resultRef error actor revision) rfl)
    finishTool_error finishTool_eq_ok

/-- A run that is being cancelled does not succeed. -/
theorem succeed_tame {version : Nat} {args : TransitionArgs} {actorRef : Option String} :
    Tame work.key s (finalState (transitionRun env.deployment work.scopeId work.runId version
      .succeeded args actorRef) s) := by
  constructor
  · rintro ⟨b, state, cancelling⟩
    cases ended : transitionRun env.deployment work.scopeId work.runId version .succeeded args
        actorRef s with
    | error e t =>
        rw [finalState_of_error ended]
        exact ⟨b, by rw [transaction_error_db ended]; exact state, cancelling⟩
    | ok o t =>
        obtain ⟨row, after, e, run, change, -⟩ := transitionRun_spec ended
        cases (Db.stateOf_of_run run).symm.trans state
        have edge := (transition_eq_ok.1 change).2.1
        rw [cancelling] at edge
        simp [allowedTransitions] at edge
  · let op : Op := .transitionRun work.scopeId work.runId version .succeeded args actorRef
    have quiet : op.writesLedger = false := rfl
    have same : (op.exec env.deployment s).db.toolsOf work.key = s.db.toolsOf work.key :=
      Op.exec_toolsOf_of_not_writes quiet
    show Known _ ((op.exec env.deployment s).db.toolsOf work.key)
    rw [same]
    exact .refl _

/-- While the run is being cancelled, a part of the harness adds no tool. -/
def Quiet (env : Surroundings) (work : Assignment) (permits : Db → Op → Prop) {α : Type}
    (p : HarnessM α) : Prop :=
  ∀ (base : List ToolRow) (s : Store), Cancelling work.key s →
    Known base (s.db.toolsOf work.key) →
      p.Meets (Beside env.deployment permits)
        (fun t => Cancelling work.key t ∧ Known base (t.db.toolsOf work.key))
        (fun _ t => Cancelling work.key t ∧ Known base (t.db.toolsOf work.key)) s

/-- It adds one at most. -/
def Once (env : Surroundings) (work : Assignment) (permits : Db → Op → Prop) {α : Type}
    (p : HarnessM α) : Prop :=
  ∀ (base : List ToolRow) (s : Store), Cancelling work.key s →
    Known base (s.db.toolsOf work.key) →
      p.Meets (Beside env.deployment permits)
        (fun t => Cancelling work.key t ∧ OneNew base (t.db.toolsOf work.key))
        (fun _ t => Cancelling work.key t ∧ OneNew base (t.db.toolsOf work.key)) s

theorem Quiet.once {α : Type} {p : HarnessM α} (h : Quiet env work permits p) :
    Once env work permits p := fun base s cancelling known =>
  (h base s cancelling known).mono (fun _ h => ⟨h.1, h.2.oneNew⟩) fun _ _ h => ⟨h.1, h.2.oneNew⟩

theorem Quiet.bind {α β : Type} {p : HarnessM α} {f : α → HarnessM β}
    (hp : Quiet env work permits p) (hf : ∀ b, Quiet env work permits (f b)) :
    Quiet env work permits (p >>= f) := fun base s cancelling known =>
  (hp base s cancelling known).bind (fun _ _ h => h) fun b t h => hf b base t h.1 h.2

/-- First a part that adds one tool at most, then one that adds none. -/
theorem Once.bind {α β : Type} {p : HarnessM α} {f : α → HarnessM β}
    (hp : Once env work permits p) (hf : ∀ b, Quiet env work permits (f b)) :
    Once env work permits (p >>= f) := by
  intro base s cancelling known
  refine (hp base s cancelling known).bind (fun _ _ h => h) fun b t h => ?_
  exact (hf b _ t h.1 (.refl _)).mono (fun _ h' => ⟨h'.1, h.2.trans h'.2⟩)
    fun _ _ h' => ⟨h'.1, h.2.trans h'.2⟩

/-- First a part that adds none, then one that adds one at most. -/
theorem Quiet.bind_once {α β : Type} {p : HarnessM α} {f : α → HarnessM β}
    (hp : Quiet env work permits p) (hf : ∀ b, Once env work permits (f b)) :
    Once env work permits (p >>= f) := fun base s cancelling known =>
  ((hp base s cancelling known).mono (fun _ h => ⟨h.1, h.2.oneNew⟩) fun _ _ h => h).bind
    (fun _ _ h => ⟨h.1, h.2.oneNew⟩) fun b t h => hf b base t h.1 h.2

section Cancels

variable (spared : ∀ db op, permits db op → op.Spares work.key)
  (left : ∀ db op, permits db op → op.Leaves work.key db)

include spared left

theorem Quiet.of_tame {α : Type} {p : HarnessM α} (within : p.Within (Tame work.key)) :
    Quiet env work permits p := by
  intro base s cancelling known
  refine within.meets (P := fun t => Cancelling work.key t ∧ Known base (t.db.toolsOf work.key))
    ?_ ?_ ⟨cancelling, known⟩
  · intro u v moved h
    exact ⟨Cancelling.stable spared u v moved h.1, tools_stable left (Known base) u v moved h.2⟩
  · intro u v tame h
    exact ⟨tame.1 h.1, h.2.trans tame.2⟩

theorem Quiet.of_minor {α : Type} {p : HarnessM α} (within : p.Within (Minor env.deployment)) :
    Quiet env work permits p := .of_tame spared left (within.mono fun _ _ => Minor.tame)

theorem all_of_tame {α : Type} {p : HarnessM α} (within : p.Within (Tame work.key)) :
    p.All (Once env work permits) :=
  within.all fun _ within => (Quiet.of_tame spared left within).once

omit spared left in
theorem carryOut_tame {call : CodeCall} {id : Uuid} :
    (env.carryOut call id).Within (Tame work.key) :=
  carryOut_within (fun _ _ => Minor.tame) (fun _ => startTool_tame) fun _ _ _ _ _ => finishTool_tame

omit spared left in
theorem conclude_tame {text : String} {outcome : TaskOutcome} :
    (env.conclude work text outcome).Within (Tame work.key) :=
  conclude_within (fun _ _ => Minor.tame) fun _ _ _ => succeed_tame

/-- To prepare a tool adds one at most. -/
theorem once_prepare {asked : ToolCall} {actor : String}
    (mine : (asked.scopeId, asked.runId) = work.key) :
    Once env work permits (ask (prepareTool env.deployment asked actor)) := by
  intro base s cancelling known
  have stable : Client.Stable (Beside env.deployment permits) (fun t => Cancelling work.key t ∧
      OneNew base (t.db.toolsOf work.key)) := fun u v moved h =>
    ⟨Cancelling.stable spared u v moved h.1, tools_stable left (OneNew base) u v moved h.2⟩
  have ends : ∀ {r : Except Raised (Uuid × ToolStatus)} {v : Store},
      Cancelling work.key v ∧ OneNew base (v.db.toolsOf work.key) →
        (Client.done r).Meets (Beside env.deployment permits)
          (fun t => Cancelling work.key t ∧ OneNew base (t.db.toolsOf work.key))
          (fun _ t => Cancelling work.key t ∧ OneNew base (t.db.toolsOf work.key)) v :=
    fun hv t later => ⟨stable.later later hv, stable.later later hv⟩
  refine .ask fun u moves => ?_
  have hu : Cancelling work.key u ∧ Known base (u.db.toolsOf work.key) :=
    ⟨(Cancelling.stable spared).later moves cancelling,
      (tools_stable left (Known base)).later moves known⟩
  have own : Cancelling work.key (finalState (prepareTool env.deployment asked actor) u) :=
    Own.cancelling (.call (.prepareTool asked actor) rfl) hu.1
  refine ⟨⟨hu.1, hu.2.oneNew⟩, fun x v ended => ends ?_, fun e v ended => ends ?_⟩
  · rw [finalState_of_ok ended] at own
    have amended := prepareTool_amends ended
    rw [mine] at amended
    exact ⟨own, Harness.Amended.oneNew amended hu.2⟩
  · rw [finalState_of_error ended] at own
    rw [prepareTool_error ended]
    exact ⟨own, hu.2.oneNew⟩

theorem all_operation {call : CodeCall} {asked : ToolCall}
    (mine : (asked.scopeId, asked.runId) = work.key) :
    (env.operation call asked).All (Once env work permits) := by
  have first : (ask (prepareTool env.deployment asked call.actor)).All (Once env work permits) := by
    refine ⟨once_prepare spared left mine, fun r => ?_⟩
    cases r with
    | ok x => exact (Quiet.of_minor spared left (.pure x)).once
    | error e => exact (Quiet.of_minor spared left (.stop _)).once
  exact first.bind (fun x => all_of_tame spared left carryOut_tame)
    fun q once => once.bind fun x => .of_tame spared left carryOut_tame

/-- Up to the final text the harness adds no tool from where it looks, and one at most at any
time. -/
theorem composes_cancels : Composes env work
    (fun _ p => Quiet env work permits p ∧ p.All (Once env work permits))
    (fun _ p => p.All (Once env work permits)) where
  given r := ⟨.of_minor spared left (.given r), (Quiet.of_minor spared left (.given r)).once⟩
  bind hp hf := ⟨hp.1.bind fun b => (hf b).1,
    hp.2.bind (fun b => (hf b).2) fun q once => once.bind fun b => (hf b).1⟩
  minor within := ⟨.of_minor spared left within,
    all_of_tame spared left (within.mono fun _ _ => Minor.tame)⟩
  later within hf := (within.all fun _ h => h).bind hf fun q minor =>
    (Quiet.of_minor spared left minor).bind_once fun b => (hf b).here
  operation here mine hf := (all_operation spared left mine).bind (fun b => (hf b).2)
    fun q once => once.bind fun b => (hf b).1
  looks hp hq := by
    refine ⟨fun base s cancelling known => ?_, ?_⟩
    · refine (getRun_meets (I := fun t => Cancelling work.key t ∧
        Known base (t.db.toolsOf work.key)) ?_ ⟨cancelling, known⟩).bind (fun _ _ h => h.1)
          fun view t h => ?_
      · exact fun u v moved h => ⟨Cancelling.stable spared u v moved h.1,
          tools_stable left (Known base) u v moved h.2⟩
      · -- the harness sees that the run is being cancelled
        obtain ⟨⟨cancelling, known⟩, told⟩ := h
        obtain ⟨u, ⟨⟨b, state, isCancelling⟩, -⟩, -, same⟩ := told view rfl
        obtain ⟨v, rfl, here⟩ := Option.map_eq_some_iff.1 (same.trans state)
        have sees : stops (some v) = true := by
          have status : v.row.status = .cancelling :=
            (congrArg RunState.status here).trans isCancelling
          simp [stops, status]
        rw [if_pos sees]
        exact hp.1 base t cancelling known
    · have reads : (env.getRun work).All fun q => q.Within (Minor env.deployment) :=
        getRun_within.all fun _ h => h
      refine reads.bind (fun current => ?_) fun q minor =>
          (Quiet.of_minor spared left minor).bind_once fun current => ?_
      · split
        · exact hp.2
        · exact hq
      · split
        · exact hp.2.here
        · exact hq.here

end Cancels

/-- **A cancelled run stops.**  From the moment the run is being cancelled, wherever the harness is
then and whatever the model asks for, it stays so, and at most one more tool is prepared for it. -/
theorem execute_cancels (spared : ∀ db op, permits db op → op.Spares work.key)
    (left : ∀ db op, permits db op → op.Leaves work.key db) {u : Store}
    {p q : HarnessM (Option Reader.RunView)}
    (run : Client.Run (Beside env.deployment permits) (env.execute work, s) (p, u))
    (cancelling : Cancelling work.key u)
    (more : Client.Run (Beside env.deployment permits) (p, u) (q, t)) :
    Cancelling work.key t ∧ OneNew (u.db.toolsOf work.key) (t.db.toolsOf work.key) := by
  have all : (env.execute work).All (Once env work permits) :=
    (composes_cancels spared left).finalMessage.2.bind
      (fun _ => all_of_tame spared left conclude_tame)
      fun q once => once.bind fun _ => .of_tame spared left conclude_tame
  exact more.always ((all.run run).here _ u cancelling (.refl _))

/-- The run is cancelled before the harness begins. -/
theorem execute_cancels_cancelled :
    let u := (Op.cancelRun "ada" ⟨2⟩ none).exec .plain claimed
    let t := (cancelledAt [none, none, none, none, none] (Surroundings.plain.execute .plain, u)).2
    Cancelling Assignment.plain.key t ∧
      OneNew (u.db.toolsOf Assignment.plain.key) (t.db.toolsOf Assignment.plain.key) := by
  have first : Client.Run (Beside Surroundings.plain.deployment Cancels)
      (Surroundings.plain.execute .plain, claimed)
      (Surroundings.plain.execute .plain, (Op.cancelRun "ada" ⟨2⟩ none).exec .plain claimed) :=
    .single (.others (.call _ rfl))
  exact execute_cancels Cancels.spares Cancels.leaves first claimed_cancelled
    (cancelledAt_run [none, none, none, none, none] _)

end CodeForge.Harness
