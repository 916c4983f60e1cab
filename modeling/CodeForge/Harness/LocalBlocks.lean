import CodeForge.Harness.LocalLedger

/-!
# The blocks of a run in the ledger

A run of the local harness whose message has blocks succeeds only after every block
was executed.  The ledger then has a row for each block, bound to its code, and the
outcome of the run is what the statuses of these rows come to (`execute_reports`).
-/

namespace CodeForge.Harness

open Lib StoreM

variable {env : Surroundings} {work : Assignment} {permits : Db → Op → Prop} {s t : Store}
  {a : RunState}

/-! ## Rows of blocks -/

/-- The key of a block. -/
def blockKey (env : Surroundings) (work : Assignment) (toolRef : String) (index : Nat) : String :=
  toolRef ++ ":" ++ env.deployment.uuidText work.attemptId ++ ":" ++ toString index

/-- The ledger has a row of the block, with the status it has ended with. -/
def Ran (env : Surroundings) (work : Assignment) (l : List ToolRow) (index : Nat)
    (action : String × String) (status : ToolStatus) : Prop :=
  status ≠ .prepared ∧ status ≠ .running ∧ ∃ row ∈ l, row.status = status ∧
    row.logicalCallKey = blockKey env work action.1 index ∧
      row.paramsDigest = env.deployment.sha256 (utf8 (action.1 ++ "\x00" ++ action.2))

/-- The first blocks have ended with these statuses. -/
def Evidence (env : Surroundings) (work : Assignment) (l : List ToolRow)
    (actions : List (String × String)) (statuses : List ToolStatus) : Prop :=
  ∀ i status, statuses[i]? = some status →
    ∃ action, actions[i]? = some action ∧ Ran env work l i action status

/-- What the statuses of the blocks of a message come to. -/
def blocksOutcome (statuses : List ToolStatus) : TaskOutcome :=
  if statuses.all (· = .succeeded) then .completed
  else if statuses.any (· = .succeeded) then .partially
  else .blocked

theorem toolNamed_eq_some {ref : String} {tool : CodeTool} (h : toolNamed ref = some tool) :
    tool.ref = ref := by
  unfold toolNamed at h
  split at h
  next python =>
    cases h
    exact python.symm
  next =>
    split at h
    next command =>
      cases h
      exact command.symm
    next => cases h

/-- Every action has a tool. -/
theorem planActions_named {text : String} {action : String × String}
    (h : action ∈ planActions text) : ∃ tool, toolNamed action.1 = some tool := by
  obtain ⟨m, -, rfl⟩ := List.mem_map.1 h
  show ∃ tool, toolNamed m.value.tool.ref = some tool
  cases m.value.tool with
  | python => exact ⟨.python, rfl⟩
  | command => exact ⟨.command, rfl⟩

theorem toString_injective {i j : Nat} (h : toString i = toString j) : i = j :=
  Json.nat_injective (congrArg Json.num h)

/-- Different blocks have different keys. -/
theorem blockKey_inj {tool tool' : CodeTool} {i j : Nat}
    (h : blockKey env work tool.ref i = blockKey env work tool'.ref j) : i = j := by
  have texts := congrArg String.toList h
  simp only [blockKey, String.toList_append, List.append_assoc] at texts
  have same : ∀ head : List Char, head ++ (":".toList ++
      ((env.deployment.uuidText work.attemptId).toList ++ (":".toList ++ (toString i).toList))) =
        head ++ (":".toList ++ ((env.deployment.uuidText work.attemptId).toList ++
          (":".toList ++ (toString j).toList))) → i = j := by
    intro head same
    have digits := List.append_cancel_left (List.append_cancel_left (List.append_cancel_left
      (List.append_cancel_left same)))
    exact toString_injective (String.toList_inj.1 digits)
  cases tool with
  | python =>
      cases tool' with
      | python => exact same _ texts
      | command => exact absurd (congrArg List.head? texts) (by simp [CodeTool.ref])
  | command =>
      cases tool' with
      | python => exact absurd (congrArg List.head? texts) (by simp [CodeTool.ref])
      | command => exact same _ texts

theorem Evidence.nil {l : List ToolRow} {actions : List (String × String)} :
    Evidence env work l actions [] := fun _ _ found => by simp at found

/-- The next block has ended, and the rows of the blocks before it are as they were. -/
theorem Evidence.add {before after : List ToolRow} {actions : List (String × String)}
    {statuses : List ToolStatus} {tool : CodeTool} {toolRef code : String} {ended : Ended}
    (named : ∀ action ∈ actions, ∃ tool, toolNamed action.1 = some tool)
    (h : Evidence env work before actions statuses) (mine : toolNamed toolRef = some tool)
    (next : actions[statuses.length]? = some (toolRef, code))
    (finished : Finished before after
      (env.blockCall (env.codeCall work tool code "") statuses.length) ended) :
    Evidence env work after actions (statuses ++ [ended.status]) := by
  have ref := toolNamed_eq_some mine
  intro i status found
  rcases Nat.lt_or_ge i statuses.length with earlier | later
  · rw [List.getElem?_append_left earlier] at found
    obtain ⟨action, place, prepared, running, row, hrow, same, key, digest⟩ := h i status found
    refine ⟨action, place, prepared, running, row, ?_, same, key, digest⟩
    refine (finished.amended.others row fun its => ?_).2 hrow
    -- the row of an earlier block has another key
    have called : row.logicalCallKey = blockKey env work tool.ref statuses.length :=
      congrArg (·.2.2) (finished.amended.was row hrow its)
    obtain ⟨tool', mine'⟩ := named action (List.mem_of_getElem? place)
    rw [key, ← toolNamed_eq_some mine'] at called
    exact absurd (blockKey_inj called) (Nat.ne_of_lt earlier)
  · have last : i = statuses.length := by
      have bound := (List.getElem?_eq_some_iff.1 found).1
      simp only [List.length_append, List.length_cons, List.length_nil] at bound
      omega
    subst last
    rw [List.getElem?_concat_length] at found
    cases found
    obtain ⟨row, hrow, its⟩ := finished.amended.there
    obtain ⟨called, digest⟩ := finished.amended.now row hrow its
    refine ⟨_, next, finished.atEnd.1, finished.atEnd.2, row, hrow, finished.status row hrow its,
      ?_, ?_⟩
    · rw [← ref]
      exact congrArg (·.2.2) called
    · rw [← ref]
      exact digest

/-- The numbers of blocks that succeeded and that did not. -/
def Tally.Counts (tally : Tally) (statuses : List ToolStatus) : Prop :=
  tally.successes = statuses.countP (· = .succeeded) ∧
    tally.failures = statuses.countP (· ≠ .succeeded)

theorem Tally.Counts.nil : Tally.Counts {} [] := ⟨rfl, rfl⟩

theorem Tally.Counts.add {tally : Tally} {statuses : List ToolStatus} (h : tally.Counts statuses)
    (logs : Backend) (ended : Ended) :
    (tally.add logs ended).Counts (statuses ++ [ended.status]) := by
  obtain ⟨successes, failures⟩ := h
  simp only [Tally.Counts, Tally.add, List.countP_append, List.countP_singleton]
  by_cases succeeded : ended.status = .succeeded
  · simp [succeeded, successes, failures]
  · simp [succeeded, successes, failures]

/-- The outcome is that of the statuses. -/
theorem Tally.Counts.outcome {tally : Tally} {statuses : List ToolStatus}
    (h : tally.Counts statuses) : tally.conclusion.2 = blocksOutcome statuses := by
  obtain ⟨successes, failures⟩ := h
  have all : statuses.all (· = .succeeded) = true ↔ tally.failures = 0 := by
    rw [failures, List.countP_eq_zero]
    simp
  have any : statuses.any (· = .succeeded) = true ↔ tally.successes ≠ 0 := by
    rw [successes, ← Nat.pos_iff_ne_zero, List.countP_pos_iff]
    simp
  unfold Tally.conclusion blocksOutcome
  by_cases failed : tally.failures = 0
  · rw [if_pos (all.2 failed)]
    simp [failed]
  · rw [if_neg fun h => failed (all.1 h)]
    by_cases none_succeeded : tally.successes = 0
    · rw [if_neg fun h => any.1 h none_succeeded]
      simp [failed, none_succeeded]
    · rw [if_pos (any.2 none_succeeded)]
      simp [failed, none_succeeded]

/-! ## The loop over the blocks -/

/-- The blocks that were executed: all of them, if the run is not being cancelled. -/
def Executed (env : Surroundings) (work : Assignment) (actions : List (String × String))
    (tally : Tally) (t : Store) : Prop :=
  Cancelling work.key t ∨ ∃ statuses, statuses.length = actions.length ∧
    tally.Counts statuses ∧ Evidence env work (t.db.toolsOf work.key) actions statuses

section Loop

variable (spared : ∀ db op, permits db op → op.Spares work.key)
  (left : ∀ db op, permits db op → op.Leaves work.key db)

include spared left

theorem Executed.stable {actions : List (String × String)} {tally : Tally} :
    Client.Stable (Beside env.deployment permits) (Executed env work actions tally) := by
  intro s t moved executed
  rcases executed with cancelling | ⟨statuses, length, counts, evidence⟩
  · exact .inl (Cancelling.stable spared s t moved cancelling)
  · exact .inr ⟨statuses, length, counts,
      tools_stable left (Evidence env work · actions statuses) s t moved evidence⟩

theorem runBlocks_meets (running : a.status = .running) {actions : List (String × String)}
    (named : ∀ action ∈ actions, ∃ tool, toolNamed action.1 = some tool)
    {before rest : List (String × String)} (whole : actions = before ++ rest)
    {statuses : List ToolStatus} (length : statuses.length = before.length) {tally : Tally}
    (counts : tally.Counts statuses) (live : Live a work.key s)
    (evidence : Evidence env work (s.db.toolsOf work.key) actions statuses) :
    (env.runBlocks work before.length tally rest).Meets (Beside env.deployment permits)
      (Live a work.key)
      (fun r t => Live a work.key t ∧
        ∀ tally', r = .ok tally' → Executed env work actions tally' t) s := by
  have stable : Client.Stable (Beside env.deployment permits) (Live a work.key) :=
    .stable spared running
  have ends : ∀ {tally' : Tally} {u : Store}, Live a work.key u →
      Executed env work actions tally' u →
        (Client.done (.ok tally') : HarnessM Tally).Meets (Beside env.deployment permits)
          (Live a work.key)
          (fun r t => Live a work.key t ∧
            ∀ tally', r = .ok tally' → Executed env work actions tally' t) u := by
    intro tally' u live executed v later
    have hv := stable.later later live
    refine ⟨hv, hv, fun _ same => ?_⟩
    cases same
    exact (Executed.stable spared left).later later executed
  induction rest generalizing before statuses tally s with
  | nil =>
      rw [List.append_nil] at whole
      exact ends live (.inr ⟨statuses, by rw [length, whole], counts, evidence⟩)
  | cons action rest ih =>
      obtain ⟨toolRef, code⟩ := action
      have place : actions[statuses.length]? = some (toolRef, code) := by
        rw [whole, length]
        simp
      obtain ⟨tool, mine⟩ := named _ (List.mem_of_getElem? place)
      rw [Surroundings.runBlocks]
      refine ((getRun_meets (I := fun t => Live a work.key t ∧
        Evidence env work (t.db.toolsOf work.key) actions statuses) ?_ ⟨live, evidence⟩).mono
          (fun _ h => h.1) fun _ _ h => h).bind
            (fun e t h => ⟨h.1.1, fun _ same => by cases same⟩) fun view t h => ?_
      · exact fun u v moved h => ⟨stable u v moved h.1,
          tools_stable left (Evidence env work · actions statuses) u v moved h.2⟩
      obtain ⟨⟨live, evidence⟩, told⟩ := h
      obtain ⟨u, ⟨seen, -⟩, later, same⟩ := told view rfl
      rcases seen with state | state
      · -- the run was told as it was
        obtain ⟨v, rfl, here⟩ := Option.map_eq_some_iff.1 (same.trans state)
        have goes : stops (some v) = false := by
          have status : v.row.status = .running := (congrArg RunState.status here).trans running
          simp [stops, status]
        rw [if_neg (by simp [goes]), mine]
        have live' : (env.operation (env.codeCall work tool code "")
            (env.blockCall (env.codeCall work tool code "") before.length)).Meets
              (Beside env.deployment permits) (Live a work.key) (fun _ => Live a work.key) t :=
          operation_within.meets stable (.stable (fun _ _ => Op.ofWorker.spares) running) live
        refine (((operation_meets left rfl rfl).and live').mono (fun _ h => h.2)
          fun _ _ h => h).bind (fun e t h => ⟨h.2, fun _ same => by cases same⟩)
            fun ended t' h => ?_
        obtain ⟨finished, live⟩ := h
        rw [← length] at finished
        have split : actions = (before ++ [(toolRef, code)]) ++ rest := by simp [whole]
        have next := ih split (by simp [length]) (counts.add env.backend ended) live
          (evidence.add named mine place finished)
        rw [List.length_append] at next
        exact next
      · -- it was told as being cancelled
        obtain ⟨v, rfl, here⟩ := Option.map_eq_some_iff.1 (same.trans state)
        have sees : stops (some v) = true := by
          have status : v.row.status = .cancelling := congrArg RunState.status here
          simp [stops, status]
        rw [if_pos sees]
        exact ends live (.inl ((Cancelling.stable spared).later later ⟨_, state, rfl⟩))

/-- What the final text is made of, if the message has blocks. -/
theorem finalMessage_meets (running : a.status = .running) (blocks : planActions work.input ≠ [])
    (live : Live a work.key s) :
    (env.finalMessage work).Meets (Beside env.deployment permits) (Live a work.key)
      (fun r t => Live a work.key t ∧ ∀ b, r = .ok b → Cancelling work.key t ∨
        ∃ statuses, statuses.length = (planActions work.input).length ∧
          b.2 = blocksOutcome statuses ∧
            Evidence env work (t.db.toolsOf work.key) (planActions work.input) statuses) s := by
  have stable : Client.Stable (Beside env.deployment permits) (Live a work.key) :=
    .stable spared running
  have own : ∀ {α : Type} {p : HarnessM α} {u : Store}, p.Within (Own env.deployment) →
      Live a work.key u →
        p.Meets (Beside env.deployment permits) (Live a work.key) (fun _ => Live a work.key) u :=
    fun within live =>
      within.meets stable (.stable (fun _ _ => Op.ofWorker.spares) running) live
  rw [Surroundings.finalMessage]
  refine (own (.given _) live).bind (fun e t live => ⟨live, fun _ same => by cases same⟩)
    fun _ t₁ live => ?_
  refine (own composes_own.activateSkills live).bind
    (fun e t live => ⟨live, fun _ same => by cases same⟩) fun _ t₂ live => ?_
  refine (runBlocks_meets spared left running (fun _ => planActions_named)
    (List.nil_append _).symm rfl .nil live .nil).bind
      (fun e t h => ⟨h.1, fun _ same => by cases same⟩) fun tally t₃ h => ?_
  rw [if_neg blocks]
  obtain ⟨live, told⟩ := h
  have executed := told tally rfl
  refine .done fun u later => ?_
  have hu := stable.later later live
  refine ⟨hu, hu, fun b same => ?_⟩
  cases same
  refine ((Executed.stable spared left).later later executed).imp_right ?_
  rintro ⟨statuses, length, counts, evidence⟩
  exact ⟨statuses, length, counts.outcome, evidence⟩

end Loop

theorem Live.unfinished (running : a.status = .running) {k : Key} (live : Live a k t)
    {b : RunState} (now : t.db.stateOf k = some b) : b.status ≠ .succeeded := by
  rcases live with state | state
  · cases now.symm.trans state
    simp [running]
  · cases now.symm.trans state
    exact fun same => by cases same

/-- **What a run reports.**  A run was running, its message has blocks, and nobody else calls
`transition_run` for it or writes its tools.  Whenever it has succeeded, every block was executed,
one row for each is in the ledger with the status it has ended with, and the outcome of the run is
what these statuses come to. -/
theorem execute_reports (spared : ∀ db op, permits db op → op.Spares work.key)
    (left : ∀ db op, permits db op → op.Leaves work.key db) (running : a.status = .running)
    (state : s.db.stateOf work.key = some a) (blocks : planActions work.input ≠ [])
    {q : HarnessM (Option Reader.RunView)}
    (run : Client.Run (Beside env.deployment permits) (env.execute work, s) (q, t))
    {b : RunState} (now : t.db.stateOf work.key = some b) (succeeded : b.status = .succeeded) :
    ∃ statuses, statuses.length = (planActions work.input).length ∧
      b.taskOutcome = some (blocksOutcome statuses) ∧
        Evidence env work (t.db.toolsOf work.key) (planActions work.input) statuses := by
  -- what is true of every state
  let I : Store → Prop := fun t => ∀ b : RunState, t.db.stateOf work.key = some b →
    b.status = .succeeded → ∃ statuses, statuses.length = (planActions work.input).length ∧
      b.taskOutcome = some (blocksOutcome statuses) ∧
        Evidence env work (t.db.toolsOf work.key) (planActions work.input) statuses
  have meets : (env.execute work).Meets (Beside env.deployment permits) I (fun _ _ => True) s := by
    have live : ∀ u, Live a work.key u → I u := fun u live b now succeeded =>
      absurd succeeded (live.unfinished running now)
    refine ((finalMessage_meets spared left running blocks (.inl state)).mono live
      fun _ _ h => h).bind (fun _ _ _ => trivial) ?_
    rintro ⟨text, outcome⟩ u ⟨here, told⟩
    rcases told _ rfl with cancelling | ⟨statuses, length, same, evidence⟩
    · -- a run that is being cancelled stays so
      refine (Quiet.of_tame spared left conclude_tame _ u cancelling (.refl _)).mono
        (fun v h b now succeeded => ?_) fun _ _ _ => trivial
      obtain ⟨⟨b', state, cancelling⟩, -⟩ := h
      cases now.symm.trans state
      exact absurd (succeeded.symm.trans cancelling) fun same => by cases same
    · refine ((conclude_meets spared running here).and (conclude_tools left
        (Evidence env work · (planActions work.input) statuses) evidence)).mono
          (fun v h b now succeeded => ?_) fun _ _ _ => trivial
      obtain ⟨seen, evidence⟩ := h
      rcases seen with there | there
      · exact absurd succeeded (there.unfinished running now)
      · cases now.symm.trans there
        exact ⟨statuses, length, congrArg some same, evidence⟩
  exact run.always meets b now succeeded

/-! ### A block that succeeds -/

/-- The call of the block of `Assignment.plain`. -/
def CodeCall.block : CodeCall := Surroundings.plain.codeCall .plain .python "pass\n" ""

/-- Where the run is, as far as the harness asks. -/
def isAt (status : RunStatus) (version : Nat) : StoreM PUnit := do
  let db ← getDb
  ensure ((db.stateOf Assignment.plain.key).map (fun a => (a.status, a.stateVersion)) =
    some (status, version)) .assertion

/-- The calls of the harness that write the store, and what it finds in between. -/
def blockWrites : StoreM PUnit := do
  let x ← prepareTool .plain (Surroundings.plain.blockCall .block 0) Surroundings.plain.actor
  startTool .plain "ada" x.1 Surroundings.plain.actor
  finishTool .plain "ada" x.1 .succeeded none none Surroundings.plain.actor none
  let messageId ← uuid4
  let _ ← appendEvent .plain "ada" ⟨2⟩ .messageCompleted
    [("message_id", .str (Deployment.plain.uuidText messageId)),
      ("text", .str "Tool execution completed.")] Surroundings.plain.actor
  isAt .running 1
  let _ ← transitionRun .plain "ada" ⟨2⟩ 1 .succeeded
    { taskOutcome := some .completed, output := some "Tool execution completed." }
    (some Surroundings.plain.actor)
  isAt .succeeded 2

theorem blockWrites_ends : Ends (isAt .running 1 >>= fun _ => blockWrites) claimed := by
  decide +kernel

theorem isAt_eq_ok {status : RunStatus} {version : Nat} {u : PUnit}
    (h : isAt status version s = .ok u t) : s = t ∧ ∃ b : RunState,
      s.db.stateOf Assignment.plain.key = some b ∧ b.status = status ∧
        b.stateVersion = version := by
  simp only [isAt, getDb_bind_eq_ok, ensure_eq_ok, decide_eq_true_eq] at h
  obtain ⟨here, rfl⟩ := h
  obtain ⟨b, state, same⟩ := Option.map_eq_some_iff.1 here
  obtain ⟨status, version⟩ := Prod.mk.inj same
  exact ⟨rfl, b, state, status, version⟩

/-- The operation of the block. -/
theorem operation_run {R : Store → Store → Prop} {x : Uuid × ToolStatus} {s₁ s₂ s₃ : Store}
    (prepared : prepareTool .plain (Surroundings.plain.blockCall .block 0) Surroundings.plain.actor
      s = .ok x s₁)
    (started : startTool .plain "ada" x.1 Surroundings.plain.actor s₁ = .ok () s₂)
    (finished : finishTool .plain "ada" x.1 .succeeded none none Surroundings.plain.actor none s₂ =
      .ok () s₃) :
    Client.Run R (Surroundings.plain.operation .block (Surroundings.plain.blockCall .block 0), s)
      (.done (.ok ⟨x.1, .plain, .ok none, .succeeded⟩), s₃) := by
  have said : ∀ type more u, skillEvent .plain .block x.1 type more u = .ok () u :=
    fun _ _ _ => rfl
  have committed : ∀ u, commitResult .plain .plain .block u = .ok (.ok none) u := fun _ => rfl
  refine .seq (.ask prepared) (.seq (.ask started) (.seq (.ask (said _ _ _)) (.seq .refl ?_)))
  refine .seq (.ask (committed _)) (.seq (.ask rfl) (.seq (.ask finished) ?_))
  exact .seq (.ask (said _ _ _)) .refl

/-- What is said of a block that succeeds and prints nothing. -/
theorem conclusion_quiet (id : Uuid) :
    (Tally.add {} Surroundings.plain.backend ⟨id, .plain, .ok none, .succeeded⟩).conclusion =
      ("Tool execution completed.", .completed) := by
  have quiet : logText Surroundings.plain.backend OperationResult.plain.stdoutRef = "" := by
    decide +kernel
  have tally : Tally.add {} Surroundings.plain.backend ⟨id, .plain, .ok none, .succeeded⟩ =
      { outputParts := [], successes := 1, failures := 0 } := by
    simp [Tally.add, quiet]
  rw [tally]
  decide +kernel

/-- A run that nobody else touches. -/
theorem execute_reports_block : ∃ q t b statuses,
    Client.Run (Beside Surroundings.plain.deployment Cancels)
      (Surroundings.plain.execute .plain, claimed) (q, t) ∧
    t.db.stateOf Assignment.plain.key = some b ∧ b.status = .succeeded ∧
      statuses.length = (planActions Assignment.plain.input).length ∧
      b.taskOutcome = some (blocksOutcome statuses) ∧
        Evidence .plain .plain (t.db.toolsOf Assignment.plain.key)
          (planActions Assignment.plain.input) statuses := by
  have actions : planActions Assignment.plain.input = [("python", "pass\n")] := by decide +kernel
  obtain ⟨_, last, ended⟩ := blockWrites_ends
  have sound := claimed_sound
  generalize claimed = s at *
  simp only [blockWrites, bind_eq_ok] at ended
  obtain ⟨_, _, first, x, s₁, prepared, _, s₂, started, _, s₃, finished, m, s₄, drawn, e, s₅,
    appended, _, s₆, there, o, s₇, moved, final⟩ := ended
  obtain ⟨rfl, a, state, running, version⟩ := isAt_eq_ok first
  obtain ⟨rfl, b, state₅, running₅, version₅⟩ := isAt_eq_ok there
  obtain ⟨rfl, c, state₇, succeeded, -⟩ := isAt_eq_ok final
  cases drawn
  -- the store stays sound up to the second reading
  have sound₁ := sound.call (.prepareTool (Surroundings.plain.blockCall .block 0)
    Surroundings.plain.actor) trivial trivial (finalState_of_ok prepared)
  have sound₂ := sound₁.call (.startTool "ada" x.1 Surroundings.plain.actor) trivial trivial
    (finalState_of_ok started)
  have sound₃ := sound₂.call (.finishTool "ada" x.1 .succeeded none none Surroundings.plain.actor
    none) trivial trivial (finalState_of_ok finished)
  have sound₅ := sound₃.uuid4.call (.appendEvent "ada" ⟨2⟩ .messageCompleted _
    Surroundings.plain.actor) trivial trivial (finalState_of_ok appended)
  obtain ⟨view, told, same⟩ := sound.told (A := .plain) (fun _ => rfl) state
  obtain ⟨view₅, told₅, same₅⟩ := sound₅.told (A := .plain) (fun _ => rfl) state₅
  have goes : stops (some view) = false := by
    have status : view.row.status = .running := (congrArg RunState.status same).trans running
    simp [stops, status]
  have status₅ : view₅.row.status = .running := (congrArg RunState.status same₅).trans running₅
  have number₅ : view₅.row.stateVersion = 1 :=
    (congrArg RunState.stateVersion same₅).trans version₅
  have blocks : Client.Run (Beside Surroundings.plain.deployment Cancels)
      (Surroundings.plain.runBlocks .plain 0 {} [("python", "pass\n")], s)
      (.done (.ok (Tally.add {} Surroundings.plain.backend ⟨x.1, .plain, .ok none, .succeeded⟩)),
        s₃) := by
    refine .seq (.ask told) ?_
    rw [if_neg (by simp [goes])]
    exact .seq (operation_run prepared started finished) .refl
  have text : Client.Run (Beside Surroundings.plain.deployment Cancels)
      (Surroundings.plain.finalMessage .plain, s)
      (.done (.ok ("Tool execution completed.", .completed)), s₃) := by
    rw [Surroundings.finalMessage, actions]
    refine .seq .refl (.seq .refl (.seq blocks ?_))
    rw [if_neg (by simp), conclusion_quiet]
    exact .refl
  have run : Client.Run (Beside Surroundings.plain.deployment Cancels)
      (Surroundings.plain.execute .plain, s) (Surroundings.plain.getRun .plain, s₇) := by
    refine .seq text (.seq (.ask rfl) (.seq (.ask appended) (.seq (.ask told₅) ?_)))
    simp only [Option.map_some, Option.getD_some, status₅, number₅]
    rw [if_neg (by decide), if_pos (by decide)]
    exact .seq (.ask moved) .refl
  obtain ⟨statuses, reported⟩ := execute_reports Cancels.spares Cancels.leaves running state
    (by simp [actions]) run state₇ succeeded
  exact ⟨_, s₇, c, statuses, run, state₇, succeeded, reported⟩

end CodeForge.Harness
