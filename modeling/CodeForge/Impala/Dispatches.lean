import CodeForge.Impala.Dispatcher

/-!
# A slot is dispatched once

Whatever the calls of a slot do, and whenever the process is killed, one of them
at most enters `ImpalaTools.call`, and so the statement of the user is submitted
once at most.  This rests on three facts about the call that has the lock of the
slot.  It alone has it.  A call that found its tool prepared is `Vacant`: nobody
of the slot has entered yet.  And a call that enters has started its tool, which
the ledger never forgets.

A call that is repeated finds the tool started.  It is answered from the ledger
and the result file, or not at all (`Dispatching.replayed`), and with other
arguments it is refused (`Dispatching.refused`).
-/

namespace CodeForge.Impala

open Lib QueryM

/-! ## What is sent to the server -/

section Sending

variable {V : Type} {W : World V} {job : Job} {fuel : Nat}

/-- A property of traces that plain calls keep holds at the end of a query if it holds at the end
of its `try` block. -/
theorem execute_keeps {P : List (Reply V) → Prop} (plain : Plain P)
    {settle : Query V → Option Raised} (nothing : P [])
    (ran : ∀ deadline s, s.trace = [] → P (finalState (runQuery W job deadline fuel) s).trace) :
    P (finalState (execute W job settle fuel) (Query.start job)).trace := by
  let J : Query V → Prop := fun s => P s.trace
  have stays : ∀ s, J s → J s := fun s h => h
  have concluded : J (finalState (conclude W job fuel) (Query.start job)) := by
    refine Preserves.follow (I := J) (ask_keeps _) stays (fun start s₁ asked h₁ => ?_) nothing
    obtain ⟨rfl, rfl⟩ := ask_eq_ok.1 asked
    have body : J (finalState (attempt (runQuery W job
        ((W.monotonic 0).val + job.profile.policy.timeoutSeconds * 1000000000) fuel))
        { Query.start job with asks := 1 }) := by
      rw [finalState_attempt]
      exact ran _ _ rfl
    refine finalState_follow (J := J) (Q := J) body stays fun outcome s₂ _ h₂ => ?_
    exact Preserves.bind (handleFailure_keeps outcome) (fun _ => .bind plain.closeCursor fun _ =>
      .bind plain.closeConnection fun _ => .bind (ask_keeps _) fun _ =>
        .bind (setResult_keeps_trace _) fun _ => .pure _) s₂ h₂
  refine finalState_follow (J := J) (Q := J) concluded stays fun pending s₁ _ h₁ => ?_
  refine Preserves.get.follow (J := J) stays (fun q s₂ got h₂ => ?_) h₁
  cases settle q with
  | some e => exact h₂
  | none =>
      cases pending with
      | some e => exact h₂
      | none => exact h₂

/-- The call submits a statement that is not about the account. -/
def DriverCall.business : DriverCall → Bool
  | .executeAsync sql _ => sql ≠ "SELECT effective_user()"
  | _ => false

theorem DriverCall.business_submits {c : DriverCall} (h : c.business = true) : c.submits = true := by
  cases c with
  | executeAsync => rfl
  | connect | cursor | setArraysize | status | fetchmany | description | cancelOperation
  | closeCursor | closeConnection => cases h

theorem Unsubmitted.business {l : List (Reply V)} (h : Unsubmitted job l) :
    l.countP (·.call.business) = 0 := by
  refine List.countP_eq_zero.2 fun r hr business => ?_
  rw [h.identifies r hr (DriverCall.business_submits business)] at business
  simp [Job.identify, DriverCall.business] at business

theorem Guarded.business {digest : String} {deadline : Nat} {l : List (Reply V)}
    (h : Guarded W job digest deadline l) : l.countP (·.call.business) ≤ 1 := by
  rcases h with unsubmitted | submitted
  · rw [unsubmitted.business]
    exact Nat.zero_le 1
  · obtain ⟨n, before, after, rfl, verified, -, watched⟩ := submitted.gated
    have quiet : after.countP (·.call.business) = 0 := by
      refine List.countP_eq_zero.2 fun r hr business => ?_
      have silent := watched.quiet r hr
      rw [DriverCall.business_submits business] at silent
      cases silent
    rw [List.countP_append, List.countP_cons, verified.unsubmitted.business, quiet]
    split <;> decide

/-- One call of `ImpalaTools.call` submits one statement of the user at most. -/
theorem Sends.business {sent : List DriverCall} (h : Sends sent) :
    sent.countP DriverCall.business ≤ 1 := by
  cases h with
  | nothing => exact Nat.zero_le 1
  | @query V W job settle fuel _ part =>
      have once : ((finalState (execute W job settle fuel) (Query.start job)).trace.map
          Reply.call).countP DriverCall.business ≤ 1 := by
        rw [List.countP_map]
        refine execute_keeps (P := fun l => l.countP (·.call.business) ≤ 1) ?_ (Nat.zero_le 1)
          fun deadline s start => (runQuery_guarded start).business
        intro l r plain h
        have silent : r.call.business = false := by
          rw [← Bool.not_eq_true]
          intro business
          cases plain.1.symm.trans (DriverCall.business_submits business)
        rw [List.countP_append, List.countP_singleton, silent]
        simpa using h
      exact (part.sublist.countP_le).trans once

end Sending

/-! ## One move -/

variable {ι : Type} [DecidableEq ι] {D : Dispatcher} {calls : ι → DispatchCall}

/-- The tool of a call was started. -/
def Started (D : Dispatcher) (db : Db) (c : DispatchCall) : Prop :=
  ∃ row ∈ db.tools, row.call = (D.toolCall c).call ∧ row.status ≠ .prepared

theorem Started.mono {db db' : Db} {c : DispatchCall} (h : Started D db c)
    (stays : db.LedgerStays db') : Started D db' c := by
  obtain ⟨row, hrow, call, started⟩ := h
  obtain ⟨row', hrow', -, call', -, started'⟩ := stays row hrow
  exact ⟨row', hrow', call'.trans call, started' started⟩

/-- The ledger has the operation for the call. -/
def Knows (D : Dispatcher) (db : Db) (c : DispatchCall) (operation : Uuid) : Prop :=
  ∃ row ∈ db.tools, row.call = (D.toolCall c).call ∧ row.id = operation ∧
    row.paramsDigest = (D.toolCall c).paramsDigest

theorem Knows.mono {db db' : Db} {c : DispatchCall} {operation : Uuid}
    (h : Knows D db c operation) (stays : db.LedgerStays db') : Knows D db' c operation := by
  obtain ⟨row, hrow, call, id, digest⟩ := h
  obtain ⟨row', hrow', id', call', digest', -⟩ := stays row hrow
  exact ⟨row', hrow', call'.trans call, id'.trans id, digest'.trans digest⟩

namespace DispatchPhase

/-- The call has its lock. -/
def inside : DispatchPhase → Bool
  | .waiting => false
  | _ => true

/-- The call found its tool prepared, and has not entered `tools.call`. -/
def vacant : DispatchPhase → Bool
  | .prepared _ status | .opened _ status => status = .prepared
  | .started _ => true
  | _ => false

/-- The operation of a call that may yet start it, or has. -/
def operation : DispatchPhase → Option Uuid
  | .prepared operation _ | .opened operation _ | .started operation => some operation
  | _ => none

/-- The status that the ledger will get. -/
def ending : DispatchPhase → Option ToolStatus
  | .answered _ status _ | .saved _ status _ | .reported _ status _ => some status
  | _ => none

end DispatchPhase

theorem ledgerStatus_ne_prepared {name : String} {result : List (String × Json)}
    {status : ToolStatus} (h : ledgerStatus name result = some status) : status ≠ .prepared := by
  obtain ⟨told, told_eq, rfl⟩ := Option.map_eq_some_iff.1 h
  split
  · decide
  · split at told_eq <;> cases told_eq <;> decide

/-- What is true of a call that has come to a point. -/
structure DispatchPhase.Fits (D : Dispatcher) (s : Dispatching ι) (i : ι) (c : DispatchCall)
    (phase : DispatchPhase) : Prop where
  own : phase.inside = true → s.locks (D.lock c) = some i
  knows : ∀ operation, phase.operation = some operation → Knows D s.store.db c operation
  begun : ∀ operation, phase = .started operation → Started D s.store.db c
  ends : ∀ status, phase.ending = some status → status ≠ .prepared

/-- What a move can do, apart from results. -/
structure Dispatching.Moved (D : Dispatcher) (calls : ι → DispatchCall) (i : ι)
    (s : Dispatching ι) (x : DispatchTask) (t : Dispatching ι) (y : DispatchTask) : Prop where
  process : t.process = s.process
  stays : s.store.db.LedgerStays t.store.db
  /-- The other calls keep their locks. -/
  others : ∀ k j, j ≠ i → s.locks k = some j → t.locks k = some j
  lives : ∀ p phase, y = .live p phase → p = s.process ∧ phase.Fits D t i (calls i)
  /-- What is vacant was, or the tool of the call was not started. -/
  vacant : ∀ phase, y = .live s.process phase → phase.vacant = true →
    (∃ old, x = .live s.process old ∧ old.vacant = true) ∨ ¬ Started D s.store.db (calls i)
  entered : t.entered = s.entered ∨ ∃ operation sent, x = .live s.process (.started operation) ∧
    y = .live s.process (.calling operation) ∧ Sends sent ∧ t.entered = s.entered ++ [(i, sent)]

namespace Dispatching.Moved

variable {i : ι} {s : Dispatching ι} {x : DispatchTask} {t : Store}

/-- The call ends. -/
theorem ends (stays : s.store.db.LedgerStays t.db) {outcome : DispatchOutcome} :
    Moved D calls i s x (Dispatching.release { s with store := t } i) (.ended outcome) where
  process := rfl
  stays := stays
  others k j ne held := by
    rw [Dispatching.release]
    dsimp only
    rw [held, if_neg fun same => ne (Option.some.inj same)]
  lives := fun _ _ h => by cases h
  vacant := fun _ h => by cases h
  entered := .inl rfl

omit [DecidableEq ι] in
/-- The call goes on. -/
theorem goes (stays : s.store.db.LedgerStays t.db) {results : String → Option (List UInt8)}
    {phase : DispatchPhase}
    (fits : phase.Fits D { s with store := t, results } i (calls i))
    (vacant : phase.vacant = true →
      (∃ old, x = .live s.process old ∧ old.vacant = true) ∨ ¬ Started D s.store.db (calls i)) :
    Moved D calls i s x { s with store := t, results } (.live s.process phase) where
  process := rfl
  stays := stays
  others := fun _ _ _ held => held
  lives := fun _ _ h => by
    cases h
    exact ⟨rfl, fits⟩
  vacant := fun _ h there => by
    cases h
    exact vacant there
  entered := .inl rfl

omit [DecidableEq ι] in
/-- The call goes on with its lock, and has no more to do with the start of its tool. -/
theorem passes (held : s.locks (D.lock (calls i)) = some i)
    (stays : s.store.db.LedgerStays t.db) {results : String → Option (List UInt8)}
    {phase : DispatchPhase} (late : phase.vacant = false) (done : phase.operation = none)
    (ends : ∀ status, phase.ending = some status → status ≠ .prepared) :
    Moved D calls i s x { s with store := t, results } (.live s.process phase) := by
  refine goes stays ⟨fun _ => held, fun operation there => ?_, fun operation same => ?_, ends⟩
    fun there => ?_
  · rw [done] at there
    cases there
  · rw [same] at late
    cases late
  · rw [late] at there
    cases there

end Dispatching.Moved

/-- Moves are such, where what is true of the call is true before. -/
theorem Moves.moved {i : ι} {s t : Dispatching ι} {x y : DispatchTask}
    (move : Moves D calls i s x t y)
    (fits : ∀ phase, x = .live s.process phase → phase.Fits D s i (calls i)) :
    Dispatching.Moved D calls i s x t y := by
  have same : s.store.db.LedgerStays s.store.db := .of_eq rfl
  have plain : ∀ {phase : DispatchPhase}, phase.ending = none →
      ∀ status, phase.ending = some status → status ≠ .prepared := by
    intro phase none_ status there
    rw [none_] at there
    cases there
  cases move with
  | refuse =>
      exact ⟨rfl, same, fun _ _ _ held => held, fun _ _ h => (by cases h),
        fun _ h => (by cases h), .inl rfl⟩
  | begin =>
      exact .goes same ⟨fun h => (by cases h), fun _ h => (by cases h), fun _ h => (by cases h),
        fun _ h => (by cases h)⟩ fun h => (by cases h)
  | acquire free =>
      refine ⟨rfl, same, fun k j _ held => ?_, fun _ _ h => ?_, fun _ h there => ?_, .inl rfl⟩
      · have other : k ≠ D.lock (calls i) := fun eq => by
          rw [eq, free] at held
          cases held
        exact (Function.update_of_ne other _ _).trans held
      · cases h
        exact ⟨rfl, fun _ => Function.update_self _ _ _, fun _ h => (by cases h),
          fun _ h => (by cases h), fun _ h => (by cases h)⟩
      · cases h
        cases there
  | permit => exact .passes ((fits _ rfl).own rfl) same rfl rfl (plain rfl)
  | deny => exact .ends same
  | proceed => exact .passes ((fits _ rfl).own rfl) same rfl rfl (plain rfl)
  | leave => exact .ends same
  | @prepare operation status t done =>
      have stays : s.store.db.LedgerStays t.db :=
        finalState_of_ok done ▸ prepareTool_ledger (D.toolCall (calls i)) (calls i).actor s.store
      refine .goes stays ⟨fun _ => (fits _ rfl).own rfl, fun _ there => ?_, fun _ h => (by cases h),
        fun _ h => (by cases h)⟩ fun there => .inr ?_
      · cases there
        rcases prepareTool_eq_ok done with
          ⟨row, hrow, call, digest, id, -, eq⟩ | ⟨-, -, row, call, digest, id, -, insert⟩
        · exact ⟨row, eq ▸ hrow, call, id, digest⟩
        · exact ⟨row, Table.new_mem_insert? insert, call, id, digest⟩
      · rintro ⟨row, hrow, call, started⟩
        rcases prepareTool_eq_ok done with ⟨row', hrow', call', -, -, status', -⟩ | ⟨absent, -⟩
        · have one := ToolRow.eq_of_call hrow hrow' (call.trans call'.symm)
          rw [one, status'] at started
          exact started (of_decide_eq_true there)
        · exact absent row hrow call
  | reject failed =>
      exact .ends (finalState_of_error failed ▸
        prepareTool_ledger (D.toolCall (calls i)) (calls i).actor s.store)
  | enterDirectory =>
      have before := fits _ rfl
      exact .goes same ⟨fun _ => before.own rfl, fun _ there => before.knows _ there,
        fun _ h => (by cases h), fun _ h => (by cases h)⟩ fun there => .inl ⟨_, rfl, there⟩
  | replay => exact .ends same
  | @start operation t done =>
      have before := fits _ rfl
      have stays : s.store.db.LedgerStays t.db :=
        finalState_of_ok done ▸ startTool_ledger (calls i).scopeId operation (calls i).actor s.store
      refine .goes stays ⟨fun _ => before.own rfl, fun _ there => ?_, fun _ _ => ?_,
        fun _ h => (by cases h)⟩ fun _ => .inl ⟨_, rfl, rfl⟩
      · cases there
        exact (before.knows _ rfl).mono stays
      · obtain ⟨row, hrow, call, id, -⟩ := before.knows _ rfl
        obtain ⟨row', hrow', call', status⟩ := startTool_started done hrow id (Prod.mk.inj call).1
        exact ⟨row', hrow', call'.trans call, status ▸ by decide⟩
  | startRaised failed =>
      exact .ends (finalState_of_error failed ▸ startTool_ledger _ _ _ _)
  | enter sends =>
      refine ⟨rfl, same, fun _ _ _ held => held, fun _ _ h => ?_, fun _ h there => ?_,
        .inr ⟨_, _, rfl, rfl, sends, rfl⟩⟩
      · cases h
        exact ⟨rfl, fun _ => (fits _ rfl).own rfl, fun _ h => (by cases h), fun _ h => (by cases h),
          fun _ h => (by cases h)⟩
      · cases h
        cases there
  | progress =>
      exact .passes ((fits _ rfl).own rfl) (.of_eq (appendToolOutput_tools _ _ _ _ _ _ _)) rfl rfl
        (plain rfl)
  | answer told =>
      refine .passes ((fits _ rfl).own rfl) same rfl rfl fun _ there => ?_
      cases there
      exact ledgerStatus_ne_prepared told
  | save => exact .passes ((fits _ rfl).own rfl) same rfl rfl ((fits _ rfl).ends)
  | saveRaised => exact .passes ((fits _ rfl).own rfl) same rfl rfl (plain rfl)
  | report done =>
      exact .passes ((fits _ rfl).own rfl)
        (.of_eq ((appendToolOutput_tools _ _ _ _ _ _).of_ok done)) rfl rfl ((fits _ rfl).ends)
  | reportRaised failed =>
      rcases failed with rfl | ⟨error, failed⟩
      · exact .passes ((fits _ rfl).own rfl) same rfl rfl (plain rfl)
      · refine .passes ((fits _ rfl).own rfl) (.of_eq ?_) rfl rfl (plain rfl)
        exact finalState_of_error failed ▸ appendToolOutput_tools _ _ _ _ _ _ s.store
  | finish done =>
      exact .passes ((fits _ rfl).own rfl) (finalState_of_ok done ▸
        finishTool_ledger _ _ ((fits _ rfl).ends _ rfl) _ _ _ _ s.store) rfl rfl (plain rfl)
  | finishRaised failed =>
      exact .passes ((fits _ rfl).own rfl) (finalState_of_error failed ▸
        finishTool_ledger _ _ ((fits _ rfl).ends _ rfl) _ _ _ _ s.store) rfl rfl (plain rfl)
  | fail done =>
      exact .ends (finalState_of_ok done ▸ finishTool_ledger _ _ (by decide) _ _ _ _ s.store)
  | failRaised failed =>
      exact .ends (finalState_of_error failed ▸ finishTool_ledger _ _ (by decide) _ _ _ _ s.store)
  | conclude => exact .ends same
  | settle => exact .passes ((fits _ rfl).own rfl) same rfl rfl (plain rfl)
  | settled done =>
      exact .ends (.of_eq ((transitionRun_keeps .tools fun _ _ _ _ _ _ => rfl).of_ok done))
  | settleRaised failed =>
      refine .ends (.of_eq ?_)
      exact finalState_of_error failed ▸ transitionRun_keeps .tools (fun _ _ _ _ _ _ => rfl) s.store
  | stop => exact .ends same

/-! ## Runs -/

/-- Calls of a slot share their lock and their tool. -/
theorem DispatchCall.lock_of_slot {c c' : DispatchCall} (same : c.slot = c'.slot) :
    D.lock c = D.lock c' := by
  simp only [slot, Prod.mk.injEq] at same
  obtain ⟨scope, run, attempt, id⟩ := same
  rw [Dispatcher.lock, Dispatcher.lock, scope, run, attempt, id]

theorem DispatchCall.call_of_slot {c c' : DispatchCall} (same : c.slot = c'.slot) :
    (D.toolCall c).call = (D.toolCall c').call := by
  simp only [slot, Prod.mk.injEq] at same
  obtain ⟨scope, run, attempt, id⟩ := same
  simp only [ToolCall.call, Dispatcher.toolCall, Dispatcher.logicalKey, scope, run, attempt, id]

theorem Started.of_slot {db : Db} {c c' : DispatchCall} (h : Started D db c)
    (same : c.slot = c'.slot) : Started D db c' := by
  obtain ⟨row, hrow, call, started⟩ := h
  exact ⟨row, hrow, call.trans (DispatchCall.call_of_slot same), started⟩

omit [DecidableEq ι] in
theorem DispatchPhase.Fits.mono {s t : Dispatching ι} {i : ι} {c : DispatchCall}
    {phase : DispatchPhase} (h : phase.Fits D s i c)
    (locks : ∀ k, s.locks k = some i → t.locks k = some i)
    (stays : s.store.db.LedgerStays t.store.db) : phase.Fits D t i c where
  own inside := locks _ (h.own inside)
  knows operation there := (h.knows operation there).mono stays
  begun operation same := (h.begun operation same).mono stays
  ends := h.ends

theorem DispatchPhase.inside_of_vacant {phase : DispatchPhase} (h : phase.vacant = true) :
    phase.inside = true := by
  cases phase with
  | waiting => cases h
  | authorizing | looking | preparing | prepared | opened | started | calling | answered | saved
  | reported | failing | finished | settling => rfl

/-- What holds of all calls together. -/
structure Dispatching.Ordered (D : Dispatcher) (calls : ι → DispatchCall) (s : Dispatching ι)
    (c : ι → DispatchTask) : Prop where
  current : ∀ i p phase, c i = .live p phase → p ≤ s.process
  fits : ∀ i phase, c i = .live s.process phase → phase.Fits D s i (calls i)
  vacant : ∀ i phase, c i = .live s.process phase → phase.vacant = true →
    ∀ e ∈ s.entered, (calls e.1).slot ≠ (calls i).slot
  started : ∀ e ∈ s.entered, Started D s.store.db (calls e.1)
  once : (s.entered.map fun e => (calls e.1).slot).Nodup
  sends : ∀ e ∈ s.entered, Sends e.2

omit [DecidableEq ι] in
theorem Dispatching.Ordered.env {s t : Dispatching ι} {c : ι → DispatchTask}
    (h : Ordered D calls s c) (around : Around D s t) : Ordered D calls t c := by
  have grows : ∀ {t : Store}, s.store.db.LedgerStays t.db →
      Ordered D calls { s with store := t } c := fun stays =>
    ⟨h.current, fun i phase live => (h.fits i phase live).mono (fun _ held => held) stays, h.vacant,
      fun e he => (h.started e he).mono stays, h.once, h.sends⟩
  cases around with
  | call op forward => exact grows (Op.exec_ledger forward s.store)
  | fault grown rollback => exact grows (.of_eq (congrArg Db.tools rollback))
  | crash =>
      -- the calls of the old process are over
      have dead : ∀ i phase, c i ≠ .live (s.process + 1) phase := by
        intro i phase live
        have := h.current i _ phase live
        omega
      exact ⟨fun i p phase live => Nat.le_succ_of_le (h.current i p phase live),
        fun i phase live => absurd live (dead i phase),
        fun i phase live => absurd live (dead i phase), h.started, h.once, h.sends⟩

theorem Dispatching.Ordered.client {s t : Dispatching ι} {c : ι → DispatchTask} {i : ι}
    {y : DispatchTask} (h : Ordered D calls s c) (move : Moves D calls i s (c i) t y) :
    Ordered D calls t (Function.update c i y) := by
  have moved := move.moved (h.fits i)
  have old : ∀ {j}, j ≠ i → Function.update c i y j = c j :=
    fun other => Function.update_of_ne other _ _
  have fits : ∀ j phase, Function.update c i y j = .live t.process phase →
      phase.Fits D t j (calls j) := by
    intro j phase live
    by_cases same : j = i
    · subst same
      rw [Function.update_self] at live
      exact (moved.lives _ phase live).2
    · rw [old same, moved.process] at live
      exact (h.fits j phase live).mono (fun k held => moved.others k j same held) moved.stays
  -- nobody of the slot of a vacant call has entered before this move
  have before : ∀ j phase, Function.update c i y j = .live t.process phase →
      phase.vacant = true → ∀ e ∈ s.entered, (calls e.1).slot ≠ (calls j).slot := by
    intro j phase live vacant e he
    by_cases same : j = i
    · subst same
      rw [Function.update_self, moved.process] at live
      rcases moved.vacant phase live vacant with ⟨earlier, there, vacant'⟩ | fresh
      · exact h.vacant j earlier there vacant' e he
      · exact fun slot => fresh ((h.started e he).of_slot slot)
    · rw [old same, moved.process] at live
      exact h.vacant j phase live vacant e he
  have current : ∀ j p phase, Function.update c i y j = .live p phase → p ≤ t.process := by
    intro j p phase live
    rw [moved.process]
    by_cases same : j = i
    · subst same
      rw [Function.update_self] at live
      exact Nat.le_of_eq (moved.lives p phase live).1
    · rw [old same] at live
      exact h.current j p phase live
  rcases moved.entered with stays | ⟨operation, sent, here, there, sends, entered⟩
  · exact ⟨current, fits, fun j phase live vacant e he => before j phase live vacant e (stays ▸ he),
      fun e he => (h.started e (stays ▸ he)).mono moved.stays, stays ▸ h.once,
      fun e he => h.sends e (stays ▸ he)⟩
  · have mine := h.fits i _ here
    have new : ∀ e ∈ s.entered, (calls e.1).slot ≠ (calls i).slot := h.vacant i _ here rfl
    refine ⟨current, fits, fun j phase live vacant e he => ?_, fun e he => ?_, ?_, fun e he => ?_⟩
    all_goals rw [entered] at *
    · rcases List.mem_append.1 he with he | he
      · exact before j phase live vacant e he
      · cases List.mem_singleton.1 he
        intro slot
        by_cases same : j = i
        · subst same
          rw [Function.update_self, there, moved.process] at live
          cases live
          cases vacant
        · rw [old same, moved.process] at live
          have theirs := (h.fits j phase live).own (DispatchPhase.inside_of_vacant vacant)
          rw [← DispatchCall.lock_of_slot slot, mine.own rfl] at theirs
          exact same (Option.some.inj theirs).symm
    · rcases List.mem_append.1 he with he | he
      · exact (h.started e he).mono moved.stays
      · cases List.mem_singleton.1 he
        exact (mine.begun _ rfl).mono moved.stays
    · rw [List.map_append, List.map_singleton, List.nodup_append]
      refine ⟨h.once, List.nodup_singleton _, fun a ha b hb same => ?_⟩
      obtain ⟨e, he, rfl⟩ := List.mem_map.1 ha
      exact new e he (same.trans (List.mem_singleton.1 hb))
    · rcases List.mem_append.1 he with he | he
      · exact h.sends e he
      · cases List.mem_singleton.1 he
        exact sends

/-- Nobody was dispatched yet. -/
structure Dispatching.Fresh (s : Dispatching ι) : Prop where
  entered : s.entered = []

theorem Dispatching.Fresh.ordered {s : Dispatching ι} (fresh : s.Fresh)
    {b : Dispatching ι × (ι → DispatchTask)}
    (run : (dispatching D calls).Run (s, fun _ => .idle) b) : Ordered D calls b.1 b.2 := by
  refine run.invariant (I := Ordered D calls) (fun around h => h.env around)
    (fun i move h => h.client move) ?_
  refine ⟨fun i p phase live => (by cases live), fun i phase live => (by cases live),
    fun i phase live => (by cases live), fun e he => ?_, ?_, fun e he => ?_⟩
  all_goals simp only [fresh.entered] at *
  · cases he
  · exact List.nodup_nil
  · cases he

/-! ## A call that nobody stands in the way of -/

/-- The call has its lock. -/
def Dispatching.hold (D : Dispatcher) (s : Dispatching ι) (i : ι) (c : DispatchCall) :
    Dispatching ι :=
  { s with locks := Function.update s.locks (D.lock c) (some i) }

/-- It comes to `prepare_tool`. -/
theorem Dispatching.asks {s : Dispatching ι} {i : ι} {members : List (String × Json)}
    (checked : (calls i).check D.numerals = .ok members)
    (free : s.locks (D.lock (calls i)) = none)
    (executing : (calls i).executing s.store.db = true) :
    Relation.ReflTransGen (fun p q => (dispatching D calls).client i p.1 p.2 q.1 q.2) (s, .idle)
      (s.hold D i (calls i), .live s.process .preparing) := by
  let held := s.hold D i (calls i)
  let live (phase : DispatchPhase) : DispatchTask := .live s.process phase
  exact
    .head (b := (s, live .waiting)) (.begin checked) <|
    .head (b := (held, live .authorizing)) (.acquire free) <|
    .head (b := (held, live .looking)) (.permit (s := held)) <|
    .single (.proceed (s := held) executing)

/-- It is dispatched, if its tool is new. -/
theorem Dispatching.dispatches {s : Dispatching ι} {c : ι → DispatchTask} {i : ι}
    (idle : c i = .idle) {members : List (String × Json)}
    (checked : (calls i).check D.numerals = .ok members)
    (free : s.locks (D.lock (calls i)) = none)
    (executing : (calls i).executing s.store.db = true) {operation : Uuid} {t u : Store}
    (prepared : prepareTool D.deployment (D.toolCall (calls i)) (calls i).actor s.store =
      .ok (operation, .prepared) t)
    (started : startTool D.deployment (calls i).scopeId operation (calls i).actor t = .ok () u)
    {sent : List DriverCall} (sends : Sends sent) :
    (dispatching D calls).Run (s, c)
      ({ s.hold D i (calls i) with store := u, entered := s.entered ++ [(i, sent)] },
        Function.update c i (.live s.process (.calling operation))) := by
  let held := s.hold D i (calls i)
  let live (phase : DispatchPhase) : DispatchTask := .live s.process phase
  let ready : Dispatching ι := { held with store := t }
  let begun : Dispatching ι := { held with store := u }
  refine .alone (a := (s, DispatchTask.idle)) (b := ({ begun with
    entered := s.entered ++ [(i, sent)] }, live (.calling operation))) ?_ idle
  refine (asks checked free executing).trans ?_
  exact
    .head (b := (ready, live (.prepared operation .prepared)))
      (.prepare (s := held) prepared) <|
    .head (b := (ready, live (.opened operation .prepared)))
      (.enterDirectory (s := ready)) <|
    .head (b := (begun, live (.started operation))) (.start (s := ready) started) <|
    .single (.enter (s := begun) sends)

variable (calls) in
/-- It is answered from the ledger, if its tool was started. -/
theorem Dispatching.answers {s : Dispatching ι} {c : ι → DispatchTask} {i : ι}
    (idle : c i = .idle) {members : List (String × Json)}
    (checked : (calls i).check D.numerals = .ok members)
    (free : s.locks (D.lock (calls i)) = none)
    (executing : (calls i).executing s.store.db = true) {operation : Uuid} {status : ToolStatus}
    {t : Store}
    (prepared : prepareTool D.deployment (D.toolCall (calls i)) (calls i).actor s.store =
      .ok (operation, status) t) (again : status ≠ .prepared) :
    (dispatching D calls).Run (s, c)
      (({ s.hold D i (calls i) with store := t } : Dispatching ι).release i,
        Function.update c i
          (.ended (D.replay status (s.results (D.resultPath (calls i) operation))))) := by
  let held := s.hold D i (calls i)
  let live (phase : DispatchPhase) : DispatchTask := .live s.process phase
  let ready : Dispatching ι := { held with store := t }
  refine .alone (a := (s, DispatchTask.idle)) (b := (ready.release i,
    DispatchTask.ended (D.replay status (s.results (D.resultPath (calls i) operation))))) ?_ idle
  refine (asks checked free executing).trans ?_
  exact
    .head (b := (ready, live (.prepared operation status)))
      (.prepare (s := held) prepared) <|
    .head (b := (ready, live (.opened operation status)))
      (.enterDirectory (s := ready)) <|
    .single (.replay (s := ready) again)

variable (calls) in
/-- It is told what `prepare_tool` raises. -/
theorem Dispatching.rejects {s : Dispatching ι} {c : ι → DispatchTask} {i : ι}
    (idle : c i = .idle) {members : List (String × Json)}
    (checked : (calls i).check D.numerals = .ok members)
    (free : s.locks (D.lock (calls i)) = none)
    (executing : (calls i).executing s.store.db = true) {error : StoreError} {t : Store}
    (failed : prepareTool D.deployment (D.toolCall (calls i)) (calls i).actor s.store =
      .error error t) :
    (dispatching D calls).Run (s, c)
      (({ s.hold D i (calls i) with store := t } : Dispatching ι).release i,
        Function.update c i (.ended (.raised error))) := by
  refine .alone (a := (s, DispatchTask.idle)) (b := (_, DispatchTask.ended (.raised error))) ?_ idle
  exact (asks checked free executing).tail (.reject (s := s.hold D i (calls i)) failed)

/-! ## A call, and a retry after a crash -/

/-- The tool of a call is prepared and started. -/
def Dispatcher.starts (D : Dispatcher) (c : DispatchCall) (s : Store) : Option (Uuid × Store) :=
  match prepareTool D.deployment (D.toolCall c) c.actor s with
  | .ok (operation, .prepared) t =>
      match startTool D.deployment c.scopeId operation c.actor t with
      | .ok () u => some (operation, u)
      | .error .. => none
  | _ => none

theorem Dispatcher.starts_eq_some {c : DispatchCall} {s u : Store} {operation : Uuid}
    (h : D.starts c s = some (operation, u)) : ∃ t,
    prepareTool D.deployment (D.toolCall c) c.actor s = .ok (operation, .prepared) t ∧
      startTool D.deployment c.scopeId operation c.actor t = .ok () u := by
  rw [starts] at h
  split at h
  next operation t prepared =>
    split at h
    next u started =>
      cases h
      exact ⟨t, prepared, started⟩
    next => cases h
  next => cases h

/-- A query of the attempt of `Op.firstClaim`. -/
def DispatchCall.plain (sql : String) : DispatchCall where
  scopeId := "ada"
  runId := ⟨2⟩
  sessionId := ⟨0⟩
  workspaceId := ⟨1⟩
  toolRefs := ["impala-binding@1"]
  attemptId := ⟨4⟩
  id := .str "call-1"
  name := "impala_query"
  arguments := .str ("\x7b\"sql\":\"" ++ sql ++ "\"\x7d")
  actor := "w1"
  userBinding := none

/-- A dispatcher that asks nobody. -/
def Dispatcher.plain : Dispatcher where
  deployment := .verbatim
  numerals := .plain
  root := "/var/lib/impala"
  authorization := false

/-- A query, and two retries. -/
def DispatchCall.retried : Fin 3 → DispatchCall
  | 0 | 1 => .plain "SELECT 1"
  | 2 => .plain "SELECT 2"

/-- The run was claimed. -/
def Dispatching.claimed : Dispatching (Fin 3) where
  store := Op.execAll .verbatim Op.firstClaim {}
  results _ := none
  locks _ := none
  process := 0
  entered := []

theorem Dispatching.claimed_fresh : claimed.Fresh := ⟨rfl⟩

/-- The query is dispatched, and the process is killed. -/
theorem Dispatching.claimed_dispatches : ∃ operation u,
    (dispatching .plain DispatchCall.retried).Run (claimed, fun _ => .idle)
      ({ claimed with
          store := u, locks := fun _ => none, process := 1, entered := [(0, [])] },
        Function.update (fun _ => .idle) 0 (.live 0 (.calling operation))) ∧
    (∀ i, (DispatchCall.retried i).executing u.db = true) ∧
    ∃ row ∈ u.db.tools, row.call = (Dispatcher.plain.toolCall (.retried 0)).call ∧
      row.paramsDigest = (Dispatcher.plain.toolCall (.retried 0)).paramsDigest ∧
      row.status = .running := by
  have facts : ((DispatchCall.retried 0).check .plain).isOk = true ∧
      (DispatchCall.retried 0).executing claimed.store.db = true ∧
      ((Dispatcher.plain.starts (.retried 0) claimed.store).any fun r =>
        (DispatchCall.retried 0).executing r.2.db &&
        (r.2.db.calledTool "ada" ⟨2⟩ (Dispatcher.plain.logicalKey (.retried 0))).any fun row =>
          row.paramsDigest = (Dispatcher.plain.toolCall (.retried 0)).paramsDigest &&
          row.status = .running) = true := by
    decide +kernel
  obtain ⟨checked, executing, started⟩ := facts
  cases check : (DispatchCall.retried 0).check Dispatcher.plain.numerals with
  | error outcome =>
      rw [show Json.Numerals.plain = Dispatcher.plain.numerals from rfl, check] at checked
      cases checked
  | ok members =>
      obtain ⟨⟨operation, u⟩, starts, there⟩ := (Option.any_eq_true _ _).1 started
      simp only [Bool.and_eq_true, Option.any_eq_true, decide_eq_true_eq] at there
      obtain ⟨executing', row, called, digest, running⟩ := there
      obtain ⟨t, prepared, begun⟩ := Dispatcher.starts_eq_some starts
      obtain ⟨here, call⟩ := Db.calledTool_eq_some
        (c := Dispatcher.plain.toolCall (.retried 0)).1 called
      refine ⟨operation, u, .tail (.trans (dispatches rfl check rfl executing prepared begun
        .nothing) .refl) (.env .crash), fun i => ?_, row, here, call, digest, running⟩
      match i with
      | 0 | 1 | 2 => exact executing'

/-! ## A slot is dispatched once -/

omit [DecidableEq ι] in
theorem Around.ledger {s t : Dispatching ι} (around : Around D s t) :
    s.store.db.LedgerStays t.store.db := by
  cases around with
  | call op forward => exact Op.exec_ledger forward s.store
  | fault grown rollback => exact .of_eq (congrArg Db.tools rollback)
  | crash => exact .of_eq rfl

omit [DecidableEq ι] in
theorem Around.entered {s t : Dispatching ι} (around : Around D s t) : t.entered = s.entered := by
  cases around with
  | call | fault | crash => rfl

/-- The states of all calls and of what they share. -/
abbrev DispatchState (ι : Type) : Type := Dispatching ι × (ι → DispatchTask)

/-- A state that a run passes. -/
def Passed (D : Dispatcher) (calls : ι → DispatchCall) (a m b : DispatchState ι) : Prop :=
  (dispatching D calls).Run a m ∧ (dispatching D calls).Run m b

theorem Passed.step {a m b b' : DispatchState ι} (h : Passed D calls a m b)
    (step : (dispatching D calls).Step b b') : Passed D calls a m b' :=
  ⟨h.1, h.2.tail step⟩

/-- The ends of a call that the ledger has no part in. -/
inductive Aborted (D : Dispatcher) (calls : ι → DispatchCall) (i : ι) (a b : DispatchState ι) :
    DispatchOutcome → Prop
  /-- Its checks refuse it, -/
  | refused {outcome : DispatchOutcome} (check : (calls i).check D.numerals = .error outcome) :
      Aborted D calls i a b outcome
  /-- or the authorization, -/
  | denied {code message : String} (asked : D.authorization = true) :
      Aborted D calls i a b (.returned (errorResult code message))
  /-- or its run was not executing, -/
  | left {m : DispatchState ι} (passed : Passed D calls a m b)
      (gone : (calls i).executing m.1.store.db = false) :
      Aborted D calls i a b (.returned
        (.obj [("status", .str "CANCELLED"), ("reason", .str "Message is no longer executing")]))
  /-- or an exception ended it. -/
  | stopped : Aborted D calls i a b .stopped

theorem Aborted.step {i : ι} {a b b' : DispatchState ι} {outcome : DispatchOutcome}
    (h : Aborted D calls i a b outcome) (step : (dispatching D calls).Step b b') :
    Aborted D calls i a b' outcome := by
  cases h with
  | refused check => exact .refused check
  | denied asked => exact .denied asked
  | left passed gone => exact .left (passed.step step) gone
  | stopped => exact .stopped

/-- The run found the tool of the call started, with the parameters of the call. -/
def FoundStarted (D : Dispatcher) (calls : ι → DispatchCall) (i : ι) (a b : DispatchState ι)
    (operation : Uuid) (status : ToolStatus) : Prop :=
  ∃ m, Passed D calls a m b ∧ ∃ row ∈ m.1.store.db.tools,
    row.call = (D.toolCall (calls i)).call ∧
    row.paramsDigest = (D.toolCall (calls i)).paramsDigest ∧
    row.id = operation ∧ row.status = status ∧ status ≠ .prepared

theorem FoundStarted.step {i : ι} {a b b' : DispatchState ι} {operation : Uuid}
    {status : ToolStatus} (h : FoundStarted D calls i a b operation status)
    (step : (dispatching D calls).Step b b') : FoundStarted D calls i a b' operation status := by
  obtain ⟨m, passed, found⟩ := h
  exact ⟨m, passed.step step, found⟩

/-- What a repeated call has come to. -/
inductive Repeating (D : Dispatcher) (calls : ι → DispatchCall) (i : ι) (a b : DispatchState ι) :
    DispatchTask → Prop
  | idle : Repeating D calls i a b .idle
  | unasked {process : Nat} {phase : DispatchPhase}
      (early : phase = .waiting ∨ phase = .authorizing ∨ phase = .looking ∨ phase = .preparing) :
      Repeating D calls i a b (.live process phase)
  | asked {process : Nat} {phase : DispatchPhase} {operation : Uuid} {status : ToolStatus}
      (asking : phase = .prepared operation status ∨ phase = .opened operation status)
      (found : FoundStarted D calls i a b operation status) :
      Repeating D calls i a b (.live process phase)
  | aborted {outcome : DispatchOutcome} (aborted : Aborted D calls i a b outcome) :
      Repeating D calls i a b (.ended outcome)
  | replayed {n : DispatchState ι} {operation : Uuid} {status : ToolStatus}
      (found : FoundStarted D calls i a n operation status) (later : Passed D calls a n b) :
      Repeating D calls i a b
        (.ended (D.replay status (n.1.results (D.resultPath (calls i) operation))))
  | conflict {row : ToolRow} (there : row ∈ a.1.store.db.tools)
      (call : row.call = (D.toolCall (calls i)).call)
      (other : row.paramsDigest ≠ (D.toolCall (calls i)).paramsDigest) :
      Repeating D calls i a b (.ended (.raised
        (.domain .idempotencyConflict "Tool call key is already bound to different parameters")))

theorem Repeating.step {i : ι} {a b b' : DispatchState ι} {x : DispatchTask}
    (h : Repeating D calls i a b x) (step : (dispatching D calls).Step b b') :
    Repeating D calls i a b' x := by
  cases h with
  | idle => exact .idle
  | unasked early => exact .unasked early
  | asked asking found => exact .asked asking (found.step step)
  | aborted aborted => exact .aborted (aborted.step step)
  | replayed found later => exact .replayed found (later.step step)
  | conflict there call other => exact .conflict there call other

/-- The ledger has the tool of a call, started or with other parameters. -/
def Taken (D : Dispatcher) (db : Db) (c : DispatchCall) : Prop :=
  ∃ row ∈ db.tools, row.call = (D.toolCall c).call ∧
    (row.status ≠ .prepared ∨ row.paramsDigest ≠ (D.toolCall c).paramsDigest)

theorem Taken.mono {db db' : Db} {c : DispatchCall} (h : Taken D db c)
    (stays : db.LedgerStays db') : Taken D db' c := by
  obtain ⟨row, hrow, call, taken⟩ := h
  obtain ⟨row', hrow', -, call', digest, started⟩ := stays row hrow
  exact ⟨row', hrow', call'.trans call, taken.imp started fun other => digest ▸ other⟩

/-- The call has started its tool, or does. -/
def DispatchPhase.dispatches : DispatchPhase → Bool
  | .waiting | .authorizing | .looking | .preparing | .prepared .. | .opened .. => false
  | _ => true

theorem Repeating.not_dispatches {i : ι} {a b : DispatchState ι} {process : Nat}
    {phase : DispatchPhase} (h : Repeating D calls i a b (.live process phase)) :
    phase.dispatches = false := by
  cases h with
  | unasked early => rcases early with rfl | rfl | rfl | rfl <;> rfl
  | asked asking => rcases asking with rfl | rfl <;> rfl

theorem Repeating.found {i : ι} {a b : DispatchState ι} {process : Nat} {phase : DispatchPhase}
    {operation : Uuid} {status : ToolStatus}
    (h : Repeating D calls i a b (.live process phase))
    (asking : phase = .prepared operation status ∨ phase = .opened operation status) :
    FoundStarted D calls i a b operation status := by
  cases h with
  | unasked early => rcases asking with rfl | rfl <;> simp at early
  | asked asking' found =>
      rcases asking with rfl | rfl
      · rcases asking' with same | same <;> cases same
        exact found
      · rcases asking' with same | same <;> cases same
        exact found

/-- A repeated call is not dispatched by a move of its own. -/
theorem Moves.repeats {i : ι} {a : DispatchState ι} {s t : Dispatching ι} {c : ι → DispatchTask}
    {y : DispatchTask} (before : (dispatching D calls).Run a (s, c))
    (taken : Taken D a.1.store.db (calls i))
    (stays : a.1.store.db.LedgerStays s.store.db) (h : Repeating D calls i a (s, c) (c i))
    (move : Moves D calls i s (c i) t y) :
    Repeating D calls i a (t, Function.update c i y) y ∧ t.entered = s.entered := by
  have step : (dispatching D calls).Step (s, c) (t, Function.update c i y) := .client i move
  have here : Passed D calls a (s, c) (t, Function.update c i y) := ⟨before, .single step⟩
  generalize c i = x at h move
  cases move with
  | refuse refused => exact ⟨.aborted (.refused refused), rfl⟩
  | begin => exact ⟨.unasked (.inl rfl), rfl⟩
  | acquire => exact ⟨.unasked (.inr (.inl rfl)), rfl⟩
  | permit => exact ⟨.unasked (.inr (.inr (.inl rfl))), rfl⟩
  | deny asked => exact ⟨.aborted (.denied asked), rfl⟩
  | proceed => exact ⟨.unasked (.inr (.inr (.inr rfl))), rfl⟩
  | leave gone => exact ⟨.aborted (.left here gone), rfl⟩
  | @prepare operation status t done =>
      refine ⟨.asked (.inl rfl) ?_, rfl⟩
      obtain ⟨row, hrow, call, started⟩ := taken.mono stays
      rcases prepareTool_eq_ok done with
        ⟨row', hrow', call', digest, id, status', -⟩ | ⟨absent, -⟩
      · have one := ToolRow.eq_of_call hrow hrow' (call.trans call'.symm)
        subst one
        refine ⟨(s, c), here, row, hrow, call, digest, id, status', ?_⟩
        rw [← status']
        exact started.resolve_right fun other => other digest
      · exact absurd call (absent row hrow)
  | @reject error t failed =>
      obtain ⟨row, hrow, call, -⟩ := taken
      obtain ⟨row', hrow', -, call', digest, -⟩ := stays row hrow
      by_cases same : row'.paramsDigest = (D.toolCall (calls i)).paramsDigest
      · obtain ⟨u, told, -⟩ :=
          prepareTool_again (calls i).actor hrow' (call'.trans call) same
        cases failed.symm.trans told
      · obtain ⟨u, refused, -⟩ :=
          prepareTool_conflict (calls i).actor hrow' (call'.trans call) same
        cases failed.symm.trans refused
        exact ⟨.conflict hrow call fun eq => same (digest.trans eq), rfl⟩
  | enterDirectory => exact ⟨.asked (.inr rfl) ((h.found (.inl rfl)).step step), rfl⟩
  | replay => exact ⟨.replayed (h.found (.inr rfl)) here, rfl⟩
  | start | startRaised =>
      obtain ⟨m, -, row, -, -, -, -, -, ne⟩ := h.found (.inr rfl)
      exact absurd rfl ne
  | stop => exact ⟨.aborted .stopped, rfl⟩
  | enter | progress | answer | save | saveRaised | report | reportRaised | finish | finishRaised
  | fail | failRaised | conclude | settle | settled | settleRaised => cases h.not_dispatches

/-- A call whose tool is in the ledger, over the rest of the history. -/
theorem Dispatching.Fresh.repeated {s : Dispatching ι} (fresh : s.Fresh) {a b : DispatchState ι}
    (reached : (dispatching D calls).Run (s, fun _ => .idle) a)
    (run : (dispatching D calls).Run a b) {i : ι} (idle : a.2 i = .idle)
    (taken : Taken D a.1.store.db (calls i)) :
    Repeating D calls i a b (b.2 i) ∧ a.1.store.db.LedgerStays b.1.store.db ∧
      ∀ e ∈ b.1.entered, e.1 = i → e ∈ a.1.entered := by
  induction run with
  | refl => exact ⟨idle ▸ .idle, .of_eq rfl, fun e he _ => he⟩
  | @tail b b' before step ih =>
      obtain ⟨repeating, stays, entered⟩ := ih
      have ordered := fresh.ordered (reached.trans before)
      cases step with
      | env around =>
          refine ⟨repeating.step (.env around), stays.trans around.ledger, fun e he mine => ?_⟩
          exact entered e (around.entered ▸ he) mine
      | @client s t c y j move =>
          have moved := move.moved (ordered.fits j)
          refine ⟨?_, stays.trans moved.stays, fun e he mine => ?_⟩
          · by_cases same : i = j
            · subst same
              dsimp only
              rw [Function.update_self]
              exact (move.repeats before taken stays repeating).1
            · dsimp only
              rw [Function.update_of_ne same]
              exact repeating.step (.client j move)
          · by_cases same : i = j
            · subst same
              exact entered e ((move.repeats before taken stays repeating).2 ▸ he) mine
            · rcases moved.entered with eq | ⟨operation, sent, -, -, -, eq⟩
              · exact entered e (eq ▸ he) mine
              · rw [eq] at he
                rcases List.mem_append.1 he with he | he
                · exact entered e he mine
                · cases List.mem_singleton.1 he
                  exact absurd mine.symm same

/-- **A call whose tool was started is answered from the ledger**: with the same parameters it is
never dispatched again, whatever happens, and ends with what the result file had, or as unknown. -/
theorem Dispatching.replayed {s : Dispatching ι} (fresh : s.Fresh) {a b : DispatchState ι}
    (reached : (dispatching D calls).Run (s, fun _ => .idle) a)
    (run : (dispatching D calls).Run a b) {i : ι} (idle : a.2 i = .idle) {row : ToolRow}
    (there : row ∈ a.1.store.db.tools) (call : row.call = (D.toolCall (calls i)).call)
    (digest : row.paramsDigest = (D.toolCall (calls i)).paramsDigest)
    (started : row.status ≠ .prepared) :
    (∀ e ∈ b.1.entered, e.1 = i → e ∈ a.1.entered) ∧
      ∀ outcome, b.2 i = .ended outcome → Aborted D calls i a b outcome ∨
        ∃ n operation status, Passed D calls a n b ∧ FoundStarted D calls i a n operation status ∧
          outcome = D.replay status (n.1.results (D.resultPath (calls i) operation)) := by
  obtain ⟨repeating, -, entered⟩ :=
    fresh.repeated reached run idle ⟨row, there, call, .inl started⟩
  refine ⟨entered, fun outcome ended => ?_⟩
  rw [ended] at repeating
  cases repeating with
  | aborted aborted => exact .inl aborted
  | replayed found later => exact .inr ⟨_, _, _, later, found, rfl⟩
  | conflict there' call' other =>
      rw [ToolRow.eq_of_call there there' (call.trans call'.symm)] at digest
      exact absurd digest other

/-- **A call with other parameters is refused**: it is never dispatched, whatever happens. -/
theorem Dispatching.refused_other {s : Dispatching ι} (fresh : s.Fresh) {a b : DispatchState ι}
    (reached : (dispatching D calls).Run (s, fun _ => .idle) a)
    (run : (dispatching D calls).Run a b) {i : ι} (idle : a.2 i = .idle) {row : ToolRow}
    (there : row ∈ a.1.store.db.tools) (call : row.call = (D.toolCall (calls i)).call)
    (other : row.paramsDigest ≠ (D.toolCall (calls i)).paramsDigest) :
    (∀ e ∈ b.1.entered, e.1 = i → e ∈ a.1.entered) ∧
      ∀ outcome, b.2 i = .ended outcome → Aborted D calls i a b outcome ∨
        outcome = .raised (.domain .idempotencyConflict
          "Tool call key is already bound to different parameters") := by
  obtain ⟨repeating, -, entered⟩ := fresh.repeated reached run idle ⟨row, there, call, .inr other⟩
  refine ⟨entered, fun outcome ended => ?_⟩
  rw [ended] at repeating
  cases repeating with
  | aborted aborted => exact .inl aborted
  | conflict => exact .inr rfl
  | @replayed n operation status found later =>
      obtain ⟨m, passed, row', hrow', call', digest, -⟩ := found
      obtain ⟨-, stays, -⟩ :=
        fresh.repeated reached passed.1 idle ⟨row, there, call, .inr other⟩
      obtain ⟨row'', hrow'', -, call'', digest'', -⟩ := stays row there
      have one := ToolRow.eq_of_call hrow' hrow'' (call'.trans (call''.trans call).symm)
      rw [one, digest''] at digest
      exact absurd digest other

/-- The arguments of a retry are fine. -/
private theorem DispatchCall.retried_check (i : Fin 3) :
    ∃ members, (DispatchCall.retried i).check Dispatcher.plain.numerals = .ok members := by
  have fine : ∀ i, ((DispatchCall.retried i).check .plain).isOk = true := by decide +kernel
  cases check : (DispatchCall.retried i).check Dispatcher.plain.numerals with
  | error outcome =>
      have := fine i
      rw [show Json.Numerals.plain = Dispatcher.plain.numerals from rfl, check] at this
      cases this
  | ok members => exact ⟨members, rfl⟩

/-- A retry of a query that nobody knows the end of. -/
theorem Dispatching.replayed_retry : ∃ b,
    (dispatching .plain DispatchCall.retried).Run (claimed, fun _ => .idle) b ∧
    b.2 1 = .ended (.returned
      (errorResult "STATE_CONFLICT" "Operation requires remote verification" "UNKNOWN")) ∧
    ∀ e ∈ b.1.entered, e.1 ≠ 1 := by
  obtain ⟨operation, u, first, executing, row, there, call, digest, running⟩ := claimed_dispatches
  obtain ⟨members, check⟩ := DispatchCall.retried_check 1
  rw [show DispatchCall.retried 0 = DispatchCall.retried 1 from rfl] at call digest
  have started : row.status ≠ .prepared := running ▸ by decide
  obtain ⟨t, again, -⟩ := prepareTool_again (d := .verbatim) (s := u) "w1"
    (c := Dispatcher.plain.toolCall (.retried 1)) there call digest
  have idle : Function.update (fun _ : Fin 3 => DispatchTask.idle) 0
      (.live 0 (.calling operation)) 1 = .idle := Function.update_of_ne (by decide) _ _
  have retry := answers (D := .plain) DispatchCall.retried
    (s := { claimed with store := u, locks := fun _ => none, process := 1, entered := [(0, [])] })
    idle check rfl
    (executing 1) again started
  refine ⟨_, first.trans retry, ?_, fun e he mine => ?_⟩
  · dsimp only
    rw [Function.update_self]
    rfl
  have known := (replayed claimed_fresh first retry idle there call digest started).1 e he
  cases List.mem_singleton.1 (known mine)
  cases mine

/-- A retry with another statement. -/
theorem Dispatching.refused_retry : ∃ b,
    (dispatching .plain DispatchCall.retried).Run (claimed, fun _ => .idle) b ∧
    b.2 2 = .ended (.raised (.domain .idempotencyConflict
      "Tool call key is already bound to different parameters")) ∧
    ∀ e ∈ b.1.entered, e.1 ≠ 2 := by
  obtain ⟨operation, u, first, executing, row, there, call, digest, -⟩ := claimed_dispatches
  obtain ⟨members, check⟩ := DispatchCall.retried_check 2
  have other : (Dispatcher.plain.toolCall (.retried 0)).paramsDigest ≠
      (Dispatcher.plain.toolCall (.retried 2)).paramsDigest := by decide +kernel
  rw [← digest] at other
  have call' := call.trans (DispatchCall.call_of_slot (D := .plain)
    (show (DispatchCall.retried 0).slot = (DispatchCall.retried 2).slot from rfl))
  obtain ⟨t, raised, -⟩ := prepareTool_conflict (d := .verbatim) (s := u) "w1"
    (c := Dispatcher.plain.toolCall (.retried 2)) there call' other
  have idle : Function.update (fun _ : Fin 3 => DispatchTask.idle) 0
      (.live 0 (.calling operation)) 2 = .idle := Function.update_of_ne (by decide) _ _
  have retry := rejects (D := .plain) DispatchCall.retried
    (s := { claimed with store := u, locks := fun _ => none, process := 1, entered := [(0, [])] })
    idle check rfl
    (executing 2) raised
  refine ⟨_, first.trans retry, ?_, fun e he mine => ?_⟩
  · dsimp only
    rw [Function.update_self]
  have known := (refused_other claimed_fresh first retry idle there call' other).1 e he
  cases List.mem_singleton.1 (known mine)
  cases mine

end CodeForge.Impala
