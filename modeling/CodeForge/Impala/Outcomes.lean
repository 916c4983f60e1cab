import CodeForge.Impala.Execution

/-!
# What a query reports

A query reports success only after the server finished its statement, all rows
were fetched and everything was closed.  It reports a failure or a cancellation
only where nothing was submitted, or where the server confirmed that the
operation has ended.  In every other case it reports that the outcome is
unknown.

The `except` clauses and the clean-up change the status up to four times.  What
each of them can do is said once (`handleFailure_eq_ok`, `closeCursor_eq_ok`,
`closeConnection_eq_ok`).
-/

namespace CodeForge.Impala

open Lib QueryM

variable {V α : Type} {W : World V} {job : Job} {deadline fuel : Nat} {s t : Query V}

/-! ## Statements -/

namespace QueryM

theorem ofExcept_eq_ok {x : Except Raised α} {a : α} :
    (ofExcept x : QueryM V α) s = .ok a t ↔ x = .ok a ∧ t = s := by
  cases x with
  | ok b =>
      rw [ofExcept, pure_eq_ok]
      simp [eq_comm]
  | error e =>
      constructor
      · intro h; cases h
      · rintro ⟨⟨⟩, -⟩

theorem raise_ne_ok {e : Raised} {a : α} : ¬ (raise e : QueryM V α) s = .ok a t := throw_ne_ok

theorem ask_eq_ok {question : Nat → α} {a : α} :
    (ask question : QueryM V α) s = .ok a t ↔
      a = question s.asks ∧ t = { s with asks := s.asks + 1 } := by
  simp [ask, eq_comm]

theorem setResult_eq_ok {f : QueryResult → QueryResult} {u : Unit} :
    (setResult f : QueryM V Unit) s = .ok u t ↔ t = { s with result := f s.result } := modify_eq_ok

/-- An attempt ends normally, unless the fuel is used up. -/
theorem attempt_eq_ok {body : QueryM V α} {outcome : Except Raised α} :
    attempt body s = .ok outcome t ↔
      (∃ a, outcome = .ok a ∧ body s = .ok a t) ∨
        ∃ e, outcome = .error e ∧ body s = .error (.raised e) t := by
  unfold attempt
  cases body s with
  | ok a s' =>
      constructor
      · intro h; cases h; exact .inl ⟨a, rfl, rfl⟩
      · rintro (⟨_, rfl, h⟩ | ⟨_, -, h⟩) <;> cases h
        rfl
  | error e s' =>
      cases e with
      | raised e =>
          constructor
          · intro h; cases h; exact .inr ⟨e, rfl, rfl⟩
          · rintro (⟨_, -, h⟩ | ⟨_, rfl, h⟩) <;> cases h
            rfl
      | outOfFuel =>
          constructor
          · intro h; cases h
          · rintro (⟨_, -, h⟩ | ⟨_, -, h⟩) <;> cases h

end QueryM

/-- Calls of the cursor need one. -/
theorem onCursor_apply (c : DriverCall) :
    onCursor W c s = if s.cursor.isSome then callDriver W c s else .error (.raised .error) s := by
  obtain ⟨asks, trace, connection, cursor, dispatched, result⟩ := s
  cases cursor with
  | none => rfl
  | some cursor => rfl

theorem onConnection_apply (c : DriverCall) :
    onConnection W c s =
      if s.connection.isSome then callDriver W c s else .error (.raised .error) s := by
  obtain ⟨asks, trace, connection, cursor, dispatched, result⟩ := s
  cases connection with
  | none => rfl
  | some connection => rfl

theorem callDriver_eq_ok {c : DriverCall} {v : V} :
    callDriver W c s = .ok v t ↔ W.call s.asks c = .ok v ∧
      t = { s with asks := s.asks + 1, trace := s.trace ++ [⟨c, .ok v⟩] } := by
  unfold callDriver
  cases W.call s.asks c with
  | ok v' =>
      constructor
      · intro h; cases h; exact ⟨rfl, rfl⟩
      · rintro ⟨⟨⟩, rfl⟩; rfl
  | error e =>
      constructor
      · intro h; cases h
      · rintro ⟨⟨⟩, -⟩

theorem onCursor_eq_ok {c : DriverCall} {v : V} :
    onCursor W c s = .ok v t ↔ s.cursor.isSome = true ∧ W.call s.asks c = .ok v ∧
      t = { s with asks := s.asks + 1, trace := s.trace ++ [⟨c, .ok v⟩] } := by
  rw [onCursor_apply]
  split
  next open_ => rw [callDriver_eq_ok]; exact ⟨fun h => ⟨open_, h⟩, And.right⟩
  next closed =>
    constructor
    · intro h; cases h
    · rintro ⟨open_, -⟩; exact absurd open_ closed

theorem onConnection_eq_ok {c : DriverCall} {v : V} :
    onConnection W c s = .ok v t ↔ s.connection.isSome = true ∧ W.call s.asks c = .ok v ∧
      t = { s with asks := s.asks + 1, trace := s.trace ++ [⟨c, .ok v⟩] } := by
  rw [onConnection_apply]
  split
  next open_ => rw [callDriver_eq_ok]; exact ⟨fun h => ⟨open_, h⟩, And.right⟩
  next closed =>
    constructor
    · intro h; cases h
    · rintro ⟨open_, -⟩; exact absurd open_ closed

theorem raiseIf_eq_ok {b : Bool} {e : Raised} {u : Unit} :
    (raiseIf b e : QueryM V Unit) s = .ok u t ↔ b = false ∧ t = s := by
  cases b with
  | true => exact ⟨fun h => (raise_ne_ok h).elim, nofun⟩
  | false =>
      constructor
      · intro h; exact ⟨rfl, (pure_eq_ok.1 h).2⟩
      · rintro ⟨-, rfl⟩; rfl

/-- A checkpoint that is passed leaves no trace. -/
theorem checkpoint_eq_ok {u : Unit} (h : checkpoint W job deadline s = .ok u t) :
    t = { s with asks := s.asks + 3 } ∧ (W.monotonic (s.asks + 1)).val < deadline := by
  obtain ⟨b, s₁, asked, h⟩ := bind_eq_ok.1 h
  obtain ⟨_, s₂, free, h⟩ := bind_eq_ok.1 h
  obtain ⟨now, s₃, clock, h⟩ := bind_eq_ok.1 h
  obtain ⟨_, s₄, early, h⟩ := bind_eq_ok.1 h
  obtain ⟨resolution, s₅, resolved, h⟩ := bind_eq_ok.1 h
  obtain ⟨rfl, rfl⟩ := ask_eq_ok.1 asked
  obtain ⟨-, rfl⟩ := raiseIf_eq_ok.1 free
  obtain ⟨rfl, rfl⟩ := ask_eq_ok.1 clock
  obtain ⟨timely, rfl⟩ := raiseIf_eq_ok.1 early
  obtain ⟨rfl, rfl⟩ := ask_eq_ok.1 resolved
  obtain ⟨-, rfl⟩ := ofExcept_eq_ok.1 h
  exact ⟨rfl, Nat.lt_of_not_le (of_decide_eq_false timely)⟩

/-! ## What the query keeps -/

/-- A property that questions and calls of the cursor do not touch. -/
structure Steady (I : Query V → Prop) : Prop where
  ask : ∀ s, I s → I { s with asks := s.asks + 1 }
  call : ∀ s r, s.cursor.isSome = true → I s →
    I { s with asks := s.asks + 1, trace := s.trace ++ [r] }
  dispatched : ∀ s, I s → I { s with dispatched := true }

/-- Nor do changes of the result. -/
structure Stable (I : Query V → Prop) : Prop extends Steady I where
  result : ∀ s r, I s → I { s with result := r }

section Steady

variable {I : Query V → Prop} (h : Steady I)

include h

omit h in
theorem callDriver_preserves {c : DriverCall}
    (call : ∀ r, I { s with asks := s.asks + 1, trace := s.trace ++ [r] }) :
    I (finalState (callDriver W c) s) := by
  have called := call ⟨c, W.call s.asks c⟩
  unfold finalState callDriver
  cases answer : W.call s.asks c with
  | ok v =>
      rw [answer] at called
      exact called
  | error e =>
      rw [answer] at called
      exact called

theorem Steady.onCursor (c : DriverCall) : Preserves I (onCursor W c) := by
  intro s hs
  unfold finalState
  rw [onCursor_apply]
  by_cases open_ : s.cursor.isSome = true
  · rw [if_pos open_]
    exact callDriver_preserves fun r => h.call s r open_ hs
  · rw [if_neg open_]
    exact hs

omit h in
theorem onConnection_preserves (call : ∀ s r, s.connection.isSome = true → I s →
    I { s with asks := s.asks + 1, trace := s.trace ++ [r] }) (c : DriverCall) :
    Preserves I (onConnection W c) := by
  intro s hs
  unfold finalState
  rw [onConnection_apply]
  by_cases open_ : s.connection.isSome = true
  · rw [if_pos open_]
    exact callDriver_preserves fun r => call s r open_ hs
  · rw [if_neg open_]
    exact hs

omit h in
theorem preserves_ofExcept (x : Except Raised α) : Preserves I (ofExcept x : QueryM V α) := by
  cases x with
  | ok a => exact .pure a
  | error e => exact .throw _

omit h in
theorem preserves_raiseIf (b : Bool) (e : Raised) : Preserves I (raiseIf b e : QueryM V Unit) :=
  .ite (.throw _) (.pure _)

theorem Steady.askWorld (question : Nat → α) : Preserves I (QueryM.ask question : QueryM V α) :=
  fun s hs => h.ask s hs

theorem Steady.checkpoint : Preserves I (checkpoint W job deadline) :=
  .bind (h.askWorld _) fun _ => .bind (preserves_raiseIf _ _) fun _ => .bind (h.askWorld _) fun _ =>
    .bind (preserves_raiseIf _ _) fun _ => .bind (h.askWorld _) fun _ => preserves_ofExcept _

theorem Steady.waitFinished (fuel : Nat) : Preserves I (waitFinished W job deadline fuel) := by
  induction fuel with
  | zero => exact .throw _
  | succ fuel ih =>
      refine .bind h.checkpoint fun _ => .bind (h.onCursor _) fun state => ?_
      refine .bind (preserves_ofExcept _) fun b => .ite (.pure _) ?_
      refine .bind (preserves_ofExcept _) fun name => ?_
      cases name with
      | none => exact ih
      | some name => exact .throw _

theorem Steady.verifyAccount (fuel : Nat) : Preserves I (verifyAccount W job deadline fuel) := by
  refine .bind (.modify h.dispatched) fun _ => .bind (h.onCursor _) fun _ => ?_
  refine .bind (h.waitFinished fuel) fun _ => .bind (h.onCursor _) fun identity => ?_
  exact .bind (preserves_ofExcept _) fun same => preserves_raiseIf _ _

end Steady

section Stable

variable {I : Query V → Prop} (h : Stable I)

include h

theorem Stable.setResult (f : QueryResult → QueryResult) :
    Preserves I (QueryM.setResult f : QueryM V Unit) := .modify fun s hs => h.result s _ hs

theorem Stable.fetchRows (fuel : Nat) : Preserves I (fetchRows W job deadline fuel) := by
  induction fuel with
  | zero => exact .throw _
  | succ fuel ih =>
      refine .bind h.checkpoint fun _ => .bind (h.onCursor _) fun batch => ?_
      refine .bind (preserves_ofExcept _) fun b => .ite ?_ (.pure _)
      refine .bind .get fun s => .ite (h.setResult _) ?_
      refine .bind (preserves_ofExcept _) fun values => .bind (preserves_ofExcept _) fun cells => ?_
      exact .ite (h.setResult _) (.bind (h.setResult _) fun _ => ih)

theorem Stable.submit (fuel : Nat) : Preserves I (submit W job deadline fuel) :=
  .bind (h.onCursor _) fun _ => .bind (h.askWorld _) fun _ => .bind (preserves_ofExcept _) fun _ =>
    .bind (h.setResult _) fun _ => .bind (h.askWorld _) fun _ => .bind (preserves_ofExcept _) fun _ =>
      h.waitFinished fuel

theorem Stable.describe : Preserves I (describe W job) :=
  .bind (h.onCursor _) fun _ => .bind (preserves_ofExcept _) fun _ =>
    .bind (preserves_raiseIf _ _) fun _ => .bind (preserves_ofExcept _) fun _ =>
      .bind (h.setResult _) fun _ => .bind .get fun _ => preserves_raiseIf _ _

omit h in
theorem preserves_attempt {body : QueryM V α} (kept : Preserves I body) :
    Preserves I (attempt body) := by
  intro s hs
  have after := kept s hs
  unfold finalState at after ⊢
  unfold attempt
  cases ended : body s with
  | ok a t =>
      rw [ended] at after
      exact after
  | error e t =>
      rw [ended] at after
      cases e with
      | raised e => exact after
      | outOfFuel => exact after

theorem Stable.orUnknown {body : QueryM V Unit} (kept : Preserves I body)
    (f : QueryResult → QueryResult) : Preserves I (orUnknown body f) := by
  refine .bind (preserves_attempt kept) fun outcome => ?_
  cases outcome with
  | ok _ => exact .pure _
  | error e =>
      cases e with
      | exit => exact .throw _
      | domain => exact h.setResult _
      | error => exact h.setResult _

theorem Stable.closeConnection (call : ∀ s r, s.connection.isSome = true → I s →
    I { s with asks := s.asks + 1, trace := s.trace ++ [r] }) :
    Preserves I (closeConnection W) := by
  refine .bind .get fun s => .ite (h.orUnknown ?_ _) (.pure _)
  exact .bind (onConnection_preserves call _) fun _ => .pure _

theorem Stable.closeCursor : Preserves I (closeCursor W) := by
  refine .bind .get fun s => .ite (h.orUnknown ?_ _) (.pure _)
  refine .bind ?_ fun _ => .bind (h.onCursor _) fun _ => .pure _
  refine .bind .get fun s => .ite (.pure _) ?_
  exact .bind (h.onCursor _) fun _ => .bind (h.onCursor _) fun _ =>
    .bind (preserves_ofExcept _) fun _ => h.setResult _

end Stable

/-! ## A query that succeeds -/

/-- The call submits a statement. -/
def DriverCall.submits : DriverCall → Bool
  | .executeAsync _ _ => true
  | _ => false

/-- The server reports the statement finished, after it was asked for nothing but its state. -/
theorem waitFinished_eq_ok {u : Unit} (h : waitFinished W job deadline fuel s = .ok u t) :
    ∃ waiting v, t.trace = s.trace ++ waiting ++ [⟨.status, .ok v⟩] ∧
      (∀ r ∈ waiting, r.call = .status) ∧ W.equals v "FINISHED_STATE" = .ok true := by
  induction fuel generalizing s with
  | zero => cases h
  | succ fuel ih =>
      obtain ⟨_, s₁, passed, h⟩ := bind_eq_ok.1 h
      obtain ⟨state, s₂, answered, h⟩ := bind_eq_ok.1 h
      obtain ⟨finished, s₃, compared, h⟩ := bind_eq_ok.1 h
      obtain ⟨rfl, -⟩ := checkpoint_eq_ok passed
      obtain ⟨-, -, rfl⟩ := onCursor_eq_ok.1 answered
      obtain ⟨same, rfl⟩ := ofExcept_eq_ok.1 compared
      cases finished with
      | true =>
          obtain ⟨-, rfl⟩ := pure_eq_ok.1 h
          exact ⟨[], state, by rw [List.append_nil], fun r hr => absurd hr List.not_mem_nil, same⟩
      | false =>
          obtain ⟨name, s₄, other, h⟩ := bind_eq_ok.1 h
          obtain ⟨-, rfl⟩ := ofExcept_eq_ok.1 other
          cases name with
          | some name => exact (raise_ne_ok h).elim
          | none =>
              obtain ⟨waiting, v, trace, still, ended⟩ := ih h
              refine ⟨⟨.status, .ok state⟩ :: waiting, v, ?_, ?_, ended⟩
              · rw [trace]
                simp
              · intro r hr
                rcases List.mem_cons.1 hr with rfl | hr
                · rfl
                · exact still r hr

/-- The loop over the rows ended as it is meant to: there are no more rows, or a limit was
reached. -/
def FetchEnded (W : World V) (r : QueryResult) (fetched : List (Reply V)) : Prop :=
  (∀ reply ∈ fetched, ∃ v, reply = ⟨.fetchmany, .ok v⟩) ∧
    ((∃ l v, fetched = l ++ [⟨.fetchmany, .ok v⟩] ∧ W.truthy v = .ok false) ∨
      .rowLimit ∈ r.truncationReasons ∨ .byteLimit ∈ r.truncationReasons)

theorem fetchRows_eq_ok {u : Unit} (h : fetchRows W job deadline fuel s = .ok u t) :
    ∃ fetched, t.trace = s.trace ++ fetched ∧ FetchEnded W t.result fetched := by
  induction fuel generalizing s with
  | zero => cases h
  | succ fuel ih =>
      obtain ⟨_, s₁, passed, h⟩ := bind_eq_ok.1 h
      obtain ⟨batch, s₂, answered, h⟩ := bind_eq_ok.1 h
      obtain ⟨more, s₃, asked, h⟩ := bind_eq_ok.1 h
      obtain ⟨rfl, -⟩ := checkpoint_eq_ok passed
      obtain ⟨-, -, rfl⟩ := onCursor_eq_ok.1 answered
      obtain ⟨truthy, rfl⟩ := ofExcept_eq_ok.1 asked
      have once : ∀ reply ∈ [(⟨.fetchmany, .ok batch⟩ : Reply V)], ∃ v,
          reply = ⟨.fetchmany, .ok v⟩ := by
        intro reply hr
        exact ⟨batch, List.mem_singleton.1 hr⟩
      cases more with
      | false =>
          obtain ⟨-, rfl⟩ := pure_eq_ok.1 h
          exact ⟨[⟨.fetchmany, .ok batch⟩], rfl, once, .inl ⟨[], batch, rfl, truthy⟩⟩
      | true =>
          obtain ⟨now_, s₄, got, h⟩ := bind_eq_ok.1 h
          obtain ⟨-, rfl⟩ := get_eq_ok.1 got
          split at h
          · rw [setResult_eq_ok] at h
            subst h
            exact ⟨[⟨.fetchmany, .ok batch⟩], rfl, once, .inr (.inl (by simp [QueryResult.truncate]))⟩
          · obtain ⟨values, s₅, unpacked, h⟩ := bind_eq_ok.1 h
            obtain ⟨⟨cells, cut⟩, s₆, read, h⟩ := bind_eq_ok.1 h
            obtain ⟨-, rfl⟩ := ofExcept_eq_ok.1 unpacked
            obtain ⟨-, rfl⟩ := ofExcept_eq_ok.1 read
            dsimp only at h
            split at h
            · rw [setResult_eq_ok] at h
              subst h
              exact ⟨[⟨.fetchmany, .ok batch⟩], rfl, once,
                .inr (.inr (by simp [QueryResult.truncate]))⟩
            · obtain ⟨_, s₇, added, h⟩ := bind_eq_ok.1 h
              rw [setResult_eq_ok] at added
              subst added
              obtain ⟨fetched, trace, all, ended⟩ := ih h
              refine ⟨⟨.fetchmany, .ok batch⟩ :: fetched, ?_, ?_, ?_⟩
              · rw [trace]
                simp
              · intro reply hr
                rcases List.mem_cons.1 hr with rfl | hr
                · exact ⟨batch, rfl⟩
                · exact all reply hr
              · rcases ended with ⟨l, v, rfl, last⟩ | limited
                · exact .inl ⟨⟨.fetchmany, .ok batch⟩ :: l, v, rfl, last⟩
                · exact .inr limited

theorem submit_eq_ok {u : Unit} (h : submit W job deadline fuel s = .ok u t) :
    ∃ c waiting v, t.trace = s.trace ++
        ⟨.executeAsync job.sql job.options, .ok c⟩ :: waiting ++ [⟨.status, .ok v⟩] ∧
      (∀ r ∈ waiting, r.call = .status) ∧ W.equals v "FINISHED_STATE" = .ok true := by
  obtain ⟨c, s₁, submitted, h⟩ := bind_eq_ok.1 h
  obtain ⟨guid, s₂, asked, h⟩ := bind_eq_ok.1 h
  obtain ⟨queryId, s₃, read, h⟩ := bind_eq_ok.1 h
  obtain ⟨_, s₄, noted, h⟩ := bind_eq_ok.1 h
  obtain ⟨saved, s₅, saving, h⟩ := bind_eq_ok.1 h
  obtain ⟨_, s₆, done, h⟩ := bind_eq_ok.1 h
  obtain ⟨-, -, rfl⟩ := onCursor_eq_ok.1 submitted
  obtain ⟨-, rfl⟩ := ask_eq_ok.1 asked
  obtain ⟨-, rfl⟩ := ofExcept_eq_ok.1 read
  rw [setResult_eq_ok] at noted
  subst noted
  obtain ⟨-, rfl⟩ := ask_eq_ok.1 saving
  obtain ⟨-, rfl⟩ := ofExcept_eq_ok.1 done
  obtain ⟨waiting, v, trace, still, ended⟩ := waitFinished_eq_ok h
  refine ⟨c, waiting, v, ?_, still, ended⟩
  rw [trace]
  simp

theorem describe_eq_ok {u : Unit} (h : describe W job s = .ok u t) :
    s.cursor.isSome = true ∧ ∃ v, t.trace = s.trace ++ [⟨.description, .ok v⟩] := by
  obtain ⟨v, s₁, described, h⟩ := bind_eq_ok.1 h
  obtain ⟨columns, s₂, read, h⟩ := bind_eq_ok.1 h
  obtain ⟨_, s₃, few, h⟩ := bind_eq_ok.1 h
  obtain ⟨names, s₄, named, h⟩ := bind_eq_ok.1 h
  obtain ⟨_, s₅, noted, h⟩ := bind_eq_ok.1 h
  obtain ⟨now_, s₆, got, h⟩ := bind_eq_ok.1 h
  obtain ⟨open_, -, rfl⟩ := onCursor_eq_ok.1 described
  obtain ⟨-, rfl⟩ := ofExcept_eq_ok.1 read
  obtain ⟨-, rfl⟩ := raiseIf_eq_ok.1 few
  obtain ⟨-, rfl⟩ := ofExcept_eq_ok.1 named
  rw [setResult_eq_ok] at noted
  subst noted
  obtain ⟨-, rfl⟩ := get_eq_ok.1 got
  obtain ⟨-, rfl⟩ := raiseIf_eq_ok.1 h
  exact ⟨open_, v, rfl⟩

/-- The server finished the statement, and its rows were fetched. -/
def Finished (W : World V) (job : Job) (r : QueryResult) (trace : List (Reply V)) : Prop :=
  ∃ before c waiting v d fetched, trace = before ++
      ⟨.executeAsync job.sql job.options, .ok c⟩ :: waiting ++ [⟨.status, .ok v⟩] ++
        ⟨.description, .ok d⟩ :: fetched ∧
    (∀ r ∈ waiting, r.call = .status) ∧ W.equals v "FINISHED_STATE" = .ok true ∧
    FetchEnded W r fetched

/-- Whether a query succeeded is decided at the end of the `try` block. -/
theorem runQuery_eq_ok {u : Unit} (h : runQuery W job deadline fuel s = .ok u t) :
    t.result.status = .succeeded ∧ t.cursor.isSome = true ∧ Finished W job t.result t.trace := by
  obtain ⟨_, s₁, -, h⟩ := bind_eq_ok.1 h
  obtain ⟨_, s₂, -, h⟩ := bind_eq_ok.1 h
  obtain ⟨_, s₃, -, h⟩ := bind_eq_ok.1 h
  obtain ⟨_, s₄, -, h⟩ := bind_eq_ok.1 h
  obtain ⟨_, s₅, submitted, h⟩ := bind_eq_ok.1 h
  obtain ⟨_, s₆, described, h⟩ := bind_eq_ok.1 h
  obtain ⟨_, s₇, fetched, h⟩ := bind_eq_ok.1 h
  obtain ⟨_, s₈, passed, h⟩ := bind_eq_ok.1 h
  rw [setResult_eq_ok] at h
  subst h
  obtain ⟨rfl, -⟩ := checkpoint_eq_ok passed
  obtain ⟨c, waiting, v, trace₅, still, ended⟩ := submit_eq_ok submitted
  obtain ⟨open_, w, trace₆⟩ := describe_eq_ok described
  obtain ⟨rows, trace₇, done⟩ := fetchRows_eq_ok fetched
  have cursor : Stable fun s : Query V => s.cursor.isSome = true :=
    ⟨⟨fun _ h => h, fun _ _ _ h => h, fun _ h => h⟩, fun _ _ h => h⟩
  refine ⟨rfl, ?_, s₄.trace, c, waiting, v, w, rows, ?_, still, ended, done⟩
  · have kept := (cursor.fetchRows fuel).of_ok fetched (cursor.describe.of_ok described open_)
    exact kept
  · rw [trace₇, trace₆, trace₅]
    simp

/-! ## Before there is a cursor -/

/-- Nothing was submitted before there was a cursor, and that needs a connection. -/
structure Query.Orderly (s : Query V) : Prop where
  connected : s.cursor.isSome = true → s.connection.isSome = true
  unsubmitted : s.cursor = none → ∀ r ∈ s.trace, r.call.submits = false

theorem Query.Orderly.stable : Stable (Query.Orderly (V := V)) where
  ask _ h := ⟨h.connected, h.unsubmitted⟩
  call s r open_ h := ⟨h.connected, fun none_ => by rw [none_] at open_; cases open_⟩
  result _ _ h := ⟨h.connected, h.unsubmitted⟩
  dispatched _ h := ⟨h.connected, h.unsubmitted⟩

/-- A call that submits nothing, while there is no cursor. -/
theorem Query.Orderly.callDriver {c : DriverCall} (h : s.Orderly) (none_ : s.cursor = none)
    (quiet : c.submits = false) :
    (finalState (callDriver W c) s).Orderly ∧ (finalState (callDriver W c) s).cursor = none := by
  have after : ∀ answer, Query.Orderly { s with
      asks := s.asks + 1, trace := s.trace ++ [(⟨c, answer⟩ : Reply V)] } := by
    intro answer
    refine ⟨h.connected, fun none_ r hr => ?_⟩
    rcases List.mem_append.1 hr with old | new
    · exact h.unsubmitted none_ r old
    · rw [List.mem_singleton.1 new]
      exact quiet
  unfold finalState Impala.callDriver
  cases answer : W.call s.asks c with
  | ok v => exact ⟨after _, none_⟩
  | error e => exact ⟨after _, none_⟩

theorem openCursor_orderly (h : s.Orderly) (none_ : s.cursor = none) :
    (finalState (openCursor W) s).Orderly := by
  have opened := h.callDriver (W := W) (c := .connect) none_ rfl
  refine finalState_bind (I := Query.Orderly) (fun v s₁ connect => ?_) fun e s₁ failed => ?_
  · rw [finalState_of_ok connect] at opened
    obtain ⟨h₁, none₁⟩ := opened
    have h₂ : Query.Orderly { s₁ with connection := W.handle v } :=
      ⟨fun some_ => (by rw [none₁] at some_; cases some_), h₁.unsubmitted⟩
    refine finalState_bind (I := Query.Orderly) (fun _ s₂ kept => ?_) fun e s₂ kept => by cases kept
    cases kept
    have asked := h₂.callDriver (W := W) (c := .cursor) none₁ rfl
    refine finalState_bind (I := Query.Orderly) (fun w s₃ cursor => ?_) fun e s₃ failed => ?_
    · obtain ⟨connected, -, rfl⟩ := onConnection_eq_ok.1 cursor
      refine finalState_bind (I := Query.Orderly) (fun _ s₄ kept => ?_) fun e s₄ kept => by
        cases kept
      cases kept
      refine (Query.Orderly.stable.onCursor _).bind (fun _ => .pure _) _ ⟨fun _ => connected, ?_⟩
      intro _ r hr
      rcases List.mem_append.1 hr with old | new
      · exact h₁.unsubmitted none₁ r old
      · rw [List.mem_singleton.1 new]
        rfl
    · rw [onConnection_apply] at failed
      split at failed
      · rw [finalState_of_error failed] at asked
        exact asked.1
      · cases failed
        exact h₂
  · rw [finalState_of_error failed] at opened
    exact opened.1

theorem runQuery_orderly (h : s.Orderly) (none_ : s.cursor = none) :
    (finalState (runQuery W job deadline fuel) s).Orderly := by
  have stable : Stable fun s : Query V => s.Orderly ∧ s.cursor = none :=
    ⟨⟨fun s h => ⟨Query.Orderly.stable.ask s h.1, h.2⟩,
      fun s r open_ h => absurd open_ (by rw [h.2]; nofun),
      fun s h => ⟨Query.Orderly.stable.dispatched s h.1, h.2⟩⟩,
      fun s r h => ⟨Query.Orderly.stable.result s r h.1, h.2⟩⟩
  have kept : Stable (Query.Orderly (V := V)) := Query.Orderly.stable
  refine finalState_bind (I := Query.Orderly) (fun _ s₁ passed => ?_) fun e s₁ failed => ?_
  · obtain ⟨h₁, none₁⟩ := stable.checkpoint.of_ok passed ⟨h, none_⟩
    have opened := openCursor_orderly (W := W) h₁ none₁
    refine finalState_bind (I := Query.Orderly) (fun _ s₂ ended => ?_) fun e s₂ failed => ?_
    · rw [finalState_of_ok ended] at opened
      refine Preserves.bind (kept.verifyAccount fuel) (fun _ => ?_) s₂ opened
      exact .bind kept.checkpoint fun _ => .bind (kept.submit fuel) fun _ =>
        .bind kept.describe fun _ => .bind (kept.fetchRows fuel) fun _ =>
          .bind kept.checkpoint fun _ => kept.setResult _
    · rw [finalState_of_error failed] at opened
      exact opened
  · exact (stable.checkpoint.of_error failed ⟨h, none_⟩).1

theorem attempt_orderly {outcome : Except Raised Unit} (h : s.Orderly) (none_ : s.cursor = none)
    (tried : attempt (runQuery W job deadline fuel) s = .ok outcome t) : t.Orderly := by
  have kept : (finalState (runQuery W job deadline fuel) s).Orderly := runQuery_orderly h none_
  rcases attempt_eq_ok.1 tried with ⟨u, -, ended⟩ | ⟨e, -, failed⟩
  · rw [finalState_of_ok ended] at kept
    exact kept
  · rw [finalState_of_error failed] at kept
    exact kept

/-! ## The end of a query -/

/-- What the `except` clauses make of an outcome they catch. -/
theorem handleFailure_eq_ok {outcome : Except Raised Unit}
    (h : handleFailure W outcome s = .ok none t) :
    (outcome = .ok () ∧ t = s) ∨
      ((∃ e, outcome = .error e) ∧ t.trace = s.trace ∧ t.cursor = s.cursor ∧
        t.connection = s.connection ∧
        (t.result.status = .failed ∨ t.result.status = .unknown ∨
          t.result.status = .cancelled ∧
            ∃ n, n < t.asks ∧ (W.flag n || W.stopping n || W.cancelled n) = true)) := by
  cases outcome with
  | ok u =>
      obtain ⟨-, rfl⟩ := pure_eq_ok.1 h
      exact .inl ⟨rfl, rfl⟩
  | error e =>
      refine .inr ⟨⟨e, rfl⟩, ?_⟩
      cases e with
      | domain code message =>
          obtain ⟨_, s₁, noted, h⟩ := bind_eq_ok.1 h
          obtain ⟨cancelled, s₂, asked, h⟩ := bind_eq_ok.1 h
          obtain ⟨_, s₃, changed, h⟩ := bind_eq_ok.1 h
          rw [setResult_eq_ok] at noted
          subst noted
          obtain ⟨was, rfl⟩ := ask_eq_ok.1 asked
          rw [setResult_eq_ok] at changed
          subst changed
          obtain ⟨-, rfl⟩ := pure_eq_ok.1 h
          refine ⟨rfl, rfl, rfl, ?_⟩
          cases cancelled with
          | false => exact .inl rfl
          | true => exact .inr (.inr ⟨rfl, s.asks, Nat.lt_succ_self _, was.symm⟩)
      | error =>
          obtain ⟨now_, s₁, got, rest⟩ := bind_eq_ok.1 h
          obtain ⟨rfl, rfl⟩ := get_eq_ok.1 got
          obtain ⟨_, s₂, noted, ended⟩ := bind_eq_ok.1 rest
          rw [setResult_eq_ok] at noted
          subst noted
          obtain ⟨-, rfl⟩ := pure_eq_ok.1 ended
          refine ⟨rfl, rfl, rfl, ?_⟩
          cases s₁.dispatched with
          | false => exact .inl rfl
          | true => exact .inr (.inl rfl)
      | exit => cases (pure_eq_ok.1 h).1

theorem orUnknown_eq_ok {body : QueryM V Unit} {f : QueryResult → QueryResult} {u : Unit}
    (h : orUnknown body f s = .ok u t) :
    body s = .ok u t ∨ ∃ r : QueryResult, t.result = f { r with status := .unknown } := by
  obtain ⟨outcome, s₁, tried, h⟩ := bind_eq_ok.1 h
  rcases attempt_eq_ok.1 tried with ⟨u', rfl, ended⟩ | ⟨e, rfl, failed⟩
  · obtain ⟨-, rfl⟩ := pure_eq_ok.1 h
    exact .inl ended
  · cases e with
    | exit => exact (raise_ne_ok h).elim
    | domain | error =>
        rw [setResult_eq_ok] at h
        subst h
        exact .inr ⟨s₁.result, rfl⟩

/-- The operation was cancelled, and the server says that it has ended. -/
theorem cancelOperation_eq_ok {u : Unit} (h : cancelOperation W s = .ok u t) :
    (s.result.status = .succeeded ∧ t = s) ∨ s.result.status ≠ .succeeded ∧
      (t.result.status = .unknown ∨ t.result = s.result ∧
        ∃ a v n, t.trace = s.trace ++ [⟨.cancelOperation, .ok a⟩, ⟨.status, .ok v⟩] ∧
          W.oneOf v terminalStates = .ok (some n)) := by
  obtain ⟨now_, s₁, got, rest⟩ := bind_eq_ok.1 h
  obtain ⟨rfl, rfl⟩ := get_eq_ok.1 got
  split at rest
  next succeeded =>
    obtain ⟨-, rfl⟩ := pure_eq_ok.1 rest
    exact .inl ⟨succeeded, rfl⟩
  next other =>
    obtain ⟨a, s₂, cancelled, h⟩ := bind_eq_ok.1 rest
    obtain ⟨v, s₃, answered, h⟩ := bind_eq_ok.1 h
    obtain ⟨terminal, s₄, compared, h⟩ := bind_eq_ok.1 h
    obtain ⟨-, -, rfl⟩ := onCursor_eq_ok.1 cancelled
    obtain ⟨-, -, rfl⟩ := onCursor_eq_ok.1 answered
    obtain ⟨state, rfl⟩ := ofExcept_eq_ok.1 compared
    rw [setResult_eq_ok] at h
    subst h
    cases terminal with
    | none => exact .inr ⟨other, .inl rfl⟩
    | some n => exact .inr ⟨other, .inr ⟨rfl, a, v, n, by simp, state⟩⟩

/-- What was done to close the cursor. -/
def CursorClosed (W : World V) (status : QueryStatus) (l : List (Reply V)) : Prop :=
  (status = .succeeded ∧ ∃ c, l = [⟨.closeCursor, .ok c⟩]) ∨
    status ≠ .succeeded ∧ ∃ a v n c, l = [⟨.cancelOperation, .ok a⟩, ⟨.status, .ok v⟩, ⟨.closeCursor, .ok c⟩] ∧
      W.oneOf v terminalStates = .ok (some n)

theorem closeCursor_eq_ok {u : Unit} (h : closeCursor W s = .ok u t) :
    (s.cursor = none ∧ t = s) ∨ t.result.status = .unknown ∨
      (s.cursor.isSome = true ∧ t.result = s.result ∧
        ∃ l, t.trace = s.trace ++ l ∧ CursorClosed W s.result.status l) := by
  obtain ⟨now_, s₁, got, rest⟩ := bind_eq_ok.1 h
  obtain ⟨rfl, rfl⟩ := get_eq_ok.1 got
  split at rest
  next open_ =>
    rcases orUnknown_eq_ok rest with ended | ⟨r, result⟩
    · obtain ⟨_, s₂, cancelled, ended⟩ := bind_eq_ok.1 ended
      obtain ⟨c, s₃, closed, ended⟩ := bind_eq_ok.1 ended
      obtain ⟨-, rfl⟩ := pure_eq_ok.1 ended
      obtain ⟨-, -, rfl⟩ := onCursor_eq_ok.1 closed
      rcases cancelOperation_eq_ok cancelled with
        ⟨succeeded, rfl⟩ | ⟨other, unknown | ⟨result, a, v, n, trace, state⟩⟩
      · exact .inr (.inr ⟨open_, rfl, _, rfl, .inl ⟨succeeded, c, rfl⟩⟩)
      · exact .inr (.inl unknown)
      · refine .inr (.inr ⟨open_, result, _, ?_, .inr ⟨other, a, v, n, c, rfl, state⟩⟩)
        rw [trace]
        simp
    · exact .inr (.inl (by rw [result]))
  next closed =>
    obtain ⟨-, rfl⟩ := pure_eq_ok.1 rest
    exact .inl ⟨by simpa using closed, rfl⟩

theorem closeConnection_eq_ok {u : Unit} (h : closeConnection W s = .ok u t) :
    (s.connection = none ∧ t = s) ∨ t.result.status = .unknown ∨
      (s.connection.isSome = true ∧ t.result = s.result ∧
        ∃ k, t.trace = s.trace ++ [⟨.closeConnection, .ok k⟩]) := by
  obtain ⟨now_, s₁, got, rest⟩ := bind_eq_ok.1 h
  obtain ⟨rfl, rfl⟩ := get_eq_ok.1 got
  split at rest
  next open_ =>
    rcases orUnknown_eq_ok rest with ended | ⟨r, result⟩
    · obtain ⟨k, s₂, closed, ended⟩ := bind_eq_ok.1 ended
      obtain ⟨-, rfl⟩ := pure_eq_ok.1 ended
      obtain ⟨-, -, rfl⟩ := onConnection_eq_ok.1 closed
      exact .inr (.inr ⟨open_, rfl, k, rfl⟩)
    · exact .inr (.inl (by rw [result]; rfl))
  next closed =>
    obtain ⟨-, rfl⟩ := pure_eq_ok.1 rest
    exact .inl ⟨by simpa using closed, rfl⟩

/-! ## The report -/

/-- The operation was cancelled, the server says that it has ended, and all is closed. -/
def CleanedUp (W : World V) (trace : List (Reply V)) : Prop :=
  ∃ before a v n c k, trace = before ++ [⟨.cancelOperation, .ok a⟩, ⟨.status, .ok v⟩,
      ⟨.closeCursor, .ok c⟩, ⟨.closeConnection, .ok k⟩] ∧
    W.oneOf v terminalStates = .ok (some n)

/-- What a query reports is so. -/
structure Reported (W : World V) (job : Job) (r : QueryResult) (t : Query V) : Prop where
  ended : r.status ≠ .running
  succeeded : r.status = .succeeded → ∃ trace c k,
    t.trace = trace ++ [⟨.closeCursor, .ok c⟩, ⟨.closeConnection, .ok k⟩] ∧
      Finished W job r trace
  stopped : r.status = .failed ∨ r.status = .cancelled →
    (∀ reply ∈ t.trace, reply.call.submits = false) ∨ CleanedUp W t.trace
  cancelled : r.status = .cancelled →
    ∃ n, n < t.asks ∧ (W.flag n || W.stopping n || W.cancelled n) = true
  bare : r.status ≠ .succeeded → r.rows = [] ∧ r.columns = [] ∧ r.rowCount = 0

/-- Closing the cursor and the connection. -/
theorem close_eq_ok {s₁ : Query V} {u u' : Unit} (h : closeCursor W s = .ok u s₁)
    (h' : closeConnection W s₁ = .ok u' t) (orderly : s.Orderly) :
    t.result.status = .unknown ∨ t.result = s.result ∧
      (s.cursor = none ∧ (∀ r ∈ t.trace, r.call.submits = false) ∨
        s.cursor.isSome = true ∧ ∃ l k, CursorClosed W s.result.status l ∧
          t.trace = s.trace ++ l ++ [⟨.closeConnection, .ok k⟩]) := by
  have connection : Stable fun q : Query V => q.connection = s.connection :=
    ⟨⟨fun _ h => h, fun _ _ _ h => h, fun _ h => h⟩, fun _ _ h => h⟩
  have same : s₁.connection = s.connection := connection.closeCursor.of_ok h rfl
  rcases closeConnection_eq_ok h' with ⟨none_, rfl⟩ | unknown | ⟨some_, result, k, trace⟩
  · rcases closeCursor_eq_ok h with ⟨closed, rfl⟩ | unknown | ⟨open_, -⟩
    · exact .inr ⟨rfl, .inl ⟨closed, orderly.unsubmitted closed⟩⟩
    · exact .inl unknown
    · have connected := orderly.connected open_
      rw [← same, none_] at connected
      cases connected
  · exact .inl unknown
  · rcases closeCursor_eq_ok h with ⟨closed, rfl⟩ | unknown | ⟨open_, result', l, trace', done⟩
    · refine .inr ⟨result, .inl ⟨closed, fun r hr => ?_⟩⟩
      rw [trace] at hr
      rcases List.mem_append.1 hr with old | new
      · exact orderly.unsubmitted closed r old
      · rw [List.mem_singleton.1 new]
        rfl
    · exact .inl (by rw [result]; exact unknown)
    · exact .inr ⟨result.trans result', .inr ⟨open_, l, k, done, by rw [trace, trace']⟩⟩

theorem QueryResult.finish_bare {r : QueryResult} {ms : Int}
    (h : (r.finish ms).status ≠ .succeeded) :
    (r.finish ms).rows = [] ∧ (r.finish ms).columns = [] ∧ (r.finish ms).rowCount = 0 := by
  have other : r.status ≠ .succeeded := h
  simp [QueryResult.finish, other]

/-- An unknown outcome may be reported always. -/
theorem Reported.unknown {r : QueryResult} {ms : Int} (h : r.status = .unknown) :
    Reported W job (r.finish ms) t where
  ended is := by cases h.symm.trans is
  succeeded is := by cases h.symm.trans is
  stopped is := by rcases is with is | is <;> cases h.symm.trans is
  cancelled is := by cases h.symm.trans is
  bare := QueryResult.finish_bare

/-- Success is reported once everything is closed. -/
theorem Reported.success {r : QueryResult} {ms : Int} {trace : List (Reply V)} {c k : V}
    (h : r.status = .succeeded) (finished : Finished W job r trace)
    (closed : t.trace = trace ++ [⟨.closeCursor, .ok c⟩, ⟨.closeConnection, .ok k⟩]) :
    Reported W job (r.finish ms) t where
  ended is := by cases h.symm.trans is
  succeeded _ := ⟨trace, c, k, closed, finished⟩
  stopped is := by rcases is with is | is <;> cases h.symm.trans is
  cancelled is := by cases h.symm.trans is
  bare := QueryResult.finish_bare

theorem conclude_reported (h : conclude W job fuel (Query.start job) = .ok none t) :
    Reported W job t.result t := by
  obtain ⟨start, s₁, started, h⟩ := bind_eq_ok.1 h
  obtain ⟨outcome, s₂, tried, h⟩ := bind_eq_ok.1 h
  obtain ⟨pending, s₃, handled, h⟩ := bind_eq_ok.1 h
  obtain ⟨_, s₄, cursor, h⟩ := bind_eq_ok.1 h
  obtain ⟨_, s₅, connection, h⟩ := bind_eq_ok.1 h
  obtain ⟨stop, s₆, stopped, h⟩ := bind_eq_ok.1 h
  obtain ⟨_, s₇, finished, h⟩ := bind_eq_ok.1 h
  obtain ⟨rfl, rfl⟩ := pure_eq_ok.1 h
  obtain ⟨-, rfl⟩ := ask_eq_ok.1 started
  obtain ⟨-, rfl⟩ := ask_eq_ok.1 stopped
  rw [setResult_eq_ok] at finished
  subst finished
  have orderly : s₂.Orderly :=
    attempt_orderly ⟨fun some_ => (by cases some_), fun _ r hr => absurd hr List.not_mem_nil⟩ rfl
      tried
  rcases handleFailure_eq_ok handled with ⟨rfl, rfl⟩ | ⟨⟨e, rfl⟩, trace, hcursor, hconnection, status⟩
  · rcases attempt_eq_ok.1 tried with ⟨u, -, ended⟩ | ⟨e, wrong, -⟩
    swap
    · cases wrong
    obtain ⟨succeeded, open_, finished⟩ := runQuery_eq_ok ended
    rcases close_eq_ok cursor connection orderly with unknown | ⟨result, closed⟩
    · exact .unknown unknown
    · rcases closed with ⟨none_, -⟩ | ⟨-, l, k, done, trace⟩
      · rw [none_] at open_
        cases open_
      · rcases done with ⟨-, c, rfl⟩ | ⟨other, -⟩
        · have all : s₅.trace = s₃.trace ++ [⟨.closeCursor, .ok c⟩, ⟨.closeConnection, .ok k⟩] :=
            trace.trans (List.append_assoc _ _ _)
          exact .success (by rw [result]; exact succeeded) (by rw [result]; exact finished) all
        · exact absurd succeeded other
  · have orderly₃ : s₃.Orderly :=
      ⟨by rw [hcursor, hconnection]; exact orderly.connected,
        by rw [hcursor, trace]; exact orderly.unsubmitted⟩
    have failed : s₃.result.status ≠ .succeeded := by
      rcases status with is | is | ⟨is, -⟩ <;> rw [is] <;> decide
    rcases close_eq_ok cursor connection orderly₃ with unknown | ⟨result, closed⟩
    · exact .unknown unknown
    · have asked : ∀ n, n < s₃.asks → n < s₅.asks := by
        intro n before
        have later : Stable fun q : Query V => n < q.asks :=
          ⟨⟨fun _ h => Nat.lt_succ_of_lt h, fun _ _ _ h => Nat.lt_succ_of_lt h, fun _ h => h⟩,
            fun _ _ h => h⟩
        refine (later.closeConnection ?_).of_ok connection (later.closeCursor.of_ok cursor before)
        exact fun _ _ _ h => Nat.lt_succ_of_lt h
      have clean : (∀ reply ∈ s₅.trace, reply.call.submits = false) ∨ CleanedUp W s₅.trace := by
        rcases closed with ⟨-, none_⟩ | ⟨-, l, k, done, trace⟩
        · exact .inl none_
        · rcases done with ⟨is, -⟩ | ⟨-, a, v, n, c, rfl, state⟩
          · exact absurd is failed
          · exact .inr ⟨s₃.trace, a, v, n, c, k, by rw [trace]; simp, state⟩
      have same : s₅.result.status = s₃.result.status := by rw [result]
      refine ⟨?_, fun is => absurd (same.symm.trans is) failed, fun _ => clean, ?_,
        QueryResult.finish_bare⟩
      · intro is
        have running : s₃.result.status = .running := same.symm.trans is
        rcases status with is | is | ⟨is, -⟩ <;> cases is.symm.trans running
      · intro is
        have cancelled : s₃.result.status = .cancelled := same.symm.trans is
        rcases status with is | is | ⟨-, n, before, requested⟩
        · cases is.symm.trans cancelled
        · cases is.symm.trans cancelled
        · exact ⟨n, Nat.lt_succ_of_lt (asked n before), requested⟩

/-! ## Every query comes to an end -/

/-- The fuel is not used up. -/
def Halts (x : QueryM V α) (s : Query V) : Prop := ∀ t, x s ≠ .error .outOfFuel t

theorem Halts.bind {β : Type} {x : QueryM V α} {f : α → QueryM V β} (hx : Halts x s)
    (hf : ∀ a t, x s = .ok a t → Halts (f a) t) : Halts (x >>= f) s := by
  intro t h
  rcases bind_eq_error.1 h with failed | ⟨a, s₁, ended, failed⟩
  · exact hx t failed
  · exact hf a s₁ ended t failed

theorem Halts.of_ok {x : QueryM V α} {a : α} (h : x s = .ok a t) : Halts x s := by
  intro t' failed
  rw [h] at failed
  cases failed

theorem Halts.pure (a : α) : Halts (pure a : QueryM V α) s := .of_ok (pure_eq_ok.2 ⟨rfl, rfl⟩)

theorem Halts.raise (e : Raised) : Halts (raise e : QueryM V α) s := by
  intro t h
  cases h

theorem Halts.get : Halts (get : QueryM V (Query V)) s := .of_ok (get_eq_ok.2 ⟨rfl, rfl⟩)

theorem Halts.update (f : Query V → Query V) : Halts (modify f : QueryM V Unit) s := by
  have ended : (modify f : QueryM V Unit) s = .ok ⟨⟩ (f s) := modify_eq_ok.2 rfl
  exact .of_ok ended

theorem Halts.ask (question : Nat → α) : Halts (ask question : QueryM V α) s :=
  .of_ok (ask_eq_ok.2 ⟨rfl, rfl⟩)

theorem Halts.setResult (f : QueryResult → QueryResult) :
    Halts (setResult f : QueryM V Unit) s := .update _

theorem Halts.ofExcept (x : Except Raised α) : Halts (ofExcept x : QueryM V α) s := by
  cases x with
  | ok a => exact .pure a
  | error e => exact .raise e

theorem Halts.raiseIf (b : Bool) (e : Raised) : Halts (raiseIf b e : QueryM V Unit) s := by
  cases b with
  | true => exact .raise e
  | false => exact .pure _

theorem Halts.callDriver (c : DriverCall) : Halts (callDriver W c) s := by
  intro t h
  unfold Impala.callDriver at h
  cases answer : W.call s.asks c with
  | ok v => rw [answer] at h; cases h
  | error e => rw [answer] at h; cases h

theorem Halts.onCursor (c : DriverCall) : Halts (onCursor W c) s := by
  intro t h
  rw [onCursor_apply] at h
  split at h
  · exact Halts.callDriver c t h
  · cases h

theorem Halts.onConnection (c : DriverCall) : Halts (onConnection W c) s := by
  intro t h
  rw [onConnection_apply] at h
  split at h
  · exact Halts.callDriver c t h
  · cases h

theorem Halts.attempt {body : QueryM V α} (h : Halts body s) : Halts (attempt body) s := by
  intro t failed
  unfold QueryM.attempt at failed
  cases ended : body s with
  | ok a s₁ => rw [ended] at failed; cases failed
  | error e s₁ =>
      rw [ended] at failed
      cases e with
      | raised e => cases failed
      | outOfFuel => exact h s₁ ended

theorem Halts.checkpoint : Halts (checkpoint W job deadline) s :=
  .bind (.ask _) fun _ _ _ => .bind (.raiseIf _ _) fun _ _ _ => .bind (.ask _) fun _ _ _ =>
    .bind (.raiseIf _ _) fun _ _ _ => .bind (.ask _) fun _ _ _ => .ofExcept _

section Late

variable {n : Nat} (late : ∀ m, n ≤ m → deadline ≤ (W.monotonic m).val)

include late

/-- No checkpoint is passed after the deadline. -/
theorem checkpoint_late {u : Unit} (h : checkpoint W job deadline s = .ok u t) :
    s.asks < n ∧ t.asks = s.asks + 3 := by
  obtain ⟨rfl, early⟩ := checkpoint_eq_ok h
  refine ⟨?_, rfl⟩
  by_contra after
  have := late (s.asks + 1) (by omega)
  omega

theorem waitFinished_halts (enough : n ≤ s.asks + fuel) :
    Halts (waitFinished W job deadline (fuel + 1)) s := by
  induction fuel generalizing s with
  | zero =>
      refine .bind .checkpoint fun _ s₁ passed => ?_
      have := (checkpoint_late late passed).1
      omega
  | succ fuel ih =>
      refine .bind .checkpoint fun _ s₁ passed => .bind (.onCursor _) fun state s₂ answered => ?_
      have asks := (checkpoint_late late passed).2
      obtain ⟨-, -, rfl⟩ := onCursor_eq_ok.1 answered
      refine .bind (.ofExcept _) fun finished s₃ compared => ?_
      obtain ⟨-, rfl⟩ := ofExcept_eq_ok.1 compared
      cases finished with
      | true => exact .pure _
      | false =>
          refine .bind (.ofExcept _) fun name s₄ other => ?_
          obtain ⟨-, rfl⟩ := ofExcept_eq_ok.1 other
          cases name with
          | some name => exact .raise _
          | none => exact ih (by simp only [asks]; omega)

theorem fetchRows_halts (enough : n ≤ s.asks + fuel) :
    Halts (fetchRows W job deadline (fuel + 1)) s := by
  induction fuel generalizing s with
  | zero =>
      refine .bind .checkpoint fun _ s₁ passed => ?_
      have := (checkpoint_late late passed).1
      omega
  | succ fuel ih =>
      refine .bind .checkpoint fun _ s₁ passed => .bind (.onCursor _) fun batch s₂ answered => ?_
      have asks := (checkpoint_late late passed).2
      obtain ⟨-, -, rfl⟩ := onCursor_eq_ok.1 answered
      refine .bind (.ofExcept _) fun more s₃ asked => ?_
      obtain ⟨-, rfl⟩ := ofExcept_eq_ok.1 asked
      cases more with
      | false => exact .pure _
      | true =>
          refine .bind .get fun now_ s₄ got => ?_
          obtain ⟨-, rfl⟩ := get_eq_ok.1 got
          dsimp only
          split
          · exact .setResult _
          · refine .bind (.ofExcept _) fun values s₅ unpacked => ?_
            obtain ⟨-, rfl⟩ := ofExcept_eq_ok.1 unpacked
            refine .bind (.ofExcept _) fun cells s₆ read => ?_
            obtain ⟨-, rfl⟩ := ofExcept_eq_ok.1 read
            obtain ⟨cells, cut⟩ := cells
            dsimp only
            split
            · exact .setResult _
            · refine .bind (.setResult _) fun _ s₇ added => ?_
              rw [setResult_eq_ok] at added
              subst added
              exact ih (by simp only [asks]; omega)

theorem runQuery_halts (enough : n ≤ fuel) : Halts (runQuery W job deadline (fuel + 1)) s := by
  have bound : ∀ q : Query V, n ≤ q.asks + fuel := fun q => enough.trans (Nat.le_add_left _ _)
  have opened : ∀ q : Query V, Halts (openCursor W) q := fun q =>
    .bind (.callDriver _) fun _ _ _ => .bind (.update _) fun _ _ _ => .bind (.onConnection _) fun _ _ _ =>
      .bind (.update _) fun _ _ _ => .bind (.onCursor _) fun _ _ _ => .pure _
  have verified : ∀ q : Query V, Halts (verifyAccount W job deadline (fuel + 1)) q := fun q =>
    .bind (.update _) fun _ _ _ => .bind (.onCursor _) fun _ q' _ =>
      .bind (waitFinished_halts late (bound q')) fun _ _ _ => .bind (.onCursor _) fun _ _ _ =>
        .bind (.ofExcept _) fun _ _ _ => .raiseIf _ _
  have submitted : ∀ q : Query V, Halts (submit W job deadline (fuel + 1)) q := fun q =>
    .bind (.onCursor _) fun _ _ _ => .bind (.ask _) fun _ _ _ => .bind (.ofExcept _) fun _ _ _ =>
      .bind (.setResult _) fun _ _ _ => .bind (.ask _) fun _ _ _ => .bind (.ofExcept _) fun _ q' _ =>
        waitFinished_halts late (bound q')
  have described : ∀ q : Query V, Halts (describe W job) q := fun q =>
    .bind (.onCursor _) fun _ _ _ => .bind (.ofExcept _) fun _ _ _ => .bind (.raiseIf _ _) fun _ _ _ =>
      .bind (.ofExcept _) fun _ _ _ => .bind (.setResult _) fun _ _ _ => .bind .get fun _ _ _ =>
        .raiseIf _ _
  exact .bind .checkpoint fun _ q₁ _ => .bind (opened q₁) fun _ q₂ _ => .bind (verified q₂)
    fun _ _ _ => .bind .checkpoint fun _ q₄ _ => .bind (submitted q₄) fun _ q₅ _ =>
      .bind (described q₅) fun _ q₆ _ => .bind (fetchRows_halts late (bound q₆)) fun _ _ _ =>
        .bind .checkpoint fun _ _ _ => .setResult _

end Late

theorem Halts.orUnknown {body : QueryM V Unit} (h : Halts body s) (f : QueryResult → QueryResult) :
    Halts (orUnknown body f) s := by
  refine .bind (.attempt h) fun outcome _ _ => ?_
  cases outcome with
  | ok _ => exact .pure _
  | error e =>
      cases e with
      | exit => exact .raise _
      | domain | error => exact .setResult _

theorem closeCursor_halts : Halts (closeCursor W) s := by
  have cancelled : ∀ q : Query V, Halts (cancelOperation W) q := by
    intro q
    refine .bind .get fun _ _ _ => ?_
    dsimp only
    split
    · exact .pure _
    · exact .bind (.onCursor _) fun _ _ _ => .bind (.onCursor _) fun _ _ _ =>
        .bind (.ofExcept _) fun _ _ _ => .setResult _
  refine .bind .get fun _ q _ => ?_
  split
  · exact .orUnknown (.bind (cancelled q) fun _ _ _ => .bind (.onCursor _) fun _ _ _ => .pure _) _
  · exact .pure _

theorem closeConnection_halts : Halts (closeConnection W) s := by
  refine .bind .get fun _ q _ => ?_
  split
  · exact .orUnknown (.bind (.onConnection _) fun _ _ _ => .pure _) _
  · exact .pure _

theorem handleFailure_halts (outcome : Except Raised Unit) : Halts (handleFailure W outcome) s := by
  cases outcome with
  | ok _ => exact .pure _
  | error e =>
      cases e with
      | domain code message =>
          exact .bind (.setResult _) fun _ _ _ => .bind (.ask _) fun _ _ _ =>
            .bind (.setResult _) fun _ _ _ => .pure _
      | error => exact .bind .get fun _ _ _ => .bind (.setResult _) fun _ _ _ => .pure _
      | exit => exact .pure _

/-- The program raises no other exceptions. -/
def RaisesOnly (P : Raised → Prop) (x : QueryM V α) : Prop :=
  ∀ s t e, x s = .error (.raised e) t → P e

section RaisesOnly

variable {P : Raised → Prop}

theorem RaisesOnly.bind {β : Type} {x : QueryM V α} {f : α → QueryM V β} (hx : RaisesOnly P x)
    (hf : ∀ a, RaisesOnly P (f a)) : RaisesOnly P (x >>= f) := by
  intro s t e h
  rcases bind_eq_error.1 h with failed | ⟨a, s₁, -, failed⟩
  · exact hx s t e failed
  · exact hf a s₁ t e failed

theorem RaisesOnly.pure (a : α) : RaisesOnly P (pure a : QueryM V α) := by
  intro s t e h
  cases h

theorem RaisesOnly.setResult (f : QueryResult → QueryResult) :
    RaisesOnly P (setResult f : QueryM V Unit) := by
  intro s t e h
  cases h

theorem RaisesOnly.ask (question : Nat → α) : RaisesOnly P (ask question : QueryM V α) := by
  intro s t e h
  cases h

theorem RaisesOnly.get : RaisesOnly P (get : QueryM V (Query V)) := by
  intro s t e h
  cases h

theorem RaisesOnly.attempt (body : QueryM V α) : RaisesOnly P (attempt body) := by
  intro s t e h
  unfold QueryM.attempt at h
  cases ended : body s with
  | ok a s₁ => rw [ended] at h; cases h
  | error e s₁ =>
      rw [ended] at h
      cases e with
      | raised e => cases h
      | outOfFuel => cases h

end RaisesOnly

/-- Only an exception that is no `Exception` gets past the clauses. -/
theorem orUnknown_exits (body : QueryM V Unit) (f : QueryResult → QueryResult) :
    RaisesOnly (· = .exit) (orUnknown body f) := by
  refine .bind (.attempt body) fun outcome => ?_
  cases outcome with
  | ok _ => exact .pure _
  | error e =>
      cases e with
      | exit =>
          intro s t e h
          cases h
          rfl
      | domain | error => exact .setResult _

theorem conclude_exits : RaisesOnly (· = .exit) (conclude W job fuel) := by
  have handled : ∀ outcome, RaisesOnly (· = .exit) (handleFailure W outcome) := by
    intro outcome
    cases outcome with
    | ok _ => exact .pure _
    | error e =>
        cases e with
        | domain code message =>
            exact .bind (.setResult _) fun _ => .bind (.ask _) fun _ =>
              .bind (.setResult _) fun _ => .pure _
        | error => exact .bind .get fun _ => .bind (.setResult _) fun _ => .pure _
        | exit => exact .pure _
  have closed : RaisesOnly (· = .exit) (closeCursor W) := by
    refine .bind .get fun q => ?_
    split
    · exact orUnknown_exits _ _
    · exact .pure _
  have disconnected : RaisesOnly (· = .exit) (closeConnection W) := by
    refine .bind .get fun q => ?_
    split
    · exact orUnknown_exits _ _
    · exact .pure _
  exact .bind (.ask _) fun _ => .bind (.attempt _) fun _ => .bind (handled _) fun _ =>
    .bind closed fun _ => .bind disconnected fun _ => .bind (.ask _) fun _ =>
      .bind (.setResult _) fun _ => .pure _

/-- An exception that is still to be raised is no `Exception`. -/
theorem conclude_pending {e : Raised} (h : conclude W job fuel s = .ok (some e) t) : e = .exit := by
  obtain ⟨_, _, -, h⟩ := bind_eq_ok.1 h
  obtain ⟨outcome, s₂, -, h⟩ := bind_eq_ok.1 h
  obtain ⟨pending, s₃, handled, h⟩ := bind_eq_ok.1 h
  obtain ⟨_, _, -, h⟩ := bind_eq_ok.1 h
  obtain ⟨_, _, -, h⟩ := bind_eq_ok.1 h
  obtain ⟨_, _, -, h⟩ := bind_eq_ok.1 h
  obtain ⟨_, _, -, h⟩ := bind_eq_ok.1 h
  obtain ⟨rfl, -⟩ := pure_eq_ok.1 h
  cases outcome with
  | ok _ => cases (pure_eq_ok.1 handled).1
  | error e' =>
      cases e' with
      | domain code message =>
          obtain ⟨_, _, -, handled⟩ := bind_eq_ok.1 handled
          obtain ⟨_, _, -, handled⟩ := bind_eq_ok.1 handled
          obtain ⟨_, _, -, handled⟩ := bind_eq_ok.1 handled
          cases (pure_eq_ok.1 handled).1
      | error =>
          obtain ⟨_, _, -, handled⟩ := bind_eq_ok.1 handled
          obtain ⟨_, _, -, handled⟩ := bind_eq_ok.1 handled
          cases (pure_eq_ok.1 handled).1
      | exit => exact Option.some.inj (pure_eq_ok.1 handled).1

theorem conclude_halts {n : Nat} (late : ∀ m, n ≤ m →
    (W.monotonic s.asks).val + job.profile.policy.timeoutSeconds * 1000000000 ≤ (W.monotonic m).val)
    (enough : n ≤ fuel) : Halts (conclude W job (fuel + 1)) s := by
  refine .bind (.ask _) fun start s₁ started => ?_
  obtain ⟨rfl, rfl⟩ := ask_eq_ok.1 started
  exact .bind (.attempt (runQuery_halts late enough)) fun _ _ _ =>
    .bind (handleFailure_halts _) fun _ _ _ => .bind closeCursor_halts fun _ _ _ =>
      .bind closeConnection_halts fun _ _ _ => .bind (.ask _) fun _ _ _ =>
        .bind (.setResult _) fun _ _ _ => .pure _

/-- Whatever the driver does and whenever a query is cancelled, what it reports is so.  It does
report, once the clock passes the deadline, unless an exception that is no `Exception` is raised or
the result cannot be saved. -/
theorem execute_reported {V : Type} (W : World V) (job : Job)
    (settle : Query V → Option Raised) :
    (∀ fuel r t, execute W job settle fuel (Query.start job) = .ok r t → Reported W job r t) ∧
      (∀ fuel e t, execute W job settle fuel (Query.start job) = .error (.raised e) t →
        e = .exit ∨ settle t = some e) ∧
      ∀ n, (∀ m, n ≤ m →
          (W.monotonic 0).val + job.profile.policy.timeoutSeconds * 1000000000 ≤
            (W.monotonic m).val) →
        ∀ fuel, n ≤ fuel → ∀ t,
          execute W job settle (fuel + 1) (Query.start job) ≠ .error .outOfFuel t := by
  refine ⟨?_, ?_, ?_⟩
  · intro fuel r t h
    obtain ⟨pending, s₁, ended, rest⟩ := bind_eq_ok.1 h
    obtain ⟨q, s₂, got, final⟩ := bind_eq_ok.1 rest
    obtain ⟨rfl, rfl⟩ := get_eq_ok.1 got
    cases settled : settle s₂ with
    | some e =>
        rw [settled] at final
        exact (raise_ne_ok final).elim
    | none =>
        rw [settled] at final
        cases pending with
        | some e => exact (raise_ne_ok final).elim
        | none =>
            obtain ⟨q', s₃, got', returned⟩ := bind_eq_ok.1 final
            obtain ⟨rfl, rfl⟩ := get_eq_ok.1 got'
            obtain ⟨rfl, rfl⟩ := pure_eq_ok.1 returned
            exact conclude_reported ended
  · intro fuel e t h
    rcases bind_eq_error.1 h with failed | ⟨pending, s₁, ended, rest⟩
    · exact .inl (conclude_exits _ _ _ failed)
    · rcases bind_eq_error.1 rest with failed | ⟨q, s₂, got, final⟩
      · cases failed
      · obtain ⟨rfl, rfl⟩ := get_eq_ok.1 got
        cases settled : settle s₂ with
        | some e' =>
            rw [settled] at final
            cases final
            exact .inr settled
        | none =>
            rw [settled] at final
            cases pending with
            | some e' =>
                cases final
                exact .inl (conclude_pending ended)
            | none => cases final
  · intro n late fuel enough t h
    have halts : Halts (execute W job settle (fuel + 1)) (Query.start job) := by
      refine .bind (conclude_halts late enough) fun pending s₁ _ => .bind .get fun q s₂ got => ?_
      obtain ⟨rfl, rfl⟩ := get_eq_ok.1 got
      cases settle s₂ with
      | some e => exact .raise _
      | none =>
          cases pending with
          | some e => exact .raise _
          | none => exact .bind .get fun _ _ _ => .pure _
    exact halts t h

/-! ## A query in a plain world -/

/-- Values of a plain driver. -/
inductive PlainValue where
  | text (s : String)
  | list (items : List PlainValue)

/-- A server on which everything goes well.  The account is asked for first, and then there is one
row. -/
def World.plain : World PlainValue where
  call n
    | .status => .ok (.text "FINISHED_STATE")
    | .description => .ok (.list [.list [.text "value"]])
    | .fetchmany =>
        .ok (.list (if n = 12 then [.list [.text "account1"]]
          else if n = 27 then [.list [.text "v"]] else []))
    | _ => .ok (.text "")
  guid _ := .ok none
  flag _ := false
  stopping _ := false
  cancelled _ := false
  monotonic _ := 0
  resolve _ := .bound "digest"
  save _ := none
  isNone _ := false
  truthy
    | .text s => .ok (s ≠ "")
    | .list items => .ok (!items.isEmpty)
  equals
    | .text s, t => .ok (s = t)
    | .list _, _ => .ok false
  hash
    | .text _ => .ok ()
    | .list _ => .error .error
  length
    | .text s => .ok s.length
    | .list items => .ok items.length
  first
    | .list (v :: _) => .ok v
    | _ => .error .error
  items
    | .list items => .ok items
    | .text _ => .error .error
  text
    | .text s => .ok s
    | .list _ => .error .error
  cell
    | .text s => .other (.ok s)
    | .list _ => .other (.error .error)

/-- A query of the plain world. -/
def Job.plain : Job where
  ref := "q"
  profile :=
    { department := "A", user := "account1", digest := "digest"
      department_reference := by decide
      user_length := by decide }
  sql := "SELECT value FROM t LIMIT 11"
  rows := 10

/-- What a query reports, with the number of its rows. -/
def reportOf {V : Type} (outcome : EStateM.Result Stop (Query V) QueryResult) :
    Option (QueryStatus × Nat) :=
  match outcome with
  | .ok r _ => some (r.status, r.rowCount)
  | .error _ _ => none

theorem reportOf_eq_some {V : Type} {outcome : EStateM.Result Stop (Query V) QueryResult}
    {report : QueryStatus × Nat} (h : reportOf outcome = some report) :
    ∃ r t, outcome = .ok r t ∧ (r.status, r.rowCount) = report := by
  cases outcome with
  | ok r t => exact ⟨r, t, rfl, Option.some.inj h⟩
  | error e t => cases h

theorem execute_reported_plain :
    ∃ r t, execute World.plain .plain (fun _ => none) 5 (Query.start .plain) = .ok r t ∧
      r.rowCount = 1 ∧ ∃ trace c k,
        t.trace = trace ++ [⟨.closeCursor, .ok c⟩, ⟨.closeConnection, .ok k⟩] ∧
          Finished World.plain .plain r trace := by
  have report : reportOf (execute World.plain .plain (fun _ => none) 5 (Query.start .plain)) =
      some (.succeeded, 1) := by decide +kernel
  obtain ⟨r, t, ended, same⟩ := reportOf_eq_some report
  obtain ⟨succeeded, one⟩ := Prod.mk.inj same
  have reported := (execute_reported World.plain .plain fun _ => none).1 5 r t ended
  exact ⟨r, t, ended, one, reported.succeeded succeeded⟩

end CodeForge.Impala
