import CodeForge.Impala.Outcomes

/-!
# What is submitted

A statement of the user is submitted once at most.  Before that the server was
asked for the account, and answered with that of the profile.  After that
answer, and right before the submission, a checkpoint was passed: nobody had
asked to stop, the deadline had not come, and the binding was the one the
message was accepted under (`Submitted`).  Every row is fetched right after
another such checkpoint.

Questions and calls are numbered in the order they are asked, and a world
answers by number.  A checkpoint takes three numbers (`Gate`).
-/

namespace CodeForge.Impala

open Lib QueryM

variable {V : Type} {W : World V} {job : Job} {deadline fuel n : Nat} {s t : Query V}

/-! ## Checkpoints -/

/-- The checkpoint that asks its first question as the `n`-th is passed. -/
structure Gate (W : World V) (digest : String) (deadline n : Nat) : Prop where
  free : (W.flag n || W.stopping n || W.cancelled n) = false
  early : (W.monotonic (n + 1)).val < deadline
  bound : W.resolve (n + 2) = .bound digest

theorem require_eq_ok {digest : String} {resolution : Resolution} :
    require digest resolution = .ok () ↔ resolution = .bound digest := by
  cases resolution with
  | invalid | missing | failed => exact ⟨nofun, nofun⟩
  | bound digest' =>
      rw [require]
      split
      next same => exact ⟨fun _ => by rw [same], fun _ => rfl⟩
      next other => exact ⟨nofun, fun same => absurd (Resolution.bound.inj same) other⟩

theorem checkpoint_gate {u : Unit} (h : checkpoint W job deadline s = .ok u t) :
    Gate W job.profile.digest deadline s.asks ∧ t = { s with asks := s.asks + 3 } := by
  obtain ⟨b, s₁, asked, h₁⟩ := bind_eq_ok.1 h
  obtain ⟨_, s₂, free, h₂⟩ := bind_eq_ok.1 h₁
  obtain ⟨now, s₃, clock, h₃⟩ := bind_eq_ok.1 h₂
  obtain ⟨_, s₄, early, h₄⟩ := bind_eq_ok.1 h₃
  obtain ⟨resolution, s₅, resolved, h₅⟩ := bind_eq_ok.1 h₄
  obtain ⟨rfl, rfl⟩ := ask_eq_ok.1 asked
  obtain ⟨unasked, rfl⟩ := raiseIf_eq_ok.1 free
  obtain ⟨rfl, rfl⟩ := ask_eq_ok.1 clock
  obtain ⟨timely, rfl⟩ := raiseIf_eq_ok.1 early
  obtain ⟨rfl, rfl⟩ := ask_eq_ok.1 resolved
  obtain ⟨bound, rfl⟩ := ofExcept_eq_ok.1 h₅
  exact ⟨⟨unasked, Nat.lt_of_not_le (of_decide_eq_false timely), require_eq_ok.1 bound⟩, rfl⟩

/-! ## Traces -/

/-- The call that asks for the account. -/
def Job.identify (job : Job) : DriverCall := .executeAsync "SELECT effective_user()" job.options

/-- The call that submits the statement of the user. -/
def Job.submission (job : Job) : DriverCall := .executeAsync job.sql job.options

/-- The call neither submits a statement nor fetches rows. -/
def DriverCall.plain (c : DriverCall) : Prop := c.submits = false ∧ c ≠ .fetchmany

/-- The statement of the user was not submitted: there is one statement at most, which asks for
the account, and what was fetched is its answer. -/
structure Unsubmitted (job : Job) (l : List (Reply V)) : Prop where
  identifies : ∀ r ∈ l, r.call.submits = true → r.call = job.identify
  once : l.countP (·.call.submits) ≤ 1
  answer : l.countP (·.call = .fetchmany) ≤ 1

/-- The account was asked for, and the answer, which was fetched by the `n`-th call, names the
account of the profile. -/
structure Verified (W : World V) (job : Job) (n : Nat) (l : List (Reply V)) : Prop where
  asked : ∃ opening c waiting v identity,
    l = opening ++ ⟨job.identify, .ok c⟩ :: waiting ++
      [⟨.status, .ok v⟩, ⟨.fetchmany, .ok identity⟩] ∧
    (∀ r ∈ opening, r.call.plain) ∧ (∀ r ∈ waiting, r.call = .status) ∧
    W.equals v "FINISHED_STATE" = .ok true ∧ W.call n .fetchmany = .ok identity ∧
    W.isAccount identity job.profile.user = .ok true

/-- What follows the submission, where the account was fetched by the `n`-th call.  Nothing more
is submitted, and every row is fetched right after a checkpoint. -/
structure Watched (W : World V) (digest : String) (deadline n : Nat) (l : List (Reply V)) :
    Prop where
  quiet : ∀ r ∈ l, r.call.submits = false
  rows : ∀ p r, l[p]? = some r → r.call = .fetchmany →
    Gate W digest deadline (n + 4 + 4 * p) ∧ r.answer = W.call (n + 7 + 4 * p) .fetchmany

/-- The statement of the user was submitted, right after a checkpoint, which came right after the
account was verified. -/
structure Submitted (W : World V) (job : Job) (digest : String) (deadline : Nat)
    (l : List (Reply V)) : Prop where
  gated : ∃ n before after,
    l = before ++ ⟨job.submission, W.call (n + 4) job.submission⟩ :: after ∧
    Verified W job n before ∧ Gate W digest deadline (n + 1) ∧ Watched W digest deadline n after

/-- The statement of the user is submitted under all conditions, or not at all. -/
def Guarded (W : World V) (job : Job) (digest : String) (deadline : Nat) (l : List (Reply V)) :
    Prop :=
  Unsubmitted job l ∨ Submitted W job digest deadline l

/-! ## Plain calls -/

theorem callDriver_final (c : DriverCall) : finalState (callDriver W c) s =
    { s with asks := s.asks + 1, trace := s.trace ++ [⟨c, W.call s.asks c⟩] } := by
  unfold finalState callDriver
  cases answer : W.call s.asks c with
  | ok v => rfl
  | error e => rfl

theorem onCursor_final (c : DriverCall) : finalState (onCursor W c) s =
    if s.cursor.isSome then
      { s with asks := s.asks + 1, trace := s.trace ++ [⟨c, W.call s.asks c⟩] }
    else s := by
  rw [← callDriver_final]
  unfold finalState
  rw [onCursor_apply]
  by_cases open_ : s.cursor.isSome = true
  · rw [if_pos open_, if_pos open_]
  · rw [if_neg open_, if_neg open_]

/-- A property of traces that plain calls keep. -/
def Plain (P : List (Reply V) → Prop) : Prop :=
  ∀ l r, r.call.plain → P l → P (l ++ [r])

section Plain

variable {P : List (Reply V) → Prop} (h : Plain P)

include h

theorem Plain.callDriver {c : DriverCall} (plain : c.plain) :
    Preserves (fun s : Query V => P s.trace) (callDriver W c) := by
  intro s hs
  rw [callDriver_final]
  exact h _ _ plain hs

theorem Plain.onCursor {c : DriverCall} (plain : c.plain) :
    Preserves (fun s : Query V => P s.trace) (onCursor W c) := by
  intro s hs
  rw [onCursor_final]
  split
  · exact h _ _ plain hs
  · exact hs

theorem Plain.onConnection {c : DriverCall} (plain : c.plain) :
    Preserves (fun s : Query V => P s.trace) (onConnection W c) := by
  intro s hs
  unfold finalState
  rw [onConnection_apply]
  by_cases open_ : s.connection.isSome = true
  · rw [if_pos open_]
    exact h.callDriver plain s hs
  · rw [if_neg open_]
    exact hs

omit h in
theorem finalState_attempt {α : Type} (body : QueryM V α) :
    finalState (attempt body) s = finalState body s := by
  unfold finalState attempt
  cases body s with
  | ok a t => rfl
  | error e t =>
      cases e with
      | raised e => rfl
      | outOfFuel => rfl

omit h in
theorem ask_keeps {α : Type} (question : Nat → α) :
    Preserves (fun s : Query V => P s.trace) (QueryM.ask question) := fun _ hs => hs

omit h in
theorem setResult_keeps_trace (f : QueryResult → QueryResult) :
    Preserves (fun s : Query V => P s.trace) (QueryM.setResult f) := .modify fun _ hs => hs

omit h in
theorem checkpoint_keeps : Preserves (fun s : Query V => P s.trace) (checkpoint W job deadline) :=
  .bind (ask_keeps _) fun _ => .bind (preserves_raiseIf _ _) fun _ => .bind (ask_keeps _) fun _ =>
    .bind (preserves_raiseIf _ _) fun _ => .bind (ask_keeps _) fun _ => preserves_ofExcept _

theorem Plain.waitFinished (fuel : Nat) :
    Preserves (fun s : Query V => P s.trace) (waitFinished W job deadline fuel) := by
  induction fuel with
  | zero => exact .throw _
  | succ fuel ih =>
      refine .bind checkpoint_keeps fun _ => .bind (h.onCursor ⟨rfl, nofun⟩) fun state => ?_
      refine .bind (preserves_ofExcept _) fun b => .ite (.pure _) ?_
      refine .bind (preserves_ofExcept _) fun name => ?_
      cases name with
      | none => exact ih
      | some name => exact .throw _

theorem Plain.openCursor : Preserves (fun s : Query V => P s.trace) (openCursor W) :=
  .bind (h.callDriver ⟨rfl, nofun⟩) fun _ => .bind (.modify fun _ hs => hs) fun _ =>
    .bind (h.onConnection ⟨rfl, nofun⟩) fun _ => .bind (.modify fun _ hs => hs) fun _ =>
      .bind (h.onCursor ⟨rfl, nofun⟩) fun _ => .pure _

theorem Plain.describe : Preserves (fun s : Query V => P s.trace) (describe W job) :=
  .bind (h.onCursor ⟨rfl, nofun⟩) fun _ => .bind (preserves_ofExcept _) fun _ =>
    .bind (preserves_raiseIf _ _) fun _ => .bind (preserves_ofExcept _) fun _ =>
      .bind (setResult_keeps_trace _) fun _ => .bind .get fun _ => preserves_raiseIf _ _

omit h in
theorem handleFailure_keeps (outcome : Except Raised Unit) :
    Preserves (fun s : Query V => P s.trace) (handleFailure W outcome) := by
  cases outcome with
  | ok _ => exact .pure _
  | error e =>
      cases e with
      | domain code message =>
          exact .bind (setResult_keeps_trace _) fun _ => .bind (ask_keeps _) fun _ =>
            .bind (setResult_keeps_trace _) fun _ => .pure _
      | error => exact .bind .get fun _ => .bind (setResult_keeps_trace _) fun _ => .pure _
      | exit => exact .pure _

omit h in
theorem orUnknown_keeps {body : QueryM V Unit}
    (kept : Preserves (fun s : Query V => P s.trace) body) (f : QueryResult → QueryResult) :
    Preserves (fun s : Query V => P s.trace) (orUnknown body f) := by
  refine .bind (preserves_attempt kept) fun outcome => ?_
  cases outcome with
  | ok _ => exact .pure _
  | error e =>
      cases e with
      | exit => exact .throw _
      | domain | error => exact setResult_keeps_trace _

theorem Plain.closeCursor : Preserves (fun s : Query V => P s.trace) (closeCursor W) := by
  refine .bind .get fun s => .ite (orUnknown_keeps ?_ _) (.pure _)
  refine .bind (.bind .get fun s => .ite (.pure _) ?_) fun _ =>
    .bind (h.onCursor ⟨rfl, nofun⟩) fun _ => .pure _
  exact .bind (h.onCursor ⟨rfl, nofun⟩) fun _ => .bind (h.onCursor ⟨rfl, nofun⟩) fun _ =>
    .bind (preserves_ofExcept _) fun _ => setResult_keeps_trace _

theorem Plain.closeConnection :
    Preserves (fun s : Query V => P s.trace) (closeConnection W) := by
  refine .bind .get fun s => .ite (orUnknown_keeps ?_ _) (.pure _)
  exact .bind (h.onConnection ⟨rfl, nofun⟩) fun _ => .pure _

end Plain

/-! ## Before the submission -/

theorem plain_quiet : Plain fun l : List (Reply V) => ∀ r ∈ l, r.call.plain := by
  intro l r plain quiet r' hr
  rcases List.mem_append.1 hr with old | new
  · exact quiet r' old
  · rw [List.mem_singleton.1 new]
    exact plain

/-- Nothing was fetched, and no statement was submitted but the one that asks for the account. -/
structure Asked (job : Job) (l : List (Reply V)) : Prop where
  identifies : ∀ r ∈ l, r.call.submits = true → r.call = job.identify
  once : l.countP (·.call.submits) ≤ 1
  unfetched : l.countP (·.call = .fetchmany) = 0

theorem Asked.plain : Plain (Asked (V := V) job) := by
  intro l r plain h
  refine ⟨fun r' hr submits => ?_, ?_, ?_⟩
  · rcases List.mem_append.1 hr with old | new
    · exact h.identifies r' old submits
    · rw [List.mem_singleton.1 new, plain.1] at submits
      cases submits
  · simpa [plain.1] using h.once
  · simpa [plain.2] using h.unfetched

theorem Asked.unsubmitted {l : List (Reply V)} (h : Asked job l) : Unsubmitted job l :=
  ⟨h.identifies, h.once, h.unfetched ▸ Nat.zero_le 1⟩

theorem Asked.of_quiet {l : List (Reply V)} (quiet : ∀ r ∈ l, r.call.plain) : Asked job l where
  identifies r hr submits := by
    rw [(quiet r hr).1] at submits
    cases submits
  once := by
    rw [List.countP_eq_zero.2 fun r hr => by rw [(quiet r hr).1]; decide]
    exact Nat.zero_le 1
  unfetched := List.countP_eq_zero.2 fun r hr => by simpa using (quiet r hr).2

/-- The statement that asks for the account is the first. -/
theorem Asked.identify {l : List (Reply V)} (quiet : ∀ r ∈ l, r.call.plain)
    (answer : Except Raised V) : Asked job (l ++ [⟨job.identify, answer⟩]) where
  identifies r hr submits := by
    rcases List.mem_append.1 hr with old | new
    · rw [(quiet r old).1] at submits
      cases submits
    · rw [List.mem_singleton.1 new]
  once := by
    have none_ : l.countP (·.call.submits) = 0 :=
      List.countP_eq_zero.2 fun r hr => by rw [(quiet r hr).1]; decide
    rw [List.countP_append, none_, List.countP_singleton]
    split <;> decide
  unfetched := by
    have none_ : l.countP (·.call = .fetchmany) = 0 :=
      List.countP_eq_zero.2 fun r hr => by simpa using (quiet r hr).2
    rw [List.countP_append, none_, List.countP_singleton]
    simp [Job.identify]

theorem Asked.fetch {l : List (Reply V)} (h : Asked job l) (answer : Except Raised V) :
    Unsubmitted job (l ++ [⟨.fetchmany, answer⟩]) where
  identifies r hr submits := by
    rcases List.mem_append.1 hr with old | new
    · exact h.identifies r old submits
    · rw [List.mem_singleton.1 new] at submits
      cases submits
  once := by
    rw [List.countP_append, List.countP_singleton]
    simpa [DriverCall.submits] using h.once
  answer := by
    rw [List.countP_append, h.unfetched, List.countP_singleton]
    split <;> decide

/-- Until the account is verified, nothing else is submitted. -/
theorem verifyAccount_unsubmitted (quiet : ∀ r ∈ s.trace, r.call.plain) :
    Unsubmitted job (finalState (verifyAccount W job deadline fuel) s).trace := by
  let I : Query V → Prop := fun s => Asked job s.trace
  let J : Query V → Prop := fun s => Unsubmitted job s.trace
  have weaken : ∀ s, I s → J s := fun s h => h.unsubmitted
  have stays : ∀ s, J s → J s := fun s h => h
  have asked : ∀ s : Query V, (∀ r ∈ s.trace, r.call.plain) →
      I (finalState (onCursor W job.identify) s) := by
    intro s quiet
    rw [onCursor_final]
    split
    · exact Asked.identify quiet _
    · exact Asked.of_quiet quiet
  have fetched : ∀ s : Query V, I s → J (finalState (onCursor W .fetchmany) s) := by
    intro s h
    rw [onCursor_final]
    split
    · exact h.fetch _
    · exact h.unsubmitted
  refine finalState_bind (I := J) (fun _ s₁ noted => ?_) fun _ _ failed => by cases failed
  cases noted
  refine finalState_follow (J := J) (Q := I) (asked _ quiet) weaken fun _ s₂ _ h₂ => ?_
  refine (Asked.plain.waitFinished fuel).follow (J := J) weaken (fun _ s₃ _ h₃ => ?_) h₂
  refine finalState_follow (J := J) (Q := J) (fetched _ h₃) stays fun identity s₄ _ h₄ => ?_
  refine Preserves.bind (preserves_ofExcept _) (fun same => preserves_raiseIf _ _) s₄ h₄

/-- The account is verified. -/
theorem verifyAccount_eq_ok {u : Unit} (quiet : ∀ r ∈ s.trace, r.call.plain)
    (h : verifyAccount W job deadline fuel s = .ok u t) :
    ∃ n, Verified W job n t.trace ∧ t.asks = n + 1 := by
  obtain ⟨_, s₁, noted, h₁⟩ := bind_eq_ok.1 h
  obtain ⟨c, s₂, asked, h₂⟩ := bind_eq_ok.1 h₁
  obtain ⟨_, s₃, waited, h₃⟩ := bind_eq_ok.1 h₂
  obtain ⟨identity, s₄, fetched, h₄⟩ := bind_eq_ok.1 h₃
  obtain ⟨same, s₅, compared, h₅⟩ := bind_eq_ok.1 h₄
  rw [modify_eq_ok] at noted
  subst noted
  obtain ⟨-, -, rfl⟩ := onCursor_eq_ok.1 asked
  obtain ⟨waiting, v, trace, still, finished⟩ := waitFinished_eq_ok waited
  obtain ⟨-, answer, rfl⟩ := onCursor_eq_ok.1 fetched
  obtain ⟨known, rfl⟩ := ofExcept_eq_ok.1 compared
  obtain ⟨matching, rfl⟩ := raiseIf_eq_ok.1 h₅
  refine ⟨s₃.asks, ⟨s.trace, c, waiting, v, identity, ?_, quiet, still, finished, answer, ?_⟩, rfl⟩
  · change s₃.trace ++ _ = _
    rw [trace]
    simp [Job.identify]
  · rw [known]
    simpa using matching

/-- Plain calls one after the other. -/
theorem Plain.append {P : List (Reply V) → Prop} (h : Plain P) {l m : List (Reply V)} (hl : P l)
    (plain : ∀ r ∈ m, r.call.plain) : P (l ++ m) := by
  induction m generalizing l with
  | nil => rwa [List.append_nil]
  | cons r m ih =>
      rw [List.append_cons]
      exact ih (h l r (plain r List.mem_cons_self) hl) fun r' hr =>
        plain r' (List.mem_cons_of_mem r hr)

theorem Verified.unsubmitted {l : List (Reply V)} (h : Verified W job n l) : Unsubmitted job l := by
  obtain ⟨opening, c, waiting, v, identity, rfl, quiet, still, -⟩ := h.asked
  have plain : ∀ r ∈ waiting ++ [(⟨.status, .ok v⟩ : Reply V)], r.call.plain := by
    intro r hr
    rcases List.mem_append.1 hr with waited | last
    · rw [still r waited]
      exact ⟨rfl, nofun⟩
    · rw [List.mem_singleton.1 last]
      exact ⟨rfl, nofun⟩
  have asked : Asked job (opening ++ [⟨job.identify, .ok c⟩]) := Asked.identify quiet _
  have fetched := (Asked.plain.append asked plain).fetch (.ok identity)
  simpa using fetched

/-! ## After the submission -/

/-- The trace since the submission. -/
structure Since (W : World V) (job : Job) (digest : String) (deadline n : Nat)
    (before after l : List (Reply V)) : Prop where
  trace : l = before ++ ⟨job.submission, W.call (n + 4) job.submission⟩ :: after
  verified : Verified W job n before
  gate : Gate W digest deadline (n + 1)
  watched : Watched W digest deadline n after

theorem Since.submitted {digest : String} {before after l : List (Reply V)}
    (h : Since W job digest deadline n before after l) : Submitted W job digest deadline l :=
  ⟨n, before, after, h.trace, h.verified, h.gate, h.watched⟩

theorem Watched.concat {digest : String} {l : List (Reply V)} {r : Reply V}
    (h : Watched W digest deadline n l) (quiet : r.call.submits = false)
    (row : r.call = .fetchmany → Gate W digest deadline (n + 4 + 4 * l.length) ∧
      r.answer = W.call (n + 7 + 4 * l.length) .fetchmany) :
    Watched W digest deadline n (l ++ [r]) where
  quiet r' hr := by
    rcases List.mem_append.1 hr with old | new
    · exact h.quiet r' old
    · rw [List.mem_singleton.1 new]
      exact quiet
  rows p r' found fetch := by
    rcases Nat.lt_trichotomy p l.length with old | here | beyond
    · rw [List.getElem?_append_left old] at found
      exact h.rows p r' found fetch
    · subst here
      rw [List.getElem?_concat_length] at found
      cases found
      exact row fetch
    · rw [List.getElem?_eq_none (by rw [List.length_append, List.length_singleton]; omega)] at found
      cases found

theorem Submitted.plain {digest : String} :
    Plain (Submitted W job digest deadline) := by
  rintro l r plain ⟨n, before, after, rfl, verified, gate, watched⟩
  refine ⟨n, before, after ++ [r], by simp, verified, gate, ?_⟩
  exact watched.concat plain.1 fun fetch => absurd fetch plain.2

theorem Unsubmitted.plain : Plain (Unsubmitted (V := V) job) := by
  intro l r plain h
  refine ⟨fun r' hr submits => ?_, ?_, ?_⟩
  · rcases List.mem_append.1 hr with old | new
    · exact h.identifies r' old submits
    · rw [List.mem_singleton.1 new, plain.1] at submits
      cases submits
  · simpa [plain.1] using h.once
  · simpa [plain.2] using h.answer

theorem Guarded.plain {digest : String} : Plain (Guarded W job digest deadline) := by
  rintro l r plain (h | h)
  · exact .inl (Unsubmitted.plain l r plain h)
  · exact .inr (Submitted.plain l r plain h)

/-- Waiting takes four numbers a time. -/
theorem waitFinished_asks {u : Unit} (h : waitFinished W job deadline fuel s = .ok u t) :
    ∃ waiting, t.trace = s.trace ++ waiting ∧ t.asks = s.asks + 4 * waiting.length ∧
      ∀ r ∈ waiting, r.call.plain := by
  induction fuel generalizing s with
  | zero => cases h
  | succ fuel ih =>
      obtain ⟨_, s₁, passed, h₁⟩ := bind_eq_ok.1 h
      obtain ⟨state, s₂, answered, h₂⟩ := bind_eq_ok.1 h₁
      obtain ⟨finished, s₃, compared, h₃⟩ := bind_eq_ok.1 h₂
      obtain ⟨-, rfl⟩ := checkpoint_gate passed
      obtain ⟨-, -, rfl⟩ := onCursor_eq_ok.1 answered
      obtain ⟨-, rfl⟩ := ofExcept_eq_ok.1 compared
      have plain : ∀ r ∈ [(⟨.status, .ok state⟩ : Reply V)], r.call.plain := by
        intro r hr
        rw [List.mem_singleton.1 hr]
        exact ⟨rfl, nofun⟩
      cases finished with
      | true =>
          obtain ⟨-, rfl⟩ := pure_eq_ok.1 h₃
          exact ⟨[⟨.status, .ok state⟩], rfl, rfl, plain⟩
      | false =>
          obtain ⟨name, s₄, other, h₄⟩ := bind_eq_ok.1 h₃
          obtain ⟨-, rfl⟩ := ofExcept_eq_ok.1 other
          cases name with
          | some name => exact (raise_ne_ok h₄).elim
          | none =>
              obtain ⟨waiting, trace, asks, rest⟩ := ih h₄
              refine ⟨⟨.status, .ok state⟩ :: waiting, ?_, ?_, ?_⟩
              · rw [trace]
                simp
              · rw [asks, List.length_cons]
                change s.asks + 3 + 1 + 4 * waiting.length = _
                omega
              · intro r hr
                rcases List.mem_cons.1 hr with rfl | hr
                · exact plain _ List.mem_cons_self
                · exact rest r hr

theorem Since.append {digest : String} {before after l m : List (Reply V)}
    (h : Since W job digest deadline n before after l) (plain : ∀ r ∈ m, r.call.plain) :
    Since W job digest deadline n before (after ++ m) (l ++ m) := by
  have watched : Watched W digest deadline n (after ++ m) :=
    Plain.append (fun l r plain h => h.concat plain.1 fun fetch => absurd fetch plain.2)
      h.watched plain
  exact ⟨by rw [h.trace]; simp, h.verified, h.gate, watched⟩

/-- Every row is fetched right after a checkpoint. -/
theorem fetchRows_submitted {before after : List (Reply V)}
    (h : Since W job job.profile.digest deadline n before after s.trace)
    (asks : s.asks = n + 4 + 4 * after.length) :
    Submitted W job job.profile.digest deadline
      (finalState (fetchRows W job deadline fuel) s).trace := by
  induction fuel generalizing s after with
  | zero => exact h.submitted
  | succ fuel ih =>
      let I : Query V → Prop := fun s => Submitted W job job.profile.digest deadline s.trace
      have stays : ∀ s, I s → I s := fun s h => h
      refine checkpoint_keeps.follow (J := I) stays (fun _ s₁ passed _ => ?_) h.submitted
      obtain ⟨gate, rfl⟩ := checkpoint_gate passed
      rw [asks] at gate
      -- The row that is fetched now.
      have fetched : Since W job job.profile.digest deadline n before
          (after ++ [⟨.fetchmany, W.call (s.asks + 3) .fetchmany⟩])
          (s.trace ++ [⟨.fetchmany, W.call (s.asks + 3) .fetchmany⟩]) := by
        refine ⟨by rw [h.trace]; simp, h.verified, h.gate, h.watched.concat rfl fun _ => ?_⟩
        have number : n + 4 + 4 * after.length + 3 = n + 7 + 4 * after.length := by omega
        refine ⟨gate, ?_⟩
        rw [asks, number]
      have called : I (finalState (onCursor W .fetchmany) { s with asks := s.asks + 3 }) := by
        rw [onCursor_final]
        split
        · exact fetched.submitted
        · exact h.submitted
      refine finalState_follow (J := I) (Q := I) called stays fun batch s₂ answered h₂ => ?_
      obtain ⟨-, answer, rfl⟩ := onCursor_eq_ok.1 answered
      rw [answer] at fetched
      refine (preserves_ofExcept _).follow (J := I) stays (fun more s₃ asked h₃ => ?_) h₂
      obtain ⟨-, rfl⟩ := ofExcept_eq_ok.1 asked
      cases more with
      | false => exact h₃
      | true =>
          refine Preserves.get.follow (J := I) stays (fun q s₄ got h₄ => ?_) h₃
          obtain ⟨rfl, rfl⟩ := get_eq_ok.1 got
          dsimp only
          split
          · exact h₄
          · refine (preserves_ofExcept _).follow (J := I) stays (fun values s₅ unpacked h₅ => ?_) h₄
            obtain ⟨-, rfl⟩ := ofExcept_eq_ok.1 unpacked
            refine (preserves_ofExcept _).follow (J := I) stays (fun cells s₆ read h₆ => ?_) h₅
            obtain ⟨-, rfl⟩ := ofExcept_eq_ok.1 read
            obtain ⟨cells, cut⟩ := cells
            dsimp only
            split
            · exact h₆
            · refine finalState_bind (I := I) (fun _ s₇ added => ?_) fun e s₇ failed => by
                cases failed
              rw [setResult_eq_ok] at added
              subst added
              refine ih fetched ?_
              change s.asks + 3 + 1 = _
              rw [asks, List.length_append, List.length_singleton]
              omega

/-- What comes after the checkpoint at which the statement may be submitted. -/
theorem submitted_guarded (verified : Verified W job n s.trace)
    (gate : Gate W job.profile.digest deadline (n + 1)) (asks : s.asks = n + 4) :
    Guarded W job job.profile.digest deadline (finalState (do
      submit W job deadline fuel
      describe W job
      fetchRows W job deadline fuel
      checkpoint W job deadline
      setResult fun r => { r with status := .succeeded }) s).trace := by
  let I : Query V → Prop := fun s => Submitted W job job.profile.digest deadline s.trace
  let J : Query V → Prop := fun s => Guarded W job job.profile.digest deadline s.trace
  have weaken : ∀ s, I s → J s := fun s h => .inr h
  have plain : Plain (Submitted W job job.profile.digest deadline) := Submitted.plain
  -- The submission itself, with nothing after it yet.
  have since : Since W job job.profile.digest deadline n s.trace []
      (s.trace ++ [⟨job.submission, W.call s.asks job.submission⟩]) :=
    ⟨by rw [asks], verified, gate, ⟨nofun, nofun⟩⟩
  have called : J (finalState (onCursor W job.submission) s) := by
    rw [onCursor_final]
    split
    · exact .inr since.submitted
    · exact .inl verified.unsubmitted
  have submitted : J (finalState (submit W job deadline fuel) s) := by
    refine finalState_follow (J := J) (Q := J) called (fun s h => h) fun c s₁ _ h₁ => ?_
    have kept : Plain (Guarded W job job.profile.digest deadline) := Guarded.plain
    exact Preserves.bind (ask_keeps _) (fun _ => .bind (preserves_ofExcept _) fun _ =>
      .bind (setResult_keeps_trace _) fun _ => .bind (ask_keeps _) fun _ =>
        .bind (preserves_ofExcept _) fun _ => kept.waitFinished fuel) s₁ h₁
  refine finalState_follow (J := J) (Q := J) submitted (fun s h => h) fun _ s₂ done _ => ?_
  obtain ⟨c, s₃, answered, d₁⟩ := bind_eq_ok.1 done
  obtain ⟨guid, s₄, asked, d₂⟩ := bind_eq_ok.1 d₁
  obtain ⟨queryId, s₅, read, d₃⟩ := bind_eq_ok.1 d₂
  obtain ⟨_, s₆, noted, d₄⟩ := bind_eq_ok.1 d₃
  obtain ⟨saved, s₇, saving, d₅⟩ := bind_eq_ok.1 d₄
  obtain ⟨_, s₈, kept, d₆⟩ := bind_eq_ok.1 d₅
  obtain ⟨-, answer, rfl⟩ := onCursor_eq_ok.1 answered
  obtain ⟨-, rfl⟩ := ask_eq_ok.1 asked
  obtain ⟨-, rfl⟩ := ofExcept_eq_ok.1 read
  rw [setResult_eq_ok] at noted
  subst noted
  obtain ⟨-, rfl⟩ := ask_eq_ok.1 saving
  obtain ⟨-, rfl⟩ := ofExcept_eq_ok.1 kept
  obtain ⟨waiting, trace, waited, quiet⟩ := waitFinished_asks d₆
  have same : W.call s.asks job.submission = .ok c := answer
  rw [same] at since
  have since₂ := since.append quiet
  change s₂.trace = s.trace ++ [⟨job.submission, .ok c⟩] ++ waiting at trace
  rw [← trace, List.nil_append] at since₂
  change s₂.asks = s.asks + 1 + 1 + 1 + 4 * waiting.length at waited
  -- The description of the columns brings the numbers into step.
  refine plain.describe.follow (J := J) weaken (fun _ s₉ described _ => ?_) since₂.submitted
  obtain ⟨v, s₁₀, told, e₁⟩ := bind_eq_ok.1 described
  obtain ⟨columns, s₁₁, named, e₂⟩ := bind_eq_ok.1 e₁
  obtain ⟨_, s₁₂, few, e₃⟩ := bind_eq_ok.1 e₂
  obtain ⟨names, s₁₃, listed, e₄⟩ := bind_eq_ok.1 e₃
  obtain ⟨_, s₁₄, set, e₅⟩ := bind_eq_ok.1 e₄
  obtain ⟨q, s₁₅, got, e₆⟩ := bind_eq_ok.1 e₅
  obtain ⟨-, -, rfl⟩ := onCursor_eq_ok.1 told
  obtain ⟨-, rfl⟩ := ofExcept_eq_ok.1 named
  obtain ⟨-, rfl⟩ := raiseIf_eq_ok.1 few
  obtain ⟨-, rfl⟩ := ofExcept_eq_ok.1 listed
  rw [setResult_eq_ok] at set
  subst set
  obtain ⟨-, rfl⟩ := get_eq_ok.1 got
  obtain ⟨-, rfl⟩ := raiseIf_eq_ok.1 e₆
  have since₉ := since₂.append (m := [⟨.description, .ok v⟩]) fun r hr => by
    rw [List.mem_singleton.1 hr]
    exact ⟨rfl, nofun⟩
  refine finalState_follow (J := J) (Q := I) (fetchRows_submitted since₉ ?_) weaken
    fun _ s₁₆ _ h => ?_
  · change s₂.asks + 1 = _
    rw [waited, asks, List.length_append, List.length_singleton]
    omega
  · exact .inr (Preserves.bind checkpoint_keeps (fun _ => setResult_keeps_trace _) s₁₆ h)

theorem runQuery_guarded (start : s.trace = []) :
    Guarded W job job.profile.digest deadline
      (finalState (runQuery W job deadline fuel) s).trace := by
  let I : Query V → Prop := fun s => ∀ r ∈ s.trace, r.call.plain
  let J : Query V → Prop := fun s => Guarded W job job.profile.digest deadline s.trace
  have weaken : ∀ s, I s → J s := fun s h => .inl (Asked.of_quiet h).unsubmitted
  have quiet : I s := by
    intro r hr
    rw [start] at hr
    cases hr
  have kept : Preserves I (checkpoint W job deadline) :=
    checkpoint_keeps (P := fun l => ∀ r ∈ l, r.call.plain)
  refine kept.follow (J := J) weaken (fun _ s₁ _ h₁ => ?_) quiet
  refine plain_quiet.openCursor.follow (J := J) weaken (fun _ s₂ _ h₂ => ?_) h₁
  have unsubmitted : J (finalState (verifyAccount W job deadline fuel) s₂) :=
    .inl (verifyAccount_unsubmitted h₂)
  refine finalState_follow (J := J) (Q := J) unsubmitted (fun s h => h) fun _ s₃ done h₃ => ?_
  obtain ⟨n, verified, asks⟩ := verifyAccount_eq_ok h₂ done
  have still : Preserves J (checkpoint W job deadline) :=
    checkpoint_keeps (P := fun l => Guarded W job job.profile.digest deadline l)
  refine still.follow (J := J) (fun s h => h) (fun _ s₄ passed _ => ?_) h₃
  obtain ⟨gate, rfl⟩ := checkpoint_gate passed
  rw [asks] at gate
  exact submitted_guarded verified gate (by change s₃.asks + 3 = _; omega)

/-- Whatever the driver does, and whenever somebody asks to stop or edits the configuration, the
statement of the user is submitted once at most: after the account was verified, and right after
a checkpoint that was passed.  Every row is fetched right after such a checkpoint. -/
theorem execute_guarded {V : Type} (W : World V) (job : Job) (frozen : String)
    (accepted : require frozen (.bound job.profile.digest) = .ok ())
    (settle : Query V → Option Raised) (fuel : Nat) :
    Guarded W job frozen
      ((W.monotonic 0).val + job.profile.policy.timeoutSeconds * 1000000000)
      (finalState (execute W job settle fuel) (Query.start job)).trace := by
  obtain rfl : job.profile.digest = frozen := Resolution.bound.inj (require_eq_ok.1 accepted)
  let J : Query V → Prop := fun s => Guarded W job job.profile.digest
    ((W.monotonic 0).val + job.profile.policy.timeoutSeconds * 1000000000) s.trace
  have stays : ∀ s, J s → J s := fun s h => h
  have plain : Plain (Guarded W job job.profile.digest
      ((W.monotonic 0).val + job.profile.policy.timeoutSeconds * 1000000000)) := Guarded.plain
  have nothing : J (Query.start job) := .inl (Asked.of_quiet fun r hr => by cases hr).unsubmitted
  have concluded : J (finalState (conclude W job fuel) (Query.start job)) := by
    refine Preserves.follow (I := J) (ask_keeps _) stays (fun start s₁ asked h₁ => ?_) nothing
    obtain ⟨rfl, rfl⟩ := ask_eq_ok.1 asked
    have ran : J (finalState (attempt (runQuery W job
        ((W.monotonic 0).val + job.profile.policy.timeoutSeconds * 1000000000) fuel))
        { Query.start job with asks := 1 }) := by
      have guarded : J (finalState (runQuery W job
          ((W.monotonic 0).val + job.profile.policy.timeoutSeconds * 1000000000) fuel)
          { Query.start job with asks := 1 }) := runQuery_guarded rfl
      rwa [finalState_attempt]
    refine finalState_follow (J := J) (Q := J) ran stays fun outcome s₂ _ h₂ => ?_
    exact Preserves.bind (handleFailure_keeps outcome) (fun _ => .bind plain.closeCursor fun _ =>
      .bind plain.closeConnection fun _ => .bind (ask_keeps _) fun _ =>
        .bind (setResult_keeps_trace _) fun _ => .pure _) s₂ h₂
  refine finalState_follow (J := J) (Q := J) concluded stays fun pending s₁ _ h₁ => ?_
  refine Preserves.get.follow (J := J) stays (fun q s₂ got h₂ => ?_) h₁
  cases settle q with
  | some e => exact h₂
  | none =>
      cases pending with
      | some e => exact h₂
      | none => exact h₂

/-- The query of the plain world is submitted. -/
theorem execute_guarded_plain :
    ∃ l, (finalState (execute World.plain .plain (fun _ => none) 5)
        (Query.start .plain)).trace = l ∧
      (l.any fun r => r.call = Job.plain.submission) = true ∧
      Guarded World.plain .plain "digest" (60 * 1000000000) l :=
  ⟨_, rfl, by decide +kernel, execute_guarded World.plain .plain "digest" rfl _ 5⟩

end CodeForge.Impala
