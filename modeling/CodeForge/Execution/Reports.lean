import CodeForge.Execution.Supervision

/-!
# What callers learn of an operation

Over any run of the backend: an id is started again only after it was released
(`started_once`), a workspace is committed once, after a success that no `cancel`
came before (`committed_once`), and the reports callers are told of an operation go
forward (`told_forward`).  An operation whose task is cancelled before it settles,
which `cancel` does after ten seconds, is reported as `RUNNING` for ever
(`died_running`).
-/

namespace CodeForge.Execution

open Lib Harness

variable {site : Site} {b b' : LocalProcessBackend} {e : Option Event} {k : Nat}

/-- A host without symbolic links. -/
def Site.plain : Site where
  workspaceRoot := .parse "/forge"
  root := .parse "/operations"
  resolve := .parse
  uuidText id := toString id.draw

/-- An operation of a workspace that is nobody's in particular. -/
def Submission.plain : Submission := submission { CodeCall.plain with userBinding := none } ⟨9⟩

/-- The submission goes through. -/
def Act.submits (spec : Submission) : List Act := [.submit spec (.ok ()) (.ok ()), .spawned]

/-- The revision it leaves. -/
def Commit.plain : Commit where
  revisionId := "r1"
  manifestDigest := "m"
  manifestRef := "manifests/r1"
  storageRef := "current"
  changedPaths := ["a.txt"]

/-! ## An id is started once -/

/-- An id stays registered until it is released. -/
theorem Stepped.registered (step : Stepped site b b' e) {id : Uuid}
    (quiet : ∀ x ∈ e, x ≠ .released id) (known : b.operations id ≠ none) :
    b'.operations id ≠ none := by
  cases step with
  | asks _ _ eq => exact eq ▸ known
  | @starts o _ _ operations =>
      rw [operations]
      by_cases same : id = o.spec.operationId
      · subst same
        rw [Function.update_self]
        simp
      · rwa [Function.update_of_ne same]
  | answers _ operations => exact operations ▸ known
  | @releases gone _ eq event =>
      subst eq event
      have other : id ≠ gone := fun same => quiet _ rfl (same ▸ rfl)
      dsimp only
      rwa [Function.update_of_ne other]
  | moves _ _ _ operations => exact operations ▸ known

/-- **An id is started once**, until it is released: `submit` spawns no process for an id that is
registered, however the calls of `submit` overlap. -/
theorem started_once {u v w : List Event} {k k' : Nat} {id : Uuid}
    (run : (localProcesses site).Run {} (u ++ .started k id :: (v ++ .started k' id :: w)) b) :
    .released id ∈ v := by
  obtain ⟨t, t', a, before, first, later⟩ := run.cut
  obtain ⟨s, s', a', between, second, -⟩ := later.cut
  have sound := sound_of_run before
  have sound' : t'.Sound := (next_stepped first).sound sound
  -- the first start registers the id
  have registered : t'.operations id ≠ none := by
    cases next_stepped first with
    | starts held _ operations _ event =>
        cases event
        rw [operations, Function.update_self]
        simp
    | asks _ _ _ quiet => cases quiet
    | answers _ _ _ quiet => exact absurd quiet (by simp [Event.Quiet])
    | releases _ _ event => cases event
    | moves _ move => cases move
  -- the second one finds it free
  have free : s.operations id = none := by
    cases next_stepped second with
    | starts held _ _ _ event =>
        cases event
        exact ((between.invariant (fun step => (next_stepped step).sound) sound').free _ held).2.2
    | asks _ _ _ quiet => cases quiet
    | answers _ _ _ quiet => exact absurd quiet (by simp [Event.Quiet])
    | releases _ _ event => cases event
    | moves _ move => cases move
  obtain ⟨x, hx, released⟩ := between.told_of (I := fun b => b.operations id = none)
    (Q := fun x => x = .released id)
    (fun step quiet known => (next_stepped step).registered quiet known) registered free
  exact released ▸ hx

/-- An id that is released, and started again. -/
theorem started_once_released : ∃ b v,
    (localProcesses .plain).Run {} (.started 0 ⟨9⟩ :: (v ++ [.started 1 ⟨9⟩])) b ∧
    Event.released ⟨9⟩ ∈ v := by
  let acts : List Act := Act.submits .plain ++ .release ⟨9⟩ :: Act.submits .plain
  have run := Machine.Run.play (m := localProcesses .plain) (s := {}) acts rfl
  exact ⟨_, [.released ⟨9⟩], run, started_once (u := []) (w := []) run⟩

/-! ## What was seen of an operation -/

/-- A step of an operation is a move of it. -/
theorem Stepped.move (step : Stepped site b b' e) {x : Event} (hx : x ∈ e) {j : Nat}
    (of : x.of = some j) :
    ∃ o o', b.objects[j]? = some o ∧ Moves j o o' e ∧ b'.objects = b.objects.set j o' := by
  cases step with
  | asks _ _ _ quiet =>
      subst quiet
      cases hx
  | starts _ _ _ _ event | releases _ _ event =>
      subst event
      cases hx
      cases of
  | answers _ _ _ quiet =>
      cases hx
      cases x with
      | refused | found | unknown | told => cases of
      | started | released | cancelRequested | settled | committed | uncommitted | died =>
          cases quiet
  | moves here move objects =>
      cases of.symm.trans (move.of hx)
      exact ⟨_, _, here, move, objects⟩

theorem Moves.flagged {o o' : RunningOperation} (move : Moves k o o' e)
    (h : o.cancelled = true ∨ some (.cancelRequested k) = e) : o'.cancelled = true := by
  cases move with
  | flag => rfl
  | _ => cases h with
    | inl flagged => exact flagged
    | inr event => cases event

theorem Moves.settled {o o' : RunningOperation} (move : Moves k o o' e) :
    o'.status ≠ .running ↔ o.status ≠ .running ∨ ∃ status, some (.settled k status) = e := by
  cases move with
  | flag | timeout | died | returned | cancelled | succeeded => simp
  | committed => simp [RunningOperation.committed]
  | failed => simp [RunningOperation.failed]
  | uncommitted stage status =>
      simp [RunningOperation.committed, RunningOperation.failed, status]

theorem Moves.succeeds {o o' : RunningOperation} (move : Moves k o o' e)
    (status : o'.status = .succeeded) :
    o.status = .succeeded ∨ e = some (.settled k .succeeded) ∧ o.cancelled = false := by
  cases move with
  | flag | timeout | died | returned | committed => exact .inl status
  | succeeded stage flagged => exact .inr ⟨rfl, flagged⟩
  | cancelled | failed | uncommitted => cases status

/-- What was seen of the operations agrees with what they are. -/
structure Recorded (told : List Event) (b : LocalProcessBackend) : Prop where
  known : ∀ x ∈ told, ∀ k, x.of = some k → k < b.objects.length
  flagged : ∀ (k : Nat) (o : RunningOperation), b.objects[k]? = some o →
    .cancelRequested k ∈ told → o.cancelled = true
  settled : ∀ (k : Nat) (o : RunningOperation), b.objects[k]? = some o →
    (o.status ≠ .running ↔ ∃ status, .settled k status ∈ told)
  succeeded : ∀ (k : Nat) (o : RunningOperation), b.objects[k]? = some o →
    o.status = .succeeded →
      ∃ before after, told = before ++ .settled k .succeeded :: after ∧
        .cancelRequested k ∉ before

theorem Recorded.empty : Recorded [] {} where
  known _ h := by cases h
  flagged _ _ h := by simp at h
  settled _ _ h := by simp at h
  succeeded _ _ h := by simp at h

theorem Stepped.length (step : Stepped site b b' e) : b.objects.length ≤ b'.objects.length := by
  cases step with
  | asks _ _ eq | releases _ eq => exact eq ▸ Nat.le_refl _
  | starts _ objects => simp [objects]
  | answers objects => exact objects ▸ Nat.le_refl _
  | moves _ _ objects => simp [objects]

/-- Every step keeps the record. -/
theorem Stepped.recorded (step : Stepped site b b' e) (sound : b.Sound) {told : List Event}
    (h : Recorded told b) : Recorded (told ++ e.toList) b' := by
  have mem : ∀ x, x ∈ told ++ e.toList ↔ x ∈ told ∨ some x = e := by
    intro x
    rw [List.mem_append, Option.mem_toList, eq_comm]
  have fresh : ∀ x : Event, x.of = some b.objects.length → x ∉ told := fun x of old =>
    absurd (h.known x old _ of) (Nat.lt_irrefl _)
  refine ⟨fun x hx k of => ?_, fun k o' there requested => ?_, fun k o' there => ?_,
    fun k o' there status => ?_⟩
  · cases (mem x).1 hx with
    | inl old => exact Nat.lt_of_lt_of_le (h.known x old k of) step.length
    | inr new =>
        obtain ⟨o, -, here, -⟩ := step.move (Option.mem_def.2 new.symm) of
        exact Nat.lt_of_lt_of_le (List.getElem?_eq_some_iff.1 here).1 step.length
  · rw [mem] at requested
    rcases step.object_of there with ⟨o, here, ⟨rfl, silent⟩ | move⟩ | ⟨-, rfl, rfl⟩
    · cases requested with
      | inl old => exact h.flagged k o' here old
      | inr new => exact absurd rfl (silent _ new.symm)
    · exact move.flagged (requested.imp_left (h.flagged k o here))
    · cases requested with
      | inl old => exact absurd old (fresh _ rfl)
      | inr new => cases new
  · simp only [mem]
    rcases step.object_of there with ⟨o, here, ⟨rfl, silent⟩ | move⟩ | ⟨held, rfl, rfl⟩
    · rw [h.settled k o' here]
      refine exists_congr fun status => (or_iff_left fun new => ?_).symm
      exact silent _ new.symm rfl
    · rw [move.settled, h.settled k o here, exists_or]
    · refine iff_of_false (fun ended => ended (sound.free o' held).1.status) fun seen => ?_
      obtain ⟨status, old | new⟩ := seen
      · exact fresh _ rfl old
      · cases new
  · have later : ∀ {before after : List Event}, told = before ++ .settled k .succeeded :: after →
        told ++ e.toList = before ++ .settled k .succeeded :: (after ++ e.toList) := by
      intro before after eq
      rw [eq, List.append_assoc, List.cons_append]
    rcases step.object_of there with ⟨o, here, ⟨rfl, -⟩ | move⟩ | ⟨held, -, -⟩
    · obtain ⟨before, after, eq, quiet⟩ := h.succeeded k o' here status
      exact ⟨before, _, later eq, quiet⟩
    · cases move.succeeds status with
      | inl already =>
          obtain ⟨before, after, eq, quiet⟩ := h.succeeded k o here already
          exact ⟨before, _, later eq, quiet⟩
      | inr now =>
          obtain ⟨rfl, unflagged⟩ := now
          refine ⟨told, [], rfl, fun requested => ?_⟩
          rw [h.flagged k o here requested] at unflagged
          cases unflagged
    · rw [(sound.free o' held).1.status] at status
      cases status

theorem recorded_of_run {told : List Event} (run : (localProcesses site).Run {} told b) :
    Recorded told b :=
  (run.history (I := fun told b => b.Sound ∧ Recorded told b)
    (fun step h => ⟨(next_stepped step).sound h.1, (next_stepped step).recorded h.1 h.2⟩)
    ⟨.empty, .empty⟩).2

/-! ## A workspace is committed once -/

theorem Stepped.committed (step : Stepped site b b' e) {commit : Commit}
    (event : e = some (.committed k commit)) :
    ∃ o o', b.objects[k]? = some o ∧ b'.objects[k]? = some o' ∧
      o.task = .gathering ∧ o.status = .succeeded ∧ o'.task = .returned ∧
      o'.workspaceCommit = some commit := by
  obtain ⟨o, o', here, move, objects⟩ := step.move (Option.mem_def.2 event) rfl
  have there : b'.objects[k]? = some o' := by
    rw [objects, List.getElem?_set_self (List.getElem?_eq_some_iff.1 here).1]
  cases move <;> cases event
  exact ⟨_, _, here, there, ‹_›, ‹_›, rfl, rfl⟩

/-- An operation whose task is over stays as it is, apart from its `cancelled` flag. -/
structure RunningOperation.Done (o o' : RunningOperation) : Prop where
  ended : o'.task.ended = true
  status : o'.status = o.status
  exitCode : o'.exitCode = o.exitCode
  commit : o'.workspaceCommit = o.workspaceCommit

theorem Stepped.done (step : Stepped site b b' e) {p : RunningOperation}
    (h : ∃ o, b.objects[k]? = some o ∧ p.Done o) : ∃ o, b'.objects[k]? = some o ∧ p.Done o := by
  obtain ⟨o, here, done⟩ := h
  obtain ⟨o', there, ⟨rfl, -⟩ | move⟩ := step.object here
  · exact ⟨o', there, done⟩
  · refine ⟨o', there, ?_⟩
    have ended := done.ended
    cases move with
    | flag => exact ⟨ended, done.status, done.exitCode, done.commit⟩
    | timeout stage | returned stage | committed stage | uncommitted stage =>
        rw [stage] at ended
        cases ended
    | cancelled stage | succeeded stage | failed stage | died stage =>
        rcases stage with stage | stage <;> rw [stage] at ended <;> cases ended

/-- **A workspace is committed once**, for an operation that ended with exit code 0 and whose
success no `cancel` came before.  The operation counts as a success from then on. -/
theorem committed_once {u v : List Event} {commit : Commit}
    (run : (localProcesses site).Run {} (u ++ .committed k commit :: v) b) :
    (∃ before after, u = before ++ .settled k .succeeded :: after ∧
      .cancelRequested k ∉ before) ∧
    (∀ other, .committed k other ∉ u ++ v) ∧
    ∃ o, b.objects[k]? = some o ∧ o.status = .succeeded ∧ o.exitCode = some 0 ∧
      o.workspaceCommit = some commit := by
  obtain ⟨t, t', a, before, step, later⟩ := run.cut
  have stepped := next_stepped step
  obtain ⟨o, o', here, there, gathering, status, returned, commits⟩ := stepped.committed rfl
  have fits' := ((stepped.sound (sound_of_run before)).fits k o' there).1
  have status' := (fits'.commit (by simp [commits])).1
  have ended : o'.task.ended = true := by rw [returned]; rfl
  have done : ∃ p, t'.objects[k]? = some p ∧ o'.Done p := ⟨o', there, ended, rfl, rfl, rfl⟩
  refine ⟨(recorded_of_run before).succeeded k o here status, fun other seen => ?_, ?_⟩
  · cases List.mem_append.1 seen with
    | inl early =>
        -- the task would have returned before
        obtain ⟨_, s, s', a', _, -, -, step', rest⟩ := before.told_by early
        obtain ⟨-, p, -, there', -, -, returned', -⟩ := (next_stepped step').committed rfl
        obtain ⟨q, here', done'⟩ := rest.invariant
          (I := fun b => ∃ q, b.objects[k]? = some q ∧ p.Done q)
          (fun step => (next_stepped step).done)
          ⟨p, there', by rw [returned']; rfl, rfl, rfl, rfl⟩
        cases here.symm.trans here'
        have ended' := done'.ended
        rw [gathering] at ended'
        cases ended'
    | inr late =>
        obtain ⟨_, s, s', a', _, -, between, step', -⟩ := later.told_by late
        obtain ⟨q, -, here', -, gathering', -⟩ := (next_stepped step').committed rfl
        obtain ⟨q', here'', done'⟩ := between.invariant
          (I := fun b => ∃ q, b.objects[k]? = some q ∧ o'.Done q)
          (fun step => (next_stepped step).done) done
        cases here'.symm.trans here''
        have ended' := done'.ended
        rw [gathering'] at ended'
        cases ended'
  · obtain ⟨q, there', done'⟩ := later.invariant
      (I := fun b => ∃ q, b.objects[k]? = some q ∧ o'.Done q)
      (fun step => (next_stepped step).done) done
    exact ⟨q, there', done'.status.trans status', done'.exitCode.trans (fits'.succeeded status').1,
      done'.commit.trans commits⟩

/-- A process that ends, and the answers its callers get meanwhile. -/
def Act.raced : List Act :=
  Act.submits .plain ++ [.finish 0 (.ok 0), .getStatus ⟨9⟩,
    .gather 0 (.returned false) (.returned false) (.ok .plain), .getStatus ⟨9⟩]

/-- A workspace that is committed. -/
theorem committed_once_raced : ∃ r r' b,
    (localProcesses .plain).Run {} [.started 0 ⟨9⟩, .settled 0 .succeeded, .told 0 r,
      .committed 0 .plain, .told 0 r'] b ∧
    ∃ o, b.objects[0]? = some o ∧ o.status = .succeeded ∧ o.exitCode = some 0 ∧
      o.workspaceCommit = some .plain := by
  have run := Machine.Run.play (m := localProcesses .plain) (s := {}) Act.raced rfl
  exact ⟨_, _, _, run, (committed_once
    (u := [.started 0 ⟨9⟩, .settled 0 .succeeded, .told 0 _]) (v := [.told 0 _]) run).2.2⟩

/-! ## What callers are told -/

/-- A report that makes sense. -/
structure Report.Sound (r : Report) : Prop where
  running : r.status = .running →
    r.exitCode = none ∧ r.errorCode = none ∧ r.workspaceRevision = none
  succeeded : r.status = .succeeded → r.exitCode = some 0 ∧ r.errorCode = none
  failed : r.status = .failed → r.errorCode = some .executionFailed ∧ r.workspaceRevision = none
  cancelled : r.status = .cancelled →
    r.exitCode = none ∧ r.errorCode = none ∧ r.workspaceRevision = none
  known : r.status ∈ [ToolStatus.running, .succeeded, .failed, .cancelled]

theorem RunningOperation.Fits.sound {o : RunningOperation} (fits : o.Fits) : o.result.Sound := by
  have unrevised : o.status ≠ .succeeded → o.workspaceRevision = none := by
    intro status
    cases commit : o.workspaceCommit with
    | none => simp [fits.revision, commit]
    | some c => exact absurd (fits.commit (by simp [commit])).1 status
  refine ⟨fun status => ?_, fits.succeeded, fun status => ?_, fun status => ?_, fits.known⟩
  · have running : o.status = .running := status
    exact ⟨(fits.running status).2.1, (fits.running status).2.2, unrevised (by simp [running])⟩
  · have failed : o.status = .failed := status
    exact ⟨fits.failed status, unrevised (by simp [failed])⟩
  · have cancelled : o.status = .cancelled := status
    obtain ⟨-, exitCode, errorCode⟩ := fits.cancelled status
    exact ⟨exitCode, errorCode, unrevised (by simp [cancelled])⟩

theorem Stepped.tells (step : Stepped site b b' e) {r : Report} (event : e = some (.told k r)) :
    ∃ o, b.objects[k]? = some o ∧ b'.objects[k]? = some o ∧ r = o.result := by
  cases step with
  | asks _ _ _ quiet =>
      rw [quiet] at event
      cases event
  | starts _ _ _ _ event' | releases _ _ event' =>
      rw [event'] at event
      cases event
  | answers objects _ _ quiet =>
      subst event
      obtain ⟨o, here, rfl⟩ := quiet
      exact ⟨o, here, objects ▸ here, rfl⟩
  | moves _ move =>
      subst event
      cases move

/-- An operation whose report is later than one that was told. -/
theorem Stepped.later (step : Stepped site b b' e) {r : Report}
    (h : b.Sound ∧ ∃ o, b.objects[k]? = some o ∧ r.Later o.result) :
    b'.Sound ∧ ∃ o, b'.objects[k]? = some o ∧ r.Later o.result := by
  obtain ⟨sound, o, here, later⟩ := h
  refine ⟨step.sound sound, ?_⟩
  obtain ⟨o', there, ⟨rfl, -⟩ | move⟩ := step.object here
  · exact ⟨o', there, later⟩
  · exact ⟨o', there, later.trans (move.later (sound.fits k o here).1)⟩

/-- **Reports go forward**: what callers are told of an operation makes sense, and what they are
told later is a later report.  A final report is the last word, unless it is a success without a
revision. -/
theorem told_forward {u v w : List Event} {r r' : Report}
    (run : (localProcesses site).Run {} (u ++ .told k r :: (v ++ .told k r' :: w)) b) :
    r.Sound ∧ r'.Sound ∧ r.Later r' ∧
      (r.status ≠ .running → (r.status = .succeeded → r.workspaceRevision ≠ none) → r' = r) := by
  obtain ⟨t, t', a, before, first, later⟩ := run.cut
  obtain ⟨s, s', a', between, second, -⟩ := later.cut
  obtain ⟨o, here, there, rfl⟩ := (next_stepped first).tells rfl
  obtain ⟨p, here', -, rfl⟩ := (next_stepped second).tells rfl
  have sound := sound_of_run before
  have sound' := (next_stepped first).sound sound
  obtain ⟨sound'', q, here'', goes⟩ := between.invariant
    (I := fun b => b.Sound ∧ ∃ q, b.objects[k]? = some q ∧ o.result.Later q.result)
    (fun step => (next_stepped step).later) ⟨sound', o, there, .same⟩
  cases here'.symm.trans here''
  exact ⟨(sound.fits k o here).1.sound, (sound''.fits k p here').1.sound, goes, goes.last⟩

/-- A success that is told before the workspace is committed. -/
theorem told_forward_raced : ∃ r r' b,
    (localProcesses .plain).Run {} [.started 0 ⟨9⟩, .settled 0 .succeeded, .told 0 r,
      .committed 0 .plain, .told 0 r'] b ∧
    r.status = .succeeded ∧ r.workspaceRevision = none ∧ r'.workspaceRevision = some "r1" ∧
    r.Later r' := by
  have run := Machine.Run.play (m := localProcesses .plain) (s := {}) Act.raced rfl
  exact ⟨_, _, _, run, rfl, rfl, rfl, (told_forward
    (u := [.started 0 ⟨9⟩, .settled 0 .succeeded]) (v := [.committed 0 .plain]) (w := [])
    run).2.2.1⟩

theorem Stepped.dies (step : Stepped site b b' e) (event : e = some (.died k)) :
    ∃ o o', b.objects[k]? = some o ∧ b'.objects[k]? = some o' ∧ o'.task = .died ∧
      o'.status = o.status := by
  obtain ⟨o, o', here, move, objects⟩ := step.move (Option.mem_def.2 event) rfl
  have there : b'.objects[k]? = some o' := by
    rw [objects, List.getElem?_set_self (List.getElem?_eq_some_iff.1 here).1]
  cases move <;> cases event
  exact ⟨_, _, here, there, rfl, rfl⟩

/-- **An operation whose task died stays as it is**: it is reported as `RUNNING` ever after, unless
its status was settled before. -/
theorem died_running {u v w : List Event} {r : Report}
    (run : (localProcesses site).Run {} (u ++ .died k :: (v ++ .told k r :: w)) b) :
    r.status = .running ↔ ∀ status, .settled k status ∉ u := by
  obtain ⟨t, t', a, before, first, later⟩ := run.cut
  obtain ⟨s, s', a', between, second, -⟩ := later.cut
  obtain ⟨o, o', here, there, died, same⟩ := (next_stepped first).dies rfl
  obtain ⟨p, here', -, rfl⟩ := (next_stepped second).tells rfl
  obtain ⟨q, here'', done⟩ := between.invariant
    (I := fun b => ∃ q, b.objects[k]? = some q ∧ o'.Done q)
    (fun step => (next_stepped step).done) ⟨o', there, by rw [died]; rfl, rfl, rfl, rfl⟩
  cases here'.symm.trans here''
  have settled := (recorded_of_run before).settled k o here
  have status : p.result.status = o.status := done.status.trans same
  rw [status]
  constructor
  · intro running final seen
    exact settled.2 ⟨final, seen⟩ running
  · intro unseen
    by_contra ended
    obtain ⟨final, seen⟩ := settled.1 ended
    exact unseen final seen

/-- A process that outlives its `cancel` by more than ten seconds. -/
theorem died_running_abandoned : ∃ r r' b,
    (localProcesses .plain).Run {} [.started 0 ⟨9⟩, .cancelRequested 0, .died 0, .told 0 r,
      .told 0 r'] b ∧ r.status = .running ∧ r'.status = .running := by
  let acts : List Act :=
    Act.submits .plain ++ [.cancel ⟨9⟩, .abandon 0, .cancelReturns 0, .getStatus ⟨9⟩]
  have run := Machine.Run.play (m := localProcesses .plain) (s := {}) acts rfl
  refine ⟨_, _, _, run, ?_, ?_⟩
  · exact (died_running (u := [.started 0 ⟨9⟩, .cancelRequested 0]) (v := [])
      (w := [.told 0 _]) run).2 (by simp)
  · exact (died_running (u := [.started 0 ⟨9⟩, .cancelRequested 0]) (v := [.told 0 _])
      (w := []) run).2 (by simp)

/-! ## Where processes run -/

/-- Where a harness asks for a process that is refused. -/
theorem cwd_submission {call : CodeCall} {id : Uuid} {failure : Failure}
    (h : site.cwd (submission call id) = .error failure) :
    failure = .domain .invalidRequest "working_directory must be below project_path" := by
  rw [Site.cwd] at h
  cases dir : (submission call id).workingDirectory with
  | none =>
      simp only [dir] at h
      cases h
  | some path =>
      simp only [dir] at h
      have refused : validateWorkingDirectory (submission call id) (site.resolve path) =
          .error failure := by
        cases valid : validateWorkingDirectory (submission call id) (site.resolve path) with
        | ok =>
            rw [valid] at h
            cases h
        | error other =>
            rw [valid] at h
            cases h
            rfl
      rw [validateWorkingDirectory] at refused
      cases bound : call.userBinding with
      | none =>
          simp [submission, buildOperationSpec, bound] at refused
      | some binding =>
          simp only [submission, buildOperationSpec, bound, Option.map_some] at refused
          split at refused
          next =>
            cases refused
            rfl
          next => simp at refused

theorem Stepped.starts_object (step : Stepped site b b' e) {id : Uuid}
    (event : e = some (.started k id)) :
    ∃ o, b'.objects[k]? = some o ∧ o.spec.operationId = id := by
  cases step with
  | asks _ _ _ quiet =>
      rw [quiet] at event
      cases event
  | starts _ objects _ _ event' =>
      rw [event'] at event
      cases event
      exact ⟨_, by simp [objects], rfl⟩
  | answers _ _ _ quiet =>
      subst event
      cases quiet
  | releases _ _ event' =>
      rw [event'] at event
      cases event
  | moves _ move =>
      subst event
      cases move

/-- **Processes stay in their projects**: an operation of a user is started in the user's project
directory or below, and with a mount of that project only. -/
theorem started_confined {told : List Event} (run : (localProcesses site).Run {} told b)
    {id : Uuid} (started : .started k id ∈ told) :
    ∃ o, b.objects[k]? = some o ∧ o.spec.operationId = id ∧ o.Confined := by
  obtain ⟨_, t, t', a, _, -, -, step, later⟩ := run.told_by started
  obtain ⟨o, there, same⟩ := (next_stepped step).starts_object rfl
  obtain ⟨p, there', spec⟩ := later.invariant
    (I := fun b => ∃ p, b.objects[k]? = some p ∧ p.spec = o.spec)
    (fun step h => by
      obtain ⟨p, here, spec⟩ := h
      obtain ⟨p', there, ⟨rfl, -⟩ | move⟩ := (next_stepped step).object here
      · exact ⟨p', there, spec⟩
      · exact ⟨p', there, move.start.1.trans spec⟩) ⟨o, there, rfl⟩
  exact ⟨p, there', by rw [spec, same], ((sound_of_run run).fits k p there').2⟩

/-- An operation of a user. -/
theorem started_confined_bound : ∃ b o,
    (localProcesses .plain).Run {} [.started 0 ⟨9⟩] b ∧ b.objects[0]? = some o ∧
    o.spec.userBinding.isSome ∧ o.Confined := by
  let acts : List Act := Act.submits (submission .plain ⟨9⟩)
  have run := Machine.Run.play (m := localProcesses .plain) (s := {}) acts rfl
  obtain ⟨o, there, -, confined⟩ := started_confined run (List.mem_singleton_self _)
  refine ⟨_, o, run, there, ?_, confined⟩
  cases there
  rfl

end CodeForge.Execution
