import CodeForge.Execution.Operations

/-!
# What becomes of an operation

Each step concerns one operation at most, and there are nine ways for an operation
to go on (`Moves`).  Its fields fit its stage at all times (`Fits`), and the reports
it gives rise to go forward (`Report.Later`): from `RUNNING` to a final one, which
is the last word unless it is a success without a revision.
-/

namespace CodeForge.Execution

open Lib Harness

variable {site : Site} {b b' : LocalProcessBackend} {e : Option Event} {k : Nat}

/-! ## Steps -/

/-- What a step does to an operation, and what is seen of it. -/
inductive Moves (k : Nat) (o : RunningOperation) : RunningOperation → Option Event → Prop
  | flag : Moves k o { o with cancelled := true } (some (.cancelRequested k))
  | timeout (stage : o.task = .waiting) : Moves k o { o with task := .terminating } none
  | cancelled (stage : o.task = .waiting ∨ o.task = .terminating) (flagged : o.cancelled = true) :
      Moves k o { o with task := .gathering, status := .cancelled } (some (.settled k .cancelled))
  | succeeded (stage : o.task = .waiting ∨ o.task = .terminating) (flagged : o.cancelled = false) :
      Moves k o { o with task := .gathering, exitCode := some 0, status := .succeeded }
        (some (.settled k .succeeded))
  | failed (stage : o.task = .waiting ∨ o.task = .terminating) (exitCode : Option Int)
      (message : String) :
      Moves k o ({ o with task := .gathering, exitCode }.failed message)
        (some (.settled k .failed))
  | died (stage : o.task = .waiting ∨ o.task = .gathering) (stdoutTruncated : Bool) :
      Moves k o { o with stdoutTruncated, task := .died } (some (.died k))
  | returned (stage : o.task = .gathering) (status : o.status ≠ .succeeded)
      (stdoutTruncated stderrTruncated : Bool) :
      Moves k o { o with stdoutTruncated, stderrTruncated, task := .returned } none
  | committed (stage : o.task = .gathering) (status : o.status = .succeeded)
      (stdoutTruncated stderrTruncated : Bool) (commit : Commit) :
      Moves k o ({ o with stdoutTruncated, stderrTruncated, task := .returned }.committed
        (.ok commit)) (some (.committed k commit))
  | uncommitted (stage : o.task = .gathering) (status : o.status = .succeeded)
      (stdoutTruncated stderrTruncated : Bool) (message : String) :
      Moves k o ({ o with stdoutTruncated, stderrTruncated, task := .returned }.committed
        (.error message)) (some (.uncommitted k))

namespace Moves

variable {o : RunningOperation}

theorem finished (stage : o.task = .waiting) (exit : Except String Int) :
    Moves k o (o.finished exit) (some (.settled k (o.finished exit).status)) := by
  simp only [RunningOperation.finished]
  by_cases flagged : o.cancelled = true
  · rw [if_pos flagged]
    exact .cancelled (.inl stage) flagged
  · rw [if_neg flagged]
    cases exit with
    | error message => exact .failed (.inl stage) o.exitCode _
    | ok code =>
        by_cases zero : code = 0
        · subst zero
          exact .succeeded (.inl stage) (Bool.eq_false_iff.2 flagged)
        · simp only [if_neg zero]
          exact .failed (.inl stage) (some code) _

theorem timedOut (stage : o.task = .terminating) :
    Moves k o o.timedOut (some (.settled k o.timedOut.status)) := by
  simp only [RunningOperation.timedOut]
  by_cases flagged : o.cancelled = true
  · rw [if_pos flagged]
    exact .cancelled (.inr stage) flagged
  · rw [if_neg flagged]
    exact .failed (.inr stage) o.exitCode _

theorem ends (stage : o.task = .gathering) (stdout stderr : ReadEnd)
    (commit : Except String Commit) :
    Moves k o (LocalProcessBackend.ends k o stdout stderr commit).1
      (LocalProcessBackend.ends k o stdout stderr commit).2 := by
  cases outEnd : stdout.truncated with
  | none =>
      have dies : o.gathered stdout stderr commit = { o with task := .died } := by
        simp only [RunningOperation.gathered, outEnd]
      simp only [LocalProcessBackend.ends, dies, if_true]
      exact .died (.inr stage) o.stdoutTruncated
  | some out =>
      cases errEnd : stderr.truncated with
      | none =>
          have dies : o.gathered stdout stderr commit =
              { o with stdoutTruncated := out, task := .died } := by
            simp only [RunningOperation.gathered, outEnd, errEnd]
          simp only [LocalProcessBackend.ends, dies, if_true]
          exact .died (.inr stage) out
      | some err =>
          let done : RunningOperation :=
            { o with stdoutTruncated := out, stderrTruncated := err, task := .returned }
          have goes : o.gathered stdout stderr commit =
              if o.status = .succeeded then done.committed commit else done := by
            simp only [RunningOperation.gathered, outEnd, errEnd, done]
          have alive : (if o.status = .succeeded then done.committed commit else done).task ≠
              .died := by
            split
            next =>
              cases commit <;> simp [RunningOperation.committed, RunningOperation.failed, done]
            next => simp [done]
          simp only [LocalProcessBackend.ends, goes, if_neg alive]
          by_cases status : o.status = .succeeded
          · simp only [if_pos status]
            cases commit with
            | ok commit => exact .committed stage status out err commit
            | error message => exact .uncommitted stage status out err message
          · simp only [if_neg status]
            exact .returned stage status out err

end Moves

/-- What is seen of a step that leaves the operations as they are. -/
def Event.Quiet (b : LocalProcessBackend) : Option Event → Prop
  | none | some (.refused ..) | some (.found _) | some (.unknown _) => True
  | some (.told k report) => ∃ o, b.objects[k]? = some o ∧ report = o.result
  | some _ => False

/-- What a step does. -/
inductive Stepped (site : Site) (b b' : LocalProcessBackend) (e : Option Event) : Prop
  | asks {spec : Submission} {prepared laidOut : Except Failure Unit} {o : RunningOperation}
      (absent : b.registered spec.operationId = none)
      (placed : LocalProcessBackend.place site spec prepared laidOut = .ok o)
      (eq : b' = { b with spawning := some o }) (quiet : e = none)
  | starts {o : RunningOperation} (held : b.spawning = some o)
      (objects : b'.objects = b.objects ++ [o])
      (operations : b'.operations =
        Function.update b.operations o.spec.operationId (some b.objects.length))
      (spawning : b'.spawning = none)
      (event : e = some (.started b.objects.length o.spec.operationId))
  | answers (objects : b'.objects = b.objects) (operations : b'.operations = b.operations)
      (spawning : b'.spawning = b.spawning ∨ b'.spawning = none) (quiet : Event.Quiet b e)
  | releases {id : Uuid} (free : b.spawning = none)
      (eq : b' = { b with operations := Function.update b.operations id none })
      (event : e = some (.released id))
  | moves {k : Nat} {o o' : RunningOperation} (there : b.objects[k]? = some o)
      (move : Moves k o o' e) (objects : b'.objects = b.objects.set k o')
      (operations : b'.operations = b.operations)
      (spawning : b'.spawning = b.spawning)

theorem registered_eq_some {id : Uuid} {o : RunningOperation} (h : b.registered id = some (k, o)) :
    b.operations id = some k ∧ b.objects[k]? = some o := by
  obtain ⟨j, known, h⟩ := Option.bind_eq_some_iff.1 h
  obtain ⟨o', there, h⟩ := Option.map_eq_some_iff.1 h
  cases h
  exact ⟨known, there⟩

/-- What `advance` does. -/
theorem advance_eq_some {stages : List Stage}
    {next : RunningOperation → RunningOperation × Option Event}
    (h : b.advance k stages next = some (b', e)) :
    ∃ o, b.objects[k]? = some o ∧ o.task ∈ stages ∧ b' = b.put k (next o).1 ∧ e = (next o).2 := by
  rw [LocalProcessBackend.advance] at h
  cases there : b.objects[k]? with
  | none =>
      rw [there] at h
      cases h
  | some o =>
      simp only [there] at h
      split at h
      next stage =>
        cases h
        exact ⟨o, rfl, stage, rfl, rfl⟩
      next => cases h

/-- A step of a task is a move of its operation. -/
theorem Stepped.of_advance {stages : List Stage}
    {next : RunningOperation → RunningOperation × Option Event}
    (h : b.advance k stages next = some (b', e))
    (move : ∀ o, o.task ∈ stages → Moves k o (next o).1 (next o).2) : Stepped site b b' e := by
  obtain ⟨o, there, stage, rfl, rfl⟩ := advance_eq_some h
  exact .moves there (move o stage) rfl rfl rfl

theorem next_stepped {a : Act} (h : (localProcesses site).step b a = some (b', e)) :
    Stepped site b b' e := by
  change b.next site a = some (b', e) at h
  cases a with
  | submit spec prepared laidOut =>
      simp only [LocalProcessBackend.next] at h
      split at h
      next => cases h
      next free =>
        cases known : b.registered spec.operationId with
        | some found =>
            simp only [known] at h
            split at h
            next =>
              cases h
              exact .answers rfl rfl (.inl rfl) trivial
            next =>
              cases h
              exact .answers rfl rfl (.inl rfl) trivial
        | none =>
            simp only [known] at h
            cases placed : LocalProcessBackend.place site spec prepared laidOut with
            | error failure =>
                simp only [placed] at h
                cases h
                exact .answers rfl rfl (.inl rfl) trivial
            | ok o =>
                simp only [placed] at h
                cases h
                exact .asks known placed rfl rfl
  | spawned =>
      simp only [LocalProcessBackend.next] at h
      cases held : b.spawning with
      | none =>
          rw [held] at h
          cases h
      | some o =>
          simp only [held] at h
          cases h
          exact .starts held rfl rfl rfl rfl
  | spawnFailed failure =>
      simp only [LocalProcessBackend.next] at h
      cases held : b.spawning with
      | none =>
          rw [held] at h
          cases h
      | some o =>
          simp only [held] at h
          cases h
          exact .answers rfl rfl (.inr rfl) trivial
  | getStatus id =>
      simp only [LocalProcessBackend.next] at h
      split at h
      next => cases h
      next =>
        cases known : b.registered id with
        | none =>
            simp only [known] at h
            cases h
            exact .answers rfl rfl (.inl rfl) trivial
        | some found =>
            simp only [known] at h
            cases h
            exact .answers rfl rfl (.inl rfl) ⟨found.2, (registered_eq_some known).2, rfl⟩
  | cancel id =>
      simp only [LocalProcessBackend.next] at h
      split at h
      next => cases h
      next =>
        cases known : b.registered id with
        | none =>
            simp only [known] at h
            cases h
            exact .answers rfl rfl (.inl rfl) trivial
        | some found =>
            simp only [known] at h
            cases h
            exact .moves (registered_eq_some known).2 .flag rfl rfl rfl
  | cancelReturns k =>
      simp only [LocalProcessBackend.next] at h
      cases there : b.objects[k]? with
      | none =>
          rw [there] at h
          cases h
      | some o =>
          simp only [there] at h
          split at h
          next =>
            cases h
            exact .answers rfl rfl (.inl rfl) ⟨o, there, rfl⟩
          next => cases h
  | cancelRaises k =>
      simp only [LocalProcessBackend.next] at h
      split at h
      next =>
        cases h
        exact .answers rfl rfl (.inl rfl) trivial
      next => cases h
  | release id =>
      simp only [LocalProcessBackend.next] at h
      split at h
      next => cases h
      next free =>
        cases h
        exact .releases (by simpa using free) rfl rfl
  | finish k exit => exact .of_advance h fun o stage => .finished (by simpa using stage) exit
  | timeout k => exact .of_advance h fun o stage => .timeout (by simpa using stage)
  | terminated k => exact .of_advance h fun o stage => .timedOut (by simpa using stage)
  | raise k message =>
      exact .of_advance h fun o stage => .failed (by simpa using stage) o.exitCode message
  | gather k stdout stderr commit =>
      exact .of_advance h fun o stage => .ends (by simpa using stage) stdout stderr commit
  | abandon k =>
      simp only [LocalProcessBackend.next] at h
      split at h
      next =>
        refine .of_advance h fun o stage => ?_
        by_cases terminating : o.task = .terminating
        · rw [if_pos terminating]
          exact .timedOut terminating
        · rw [if_neg terminating]
          exact .died (by simpa [terminating] using stage) o.stdoutTruncated
      next => cases h

/-! ## Operations -/

/-- The fields of an operation fit its stage. -/
structure RunningOperation.Fits (o : RunningOperation) : Prop where
  pending : o.task = .waiting ∨ o.task = .terminating → o.status = .running
  running : o.status = .running →
    (o.task ≠ .gathering ∧ o.task ≠ .returned) ∧ o.exitCode = none ∧ o.errorCode = none
  succeeded : o.status = .succeeded → o.exitCode = some 0 ∧ o.errorCode = none
  failed : o.status = .failed → o.errorCode = some .executionFailed
  cancelled : o.status = .cancelled → o.cancelled = true ∧ o.exitCode = none ∧ o.errorCode = none
  known : o.status ∈ [ToolStatus.running, .succeeded, .failed, .cancelled]
  revision : o.workspaceRevision = o.workspaceCommit.map (·.revisionId)
  commit : o.workspaceCommit.isSome → o.status = .succeeded ∧ o.task = .returned

/-- An operation whose process was just spawned. -/
structure RunningOperation.New (o : RunningOperation) : Prop where
  task : o.task = .waiting
  status : o.status = .running
  exitCode : o.exitCode = none
  errorCode : o.errorCode = none
  commit : o.workspaceCommit = none
  revision : o.workspaceRevision = none
  cancelled : o.cancelled = false

theorem RunningOperation.New.fits {o : RunningOperation} (new : o.New) : o.Fits where
  pending _ := new.status
  running _ := by simp [new.task, new.exitCode, new.errorCode]
  succeeded h := by simp [new.status] at h
  failed h := by simp [new.status] at h
  cancelled h := by simp [new.status] at h
  known := by simp [new.status]
  revision := by simp [new.commit, new.revision]
  commit h := by simp [new.commit] at h

/-- A later report on the same operation.  Of the final ones, only a success without a revision is
not the last word. -/
inductive Report.Later (r : Report) : Report → Prop
  | same : Later r r
  | running {r' : Report} (status : r.status = .running) (id : r'.operationId = r.operationId)
      (stdout : r'.stdoutRef = r.stdoutRef) (stderr : r'.stderrRef = r.stderrRef) : Later r r'
  | committed (status : r.status = .succeeded) (revision : r.workspaceRevision = none)
      (commit : Commit) :
      Later r { r with
        workspaceRevision := some commit.revisionId
        manifestDigest := some commit.manifestDigest
        manifestRef := some commit.manifestRef
        storageRef := some commit.storageRef
        changedPaths := commit.changedPaths }
  | uncommitted (status : r.status = .succeeded) (revision : r.workspaceRevision = none) :
      Later r { r with status := .failed, errorCode := some .executionFailed }

namespace Report.Later

variable {r r' r'' : Report}

theorem operationId (h : r.Later r') : r'.operationId = r.operationId := by
  cases h with
  | same | committed | uncommitted => rfl
  | running _ id => exact id

theorem stdoutRef (h : r.Later r') : r'.stdoutRef = r.stdoutRef := by
  cases h with
  | same | committed | uncommitted => rfl
  | running _ _ stdout => exact stdout

theorem stderrRef (h : r.Later r') : r'.stderrRef = r.stderrRef := by
  cases h with
  | same | committed | uncommitted => rfl
  | running _ _ _ stderr => exact stderr

/-- The last word. -/
theorem last (h : r.Later r') (ended : r.status ≠ .running)
    (settled : r.status = .succeeded → r.workspaceRevision ≠ none) : r' = r := by
  cases h with
  | same => rfl
  | running status => exact absurd status ended
  | committed status revision => exact absurd revision (settled status)
  | uncommitted status revision => exact absurd revision (settled status)

theorem trans (h : r.Later r') (h' : r'.Later r'') : r.Later r'' := by
  cases h with
  | same => exact h'
  | running status id stdout stderr =>
      exact .running status (h'.operationId.trans id) (h'.stdoutRef.trans stdout)
        (h'.stderrRef.trans stderr)
  | committed status revision commit =>
      rw [h'.last (by simp [status]) (by simp)]
      exact .committed status revision commit
  | uncommitted status revision =>
      rw [h'.last (by simp) (by simp)]
      exact .uncommitted status revision

end Report.Later

namespace Moves

variable {o o' : RunningOperation}

/-- What an operation was started with. -/
theorem start (move : Moves k o o' e) : o'.spec = o.spec ∧ o'.cwd = o.cwd ∧
    o'.stdoutRef = o.stdoutRef ∧ o'.stderrRef = o.stderrRef := by
  cases move <;> exact ⟨rfl, rfl, rfl, rfl⟩

/-- The fields still fit. -/
theorem fits (move : Moves k o o' e) (h : o.Fits) : o'.Fits := by
  cases move with
  | flag =>
      exact ⟨h.pending, h.running, h.succeeded, h.failed, fun s => ⟨rfl, (h.cancelled s).2⟩,
        h.known, h.revision, h.commit⟩
  | timeout stage =>
      have status := h.pending (.inl stage)
      exact ⟨fun _ => status, fun _ => ⟨by simp, (h.running status).2⟩, h.succeeded, h.failed,
        h.cancelled, h.known, h.revision, fun c => absurd status (by simp [(h.commit c).1])⟩
  | cancelled stage flagged =>
      have status := h.pending stage
      exact ⟨by simp, by simp, by simp, by simp, fun _ => ⟨flagged, (h.running status).2⟩, by simp,
        h.revision, fun c => absurd status (by simp [(h.commit c).1])⟩
  | succeeded stage flagged =>
      have status := h.pending stage
      exact ⟨by simp, by simp, fun _ => ⟨rfl, (h.running status).2.2⟩, by simp, by simp, by simp,
        h.revision, fun c => absurd status (by simp [(h.commit c).1])⟩
  | failed stage exitCode message =>
      have status := h.pending stage
      exact ⟨by simp [RunningOperation.failed], by simp [RunningOperation.failed],
        by simp [RunningOperation.failed], fun _ => rfl, by simp [RunningOperation.failed],
        by simp [RunningOperation.failed], h.revision,
        fun c => absurd status (by simp [(h.commit c).1])⟩
  | died stage out =>
      refine ⟨by simp, fun s => ⟨by simp, (h.running s).2⟩, h.succeeded, h.failed, h.cancelled,
        h.known, h.revision, fun c => ?_⟩
      rw [(h.commit c).2] at stage
      simp at stage
  | returned stage status out err =>
      refine ⟨by simp, fun s => absurd stage (h.running s).1.1, h.succeeded, h.failed, h.cancelled,
        h.known, h.revision, fun c => absurd (h.commit c).1 status⟩
  | committed stage status out err commit =>
      exact ⟨by simp [RunningOperation.committed],
        fun s => absurd stage (h.running s).1.1, h.succeeded, h.failed, h.cancelled, h.known, rfl,
        fun _ => ⟨status, rfl⟩⟩
  | uncommitted stage status out err message =>
      refine ⟨by simp [RunningOperation.committed, RunningOperation.failed],
        by simp [RunningOperation.committed, RunningOperation.failed],
        by simp [RunningOperation.committed, RunningOperation.failed], fun _ => rfl,
        by simp [RunningOperation.committed, RunningOperation.failed],
        by simp [RunningOperation.committed, RunningOperation.failed], h.revision, fun c => ?_⟩
      rw [(h.commit c).2] at stage
      cases stage

/-- Its report is a later one. -/
theorem later (move : Moves k o o' e) (h : o.Fits) : o.result.Later o'.result := by
  have open_ : o.task = .gathering → o.workspaceCommit = none := by
    intro stage
    cases commit : o.workspaceCommit with
    | none => rfl
    | some c =>
        have returned := (h.commit (by simp [commit])).2
        rw [stage] at returned
        cases returned
  cases move with
  | flag | timeout | died | returned => exact .same
  | cancelled stage | succeeded stage | failed stage =>
      exact .running (h.pending stage) rfl rfl rfl
  | committed stage status out err commit =>
      have revision : o.result.workspaceRevision = none := by
        simp [RunningOperation.result, h.revision, open_ stage]
      exact .committed status revision commit
  | uncommitted stage status out err message =>
      have revision : o.result.workspaceRevision = none := by
        simp [RunningOperation.result, h.revision, open_ stage]
      exact .uncommitted status revision

end Moves

/-! ## The backend -/

/-- An operation runs where its submission may run. -/
structure RunningOperation.Confined (o : RunningOperation) : Prop where
  below : ∀ binding, o.spec.userBinding = some binding →
    (o.cwd.relativeTo (.parse binding.projectPath)).isSome
  mounts : ∀ mount, o.spec.mountSpec = some mount → o.spec.workingDirectory.isSome →
    ∃ binding, o.spec.userBinding = some binding ∧
      (mount.granularity = .project → mount.sourceRef = binding.projectRef)

theorem relativeTo_self (p : PurePath) : (p.relativeTo p).isSome := by
  simp [PurePath.relativeTo]

theorem validateWorkingDirectory_eq_ok {spec : Submission} {cwd : PurePath}
    (h : validateWorkingDirectory spec cwd = .ok ()) :
    (∀ binding, spec.userBinding = some binding →
      (cwd.relativeTo (.parse binding.projectPath)).isSome) ∧
    ∀ mount, spec.mountSpec = some mount → ∃ binding, spec.userBinding = some binding ∧
      (mount.granularity = .project → mount.sourceRef = binding.projectRef) := by
  rw [validateWorkingDirectory] at h
  cases bound : spec.userBinding with
  | none =>
      simp only [bound] at h
      split at h
      next => cases h
      next absent =>
        refine ⟨fun _ h => (by cases h), fun mount mounted => ?_⟩
        rw [mounted] at absent
        exact absurd rfl absent
  | some binding =>
      simp only [bound] at h
      split at h
      next => cases h
      next below =>
        refine ⟨fun other same => ?_, fun mount mounted => ⟨binding, rfl, fun project => ?_⟩⟩
        · cases same
          simpa [Option.isSome_iff_ne_none] using below
        · simp only [mounted, project, if_true] at h
          split at h
          next => cases h
          next fine =>
            by_contra other
            exact fine ⟨other, by decide⟩

/-- What a submission comes to. -/
theorem place_eq_ok {spec : Submission} {prepared laidOut : Except Failure Unit}
    {o : RunningOperation} (h : LocalProcessBackend.place site spec prepared laidOut = .ok o) :
    o.spec = spec ∧ o.New ∧ o.Confined := by
  rw [LocalProcessBackend.place] at h
  obtain ⟨_, -, h⟩ := except_bind_eq_ok.1 h
  obtain ⟨cwd, chosen, h⟩ := except_bind_eq_ok.1 h
  obtain ⟨_, -, h⟩ := except_bind_eq_ok.1 h
  cases h
  refine ⟨rfl, ⟨rfl, rfl, rfl, rfl, rfl, rfl, rfl⟩, ?_⟩
  rw [Site.cwd] at chosen
  cases dir : spec.workingDirectory with
  | none =>
      simp only [dir] at chosen
      cases chosen
      refine ⟨fun binding bound => ?_, fun mount _ named => ?_⟩
      · dsimp only at bound ⊢
        simp only [Site.attemptDir, bound]
        exact relativeTo_self _
      · simp [dir] at named
  | some path =>
      simp only [dir] at chosen
      obtain ⟨_, valid, rfl⟩ := except_map_eq_ok.1 chosen
      obtain ⟨below, mounts⟩ := validateWorkingDirectory_eq_ok valid
      exact ⟨below, fun mount mounted _ => mounts mount mounted⟩

/-- What holds of the backend at all times. -/
structure LocalProcessBackend.Sound (b : LocalProcessBackend) : Prop where
  fits : ∀ (k : Nat) (o : RunningOperation), b.objects[k]? = some o → o.Fits ∧ o.Confined
  known : ∀ (id : Uuid) (k : Nat), b.operations id = some k →
    ∃ o : RunningOperation, b.objects[k]? = some o
  free : ∀ o : RunningOperation, b.spawning = some o →
    o.New ∧ o.Confined ∧ b.operations o.spec.operationId = none

theorem LocalProcessBackend.Sound.empty : ({} : LocalProcessBackend).Sound where
  fits _ _ h := by simp at h
  known _ _ h := by simp at h
  free _ h := by simp at h

/-- An id that is not registered is unknown. -/
theorem LocalProcessBackend.Sound.absent (sound : b.Sound) {id : Uuid}
    (absent : b.registered id = none) : b.operations id = none := by
  cases known : b.operations id with
  | none => rfl
  | some k =>
      obtain ⟨o, there⟩ := sound.known id k known
      simp [LocalProcessBackend.registered, known, there] at absent

/-- The operation an event is a step of. -/
def Event.of : Event → Option Nat
  | .cancelRequested k | .settled k _ | .committed k _ | .uncommitted k | .died k => some k
  | .started .. | .refused .. | .found _ | .released _ | .told .. | .unknown _ => none

theorem Moves.of {o o' : RunningOperation} (move : Moves k o o' e) {x : Event} (hx : x ∈ e) :
    x.of = some k := by
  cases move <;> cases hx <;> rfl

/-- An operation stays as it was, or moves. -/
theorem Stepped.object (step : Stepped site b b' e) {j : Nat} {o : RunningOperation}
    (there : b.objects[j]? = some o) :
    ∃ o', b'.objects[j]? = some o' ∧
      ((o' = o ∧ ∀ x ∈ e, x.of ≠ some j) ∨ Moves j o o' e) := by
  cases step with
  | asks _ _ eq quiet =>
      subst quiet
      exact ⟨o, eq ▸ there, .inl ⟨rfl, by simp⟩⟩
  | starts _ objects _ _ event =>
      subst event
      refine ⟨o, ?_, .inl ⟨rfl, by simp [Event.of]⟩⟩
      rw [objects, List.getElem?_append_left (List.getElem?_eq_some_iff.1 there).1]
      exact there
  | answers objects _ _ quiet =>
      refine ⟨o, objects ▸ there, .inl ⟨rfl, fun x hx => ?_⟩⟩
      cases hx
      cases x with
      | refused | found | unknown | told => simp [Event.of]
      | started | released | cancelRequested | settled | committed | uncommitted | died =>
          cases quiet
  | releases _ eq event =>
      subst event
      exact ⟨o, eq ▸ there, .inl ⟨rfl, by simp [Event.of]⟩⟩
  | @moves k p p' here move objects =>
      by_cases same : k = j
      · subst same
        cases there.symm.trans here
        refine ⟨p', ?_, .inr move⟩
        rw [objects, List.getElem?_set_self (List.getElem?_eq_some_iff.1 here).1]
      · refine ⟨o, ?_, .inl ⟨rfl, fun x hx of => same ?_⟩⟩
        · rw [objects, List.getElem?_set_ne same]
          exact there
        · exact Option.some.inj ((move.of hx).symm.trans of)

/-- An operation was there before, or was just started. -/
theorem Stepped.object_of (step : Stepped site b b' e) {j : Nat} {o' : RunningOperation}
    (there : b'.objects[j]? = some o') :
    (∃ o, b.objects[j]? = some o ∧
      ((o' = o ∧ ∀ x ∈ e, x.of ≠ some j) ∨ Moves j o o' e)) ∨
      (b.spawning = some o' ∧ j = b.objects.length ∧
        e = some (.started j o'.spec.operationId)) := by
  by_cases old : j < b.objects.length
  · obtain ⟨o, here⟩ : ∃ o, b.objects[j]? = some o := ⟨_, List.getElem?_eq_getElem old⟩
    obtain ⟨o₂, here₂, goes⟩ := step.object here
    cases there.symm.trans here₂
    exact .inl ⟨o, here, goes⟩
  · cases step with
    | starts held objects _ _ event =>
        rw [objects] at there
        have : j = b.objects.length := by
          by_contra other
          rw [List.getElem?_eq_none (by simp; omega)] at there
          cases there
        subst this
        simp at there
        subst there
        exact .inr ⟨held, rfl, event⟩
    | asks _ _ eq | releases _ eq =>
        rw [eq] at there
        exact absurd (List.getElem?_eq_some_iff.1 there).1 old
    | answers objects =>
        rw [objects] at there
        exact absurd (List.getElem?_eq_some_iff.1 there).1 old
    | moves here move objects =>
        rw [objects] at there
        have := (List.getElem?_eq_some_iff.1 there).1
        rw [List.length_set] at this
        exact absurd this old

theorem Moves.confined {o o' : RunningOperation} (move : Moves k o o' e) (h : o.Confined) :
    o'.Confined := by
  obtain ⟨spec, cwd, -, -⟩ := move.start
  exact ⟨by rw [spec, cwd]; exact h.below, by rw [spec]; exact h.mounts⟩

/-- Every step keeps the backend sound. -/
theorem Stepped.sound (step : Stepped site b b' e) (sound : b.Sound) : b'.Sound := by
  have objects : ∀ (k : Nat) (o : RunningOperation), b'.objects[k]? = some o →
      o.Fits ∧ o.Confined := by
    intro k o' there
    cases step.object_of there with
    | inl old =>
        obtain ⟨o, here, goes⟩ := old
        obtain ⟨fits, confined⟩ := sound.fits k o here
        cases goes with
        | inl same => exact same.1 ▸ ⟨fits, confined⟩
        | inr move => exact ⟨move.fits fits, move.confined confined⟩
    | inr started =>
        obtain ⟨new, confined, -⟩ := sound.free o' started.1
        exact ⟨new.fits, confined⟩
  have still : ∀ (k : Nat) (o : RunningOperation), b.objects[k]? = some o →
      ∃ o', b'.objects[k]? = some o' := by
    intro k o here
    obtain ⟨o', there, -⟩ := step.object here
    exact ⟨o', there⟩
  cases step with
  | asks absent placed eq =>
      subst eq
      refine ⟨objects, sound.known, fun o held => ?_⟩
      cases held
      obtain ⟨rfl, new, confined⟩ := place_eq_ok placed
      exact ⟨new, confined, sound.absent absent⟩
  | @starts o held objects' operations spawning =>
      refine ⟨objects, fun id k known => ?_, fun o held' => ?_⟩
      · rw [operations] at known
        by_cases same : id = o.spec.operationId
        · subst same
          rw [Function.update_self] at known
          cases known
          exact ⟨o, by rw [objects']; simp⟩
        · rw [Function.update_of_ne same] at known
          obtain ⟨o, here⟩ := sound.known id k known
          exact still k o here
      · rw [spawning] at held'
        cases held'
  | answers objects' operations spawning =>
      refine ⟨objects, by rw [objects', operations]; exact sound.known, fun o held => ?_⟩
      rw [operations]
      cases spawning with
      | inl same => exact sound.free o (same ▸ held)
      | inr gone =>
          rw [gone] at held
          cases held
  | @releases gone free eq =>
      subst eq
      refine ⟨objects, fun id k known => ?_, fun o held => ?_⟩
      · dsimp only at known
        by_cases same : id = gone
        · subst same
          rw [Function.update_self] at known
          cases known
        · rw [Function.update_of_ne same] at known
          exact sound.known id k known
      · rw [free] at held
        cases held
  | moves here move objects' operations spawning =>
      refine ⟨objects, fun id k known => ?_, ?_⟩
      · rw [operations] at known
        obtain ⟨o, here⟩ := sound.known id k known
        exact still k o here
      · rw [operations, spawning]
        exact sound.free

theorem sound_of_run {told : List Event} (run : (localProcesses site).Run {} told b) : b.Sound :=
  run.invariant (fun step => (next_stepped step).sound) .empty

end CodeForge.Execution
