import CodeForge.Persistence.Leases
import CodeForge.Persistence.Requests
import CodeForge.Persistence.Writes

/-!
# The files behind the references

A reference column of a row names a file, with its digest and its length.  The
file holds the value that was given to the call that set the column: its payload
was written before the row, and an object file is never written again.

It is never written again also where the first writer failed.  `respond_to_run`
and `transition_run` write to a path that is made from the identifiers of the
request and the run, so a call that is refused leaves its payload for the next
one to find.  `Op.Fits` asks that no call that goes through finds a payload other
than its own.  `Store.Intact` is what holds then, whatever else is called and
whatever fails on its way (`Reachable.intact`).

`Supplied` are the values that calls were given which went through.
-/

namespace CodeForge

open Lib StoreM

/-! ## Supplied values -/

/-- The values that were supplied for the bodies, by run and by pending response. -/
structure Supplied where
  input : Key → Option String := fun _ => none
  snapshot : Key → Option RunSnapshot := fun _ => none
  output : Key → Option String := fun _ => none
  response : String × String → Option String := fun _ => none

namespace Supplied

/-- A run was accepted. -/
def accept (v : Supplied) (k : Key) (input : String) (snapshot : RunSnapshot) : Supplied :=
  { v with
    input := Function.update v.input k (some input)
    snapshot := Function.update v.snapshot k (some snapshot) }

/-- A run was given an output, or none. -/
def conclude (v : Supplied) (k : Key) : Option String → Supplied
  | none => v
  | some text => { v with output := Function.update v.output k (some text) }

/-- A pending response was answered. -/
def answer (v : Supplied) (k : String × String) (text : String) : Supplied :=
  { v with response := Function.update v.response k (some text) }

@[simp] theorem conclude_output (v : Supplied) (k : Key) (text : String) :
    (v.conclude k (some text)).output = Function.update v.output k (some text) := rfl

@[simp] theorem answer_response (v : Supplied) (k : String × String) (text : String) :
    (v.answer k text).response = Function.update v.response k (some text) := rfl

end Supplied

/-- The pending response was answered before. -/
def Db.answered (db : Db) (scopeId pendingId : String) : Bool :=
  (db.pendings.getIn scopeId pendingId).any PendingRow.resolved

namespace Op

variable (d : Deployment) (s : Store)

/-- The supplied values after a call. -/
def supply (v : Supplied) : Op → Supplied
  | .acceptOnce request key fingerprint snapshot rejectIfActive =>
      match CodeForge.acceptOnce d request key fingerprint snapshot rejectIfActive s with
      | .ok run _ =>
          if run.reused then v
          else v.accept (request.context.scopeId, run.id) request.input snapshot
      | .error _ _ => v
  | .transitionRun scopeId runId version target args actorRef =>
      match CodeForge.transitionRun d scopeId runId version target args actorRef s with
      | .ok _ _ => v.conclude (scopeId, runId) args.output
      | .error _ _ => v
  | .respondToRun scopeId runId pendingId key version text actor =>
      match CodeForge.respondToRun d scopeId runId pendingId key version text actor s with
      | .ok _ _ =>
          if s.db.answered scopeId pendingId then v else v.answer (scopeId, pendingId) text
      | .error _ _ => v
  | _ => v

/-- A call that goes through finds no other payload than its own at the path it writes to, a
project is not moved to another user directory, and requests for the user's input are added
unanswered. -/
def Fits : Op → Prop
  | .createSession scopeId _ _ _ context =>
      ∀ b w, context.userBinding = some b → s.db.projectWorkspace scopeId b.projectRef = some w →
        w.userPath = b.userPath
  | .transitionRun scopeId runId version target args _ =>
      ∀ row after text, s.db.run scopeId runId = some row →
        transition row.state target version args.taskOutcome args.reason = .ok after →
          args.output = some text → ∀ b,
            s.files.lookup (s.db.baseForSession d row.sessionId,
              .message row.sessionId runId .assistant) = some b →
            b = messagePayload d row.sessionId runId .assistant text row.runSeq
  | .respondToRun scopeId runId pendingId key version text _ =>
      ∀ p row after, s.db.pendings.getIn scopeId pendingId = some p → p.runId = runId →
        s.db.run scopeId runId = some row → p.resolved = false →
          s.db.responseKeyTaken p key = false →
            transition row.state .queued version none none = .ok after → ∀ b,
              s.files.lookup (s.db.baseForSession d row.sessionId,
                .response row.sessionId pendingId) = some b →
              b = responsePayload text
  | .openPending p => p.responsePayload = none
  | _ => True

end Op

/-! ## Bodies that are as they were supplied -/

/-- The files of a run have the digests and lengths of its columns, and hold the values. -/
structure RunRefs.Intact (d : Deployment) (files : Files) (base : String) (runId : Uuid)
    (c : RunRefs) (input : String) (snapshot : RunSnapshot) (output : Option String) : Prop where
  inputFile : files.lookup (base, c.inputRef) =
    some (messagePayload d c.sessionId runId .user input c.runSeq)
  inputDigest : c.inputDigest =
    d.sha256 (messagePayload d c.sessionId runId .user input c.runSeq)
  inputChars : c.inputChars = input.length
  snapshotFile : files.lookup (base, c.configSnapshotRef) = some (snapshotPayload snapshot)
  snapshotDigest : c.configSnapshotDigest = d.sha256 (snapshotPayload snapshot)
  snapshotBytes : c.configSnapshotBytes = (snapshotPayload snapshot).length
  noOutput : output = none → c.outputRef = none ∧ c.outputDigest = none ∧ c.outputChars = none
  output : ∀ text, output = some text → ∃ ref, c.outputRef = some ref ∧
    files.lookup (base, ref) =
      some (messagePayload d c.sessionId runId .assistant text c.runSeq) ∧
    c.outputDigest = some (d.sha256 (messagePayload d c.sessionId runId .assistant text c.runSeq)) ∧
    c.outputChars = some text.length

/-- All references lead to the values that were supplied. -/
structure Store.Intact (d : Deployment) (s : Store) (v : Supplied) : Prop where
  run : ∀ k c, s.db.refs k = some c → ∃ input snapshot, v.input k = some input ∧
    v.snapshot k = some snapshot ∧
    c.Intact d s.files (s.db.bases d c.sessionId) k.2 input snapshot (v.output k)
  /-- An output is given to a run that is there. -/
  output : ∀ k, s.db.refs k = none → v.output k = none
  response : ∀ p ∈ s.db.pendings, ∀ o, p.responsePayload = some o →
    ∃ c text, s.db.refs (p.scopeId, p.runId) = some c ∧
      v.response (p.scopeId, p.id) = some text ∧ o = responseFile d c.sessionId p.id text ∧
      s.files.lookup (s.db.bases d c.sessionId, o.ref) = some (responsePayload text)

/-- One call that fits, or a fault, with the values it supplies. -/
inductive Supplies (d : Deployment) (π : Discipline) :
    Store × Supplied → Store × Supplied → Prop
  | call {s : Store} {v : Supplied} (op : Op) (obeys : op.Obeys π) (fits : op.Fits d s) :
      Supplies d π (s, v) (op.exec d s, op.supply d s v)
  | fault {s t : Store} {v : Supplied} (grown : s.Extends t) (rollback : t.db = s.db) :
      Supplies d π (s, v) (t, v)

theorem Supplies.step {d : Deployment} {π : Discipline} {a b : Store × Supplied}
    (h : Supplies d π a b) : Step d π a.1 b.1 := by
  cases h with
  | call op obeys fits => exact .call op obeys
  | fault grown rollback => exact .fault grown rollback

variable {d : Deployment} {π : Discipline} {s t : Store} {v : Supplied}

/-! ## What keeps them so -/

/-- Object files do not change. -/
theorem RunRefs.Intact.grow {f g : Files} (later : Files.Grows f g) {base : String} {runId : Uuid}
    {c : RunRefs} (filed : c.Filed runId) {input : String} {snapshot : RunSnapshot}
    {output : Option String} (h : c.Intact d f base runId input snapshot output) :
    c.Intact d g base runId input snapshot output where
  inputFile := later.objects _ _ (by rw [filed.input]; rfl) h.inputFile
  inputDigest := h.inputDigest
  inputChars := h.inputChars
  snapshotFile := later.objects _ _ (by rw [filed.configSnapshot]; rfl) h.snapshotFile
  snapshotDigest := h.snapshotDigest
  snapshotBytes := h.snapshotBytes
  noOutput := h.noOutput
  output text htext := by
    obtain ⟨ref, href, file, columns⟩ := h.output text htext
    exact ⟨ref, href, later.objects _ _ (by rw [filed.output ref href]; rfl) file, columns⟩

/-- Calls that set no column that refers to a body. -/
theorem Store.Intact.frame (h : s.Intact d v) (filed : s.db.Filed)
    (later : Files.Grows s.files t.files) (refs : t.db.refs = s.db.refs)
    (pendings : ∀ p ∈ t.db.pendings, p ∈ s.db.pendings ∨ p.responsePayload = none)
    (bases : ∀ k c, s.db.refs k = some c →
      t.db.bases d c.sessionId = s.db.bases d c.sessionId) : t.Intact d v where
  run k c hk := by
    rw [refs] at hk
    obtain ⟨input, snapshot, hinput, hsnapshot, intact⟩ := h.run k c hk
    rw [bases k c hk]
    exact ⟨input, snapshot, hinput, hsnapshot, intact.grow later (filed k c hk)⟩
  output k hk := by
    rw [refs] at hk
    exact h.output k hk
  response p hp o ho := by
    rcases pendings p hp with old | none_
    · obtain ⟨c, text, hc, htext, rfl, file⟩ := h.response p old o ho
      refine ⟨c, text, by rw [refs, hc], htext, rfl, ?_⟩
      rw [bases _ c hc]
      exact later.objects _ _ rfl file
    · rw [ho] at none_
      cases none_

/-- An accepted run finds no file of its own. -/
theorem Store.Intact.acceptOnce (h : s.Intact d v) (filed : s.db.Filed)
    (names : Files.NamesDrawn s.files s.drawn) {request : RunRequest}
    {idempotencyKey fingerprint : String} {snapshot : RunSnapshot} {rejectIfActive : Bool}
    {run : AcceptedRun} (later : Files.Grows s.files t.files)
    (ended : acceptOnce d request idempotencyKey fingerprint snapshot rejectIfActive s =
      .ok run t) :
    t.Intact d (if run.reused then v
      else v.accept (request.context.scopeId, run.id) request.input snapshot) := by
  obtain ⟨pendings, bases, ⟨reused, refs, -⟩ | ⟨new, id, fresh, runSeq, refs, objects⟩⟩ :=
    acceptOnce_writes ended
  · rw [reused]
    refine h.frame filed later refs (fun p hp => .inl ?_) fun k c _ => congrFun bases _
    rw [← pendings]
    exact hp
  · rw [new, id, if_neg Bool.false_ne_true]
    have input : t.files.lookup
        (s.db.bases d request.sessionId, .message request.sessionId ⟨s.drawn⟩ .user) =
          some (messagePayload d request.sessionId ⟨s.drawn⟩ .user request.input runSeq) := by
      rw [objects _ rfl, Files.withRun, Files.writeObject_lookup_ne _ _ (by simp),
        Files.writeObject_new]
      exact names.lookup_none rfl (Nat.le_refl _)
    have stored : t.files.lookup
        (s.db.bases d request.sessionId, .snapshot request.sessionId ⟨s.drawn⟩) =
          some (snapshotPayload snapshot) := by
      rw [objects _ rfl, Files.withRun, Files.writeObject_new]
      rw [Files.writeObject_lookup_ne _ _ (by simp)]
      exact names.lookup_none rfl (Nat.le_refl _)
    constructor
    · intro k c hk
      rw [refs, Function.update_apply] at hk
      split at hk
      next hkey =>
        subst hkey
        cases hk
        refine ⟨request.input, snapshot, Function.update_self _ _ _, Function.update_self _ _ _, ?_⟩
        rw [bases]
        exact
          { inputFile := input
            inputDigest := rfl
            inputChars := rfl
            snapshotFile := stored
            snapshotDigest := rfl
            snapshotBytes := rfl
            noOutput := fun _ => ⟨rfl, rfl, rfl⟩
            output := fun text htext => by
              have none_ := h.output (request.context.scopeId, ⟨s.drawn⟩) (fresh _)
              have given : v.output (request.context.scopeId, ⟨s.drawn⟩) = some text := htext
              rw [none_] at given
              cases given }
      next hne =>
        obtain ⟨i, sn, hi, hsn, intact⟩ := h.run k c hk
        rw [bases]
        refine ⟨i, sn, ?_, ?_, intact.grow later (filed k c hk)⟩
        · exact (Function.update_of_ne hne _ _).trans hi
        · exact (Function.update_of_ne hne _ _).trans hsn
    · intro k hk
      rw [refs, Function.update_apply] at hk
      split at hk
      · cases hk
      · exact h.output k hk
    · intro p hp o ho
      rw [pendings] at hp
      obtain ⟨c, text, hc, htext, rfl, file⟩ := h.response p hp o ho
      refine ⟨c, text, ?_, htext, rfl, ?_⟩
      · rw [refs, Function.update_of_ne, hc]
        intro hkey
        rw [hkey, fresh] at hc
        cases hc
      · rw [bases]
        exact later.objects _ _ rfl file

/-- A change of status sets the output to what was written, or leaves it. -/
theorem Store.Intact.transitionRun (h : s.Intact d v) (filed : s.db.Filed) {scopeId : String}
    {runId : Uuid} {version : Nat} {target : RunStatus} {args : TransitionArgs}
    {actorRef : Option String} {o : Option RunRow} (later : Files.Grows s.files t.files)
    (fits : (Op.transitionRun scopeId runId version target args actorRef).Fits d s)
    (ended : transitionRun d scopeId runId version target args actorRef s = .ok o t) :
    t.Intact d (v.conclude (scopeId, runId) args.output) := by
  obtain ⟨row, after, _, run, change, -⟩ := transitionRun_spec ended
  obtain ⟨row', run', refs, pendings, bases, objects⟩ := transitionRun_writes ended
  cases run.symm.trans run'
  have known : s.db.refs (scopeId, runId) = some row.refs := Table.view_of_getIn run _
  cases houtput : args.output with
  | none =>
      rw [houtput] at refs
      refine h.frame filed later ?_ (fun p hp => .inl ?_) fun k c _ => congrFun bases _
      · rw [refs]
        exact (Function.update_eq_self_iff.2 known.symm)
      · rw [← pendings]
        exact hp
  | some text =>
      rw [houtput] at refs objects
      have written : t.files.lookup
          (s.db.bases d row.sessionId, .message row.sessionId runId .assistant) =
            some (messagePayload d row.sessionId runId .assistant text row.runSeq) := by
        rw [objects _ rfl]
        exact Files.writeObject_own _ (fits row after text run change houtput)
      constructor
      · intro k c hk
        rw [refs, Function.update_apply] at hk
        split at hk
        next hkey =>
          subst hkey
          cases hk
          obtain ⟨input, snapshot, hinput, hsnapshot, intact⟩ := h.run _ _ known
          have kept := intact.grow later (filed _ _ known)
          refine ⟨input, snapshot, hinput, hsnapshot, ?_⟩
          rw [bases]
          exact
            { inputFile := kept.inputFile
              inputDigest := kept.inputDigest
              inputChars := kept.inputChars
              snapshotFile := kept.snapshotFile
              snapshotDigest := kept.snapshotDigest
              snapshotBytes := kept.snapshotBytes
              noOutput := fun none_ => by
                rw [Supplied.conclude_output, Function.update_self] at none_
                cases none_
              output := fun text' htext' => by
                rw [Supplied.conclude_output, Function.update_self] at htext'
                cases htext'
                exact ⟨_, rfl, written, rfl, rfl⟩ }
        next hne =>
          obtain ⟨input, snapshot, hinput, hsnapshot, intact⟩ := h.run k c hk
          refine ⟨input, snapshot, hinput, hsnapshot, ?_⟩
          rw [bases, Supplied.conclude_output, Function.update_of_ne hne]
          exact intact.grow later (filed k c hk)
      · intro k hk
        rw [refs, Function.update_apply] at hk
        split at hk
        · cases hk
        next hne =>
          rw [Supplied.conclude_output, Function.update_of_ne hne]
          exact h.output k hk
      · intro p hp o ho
        rw [pendings] at hp
        obtain ⟨c, answer, hc, hanswer, rfl, file⟩ := h.response p hp o ho
        have file' := later.objects _ _ rfl file
        by_cases hkey : (p.scopeId, p.runId) = (scopeId, runId)
        · rw [hkey, known] at hc
          cases hc
          refine ⟨row.refs.withOutput d runId (some text), answer, ?_, hanswer, rfl, ?_⟩
          · rw [refs, hkey, Function.update_self]
          · rw [bases]
            exact file'
        · refine ⟨c, answer, ?_, hanswer, rfl, ?_⟩
          · rw [refs, Function.update_of_ne hkey, hc]
          · rw [bases]
            exact file'

/-- An answer sets the response to what was written, or was given before. -/
theorem Store.Intact.respondToRun (h : s.Intact d v) (filed : s.db.Filed) {scopeId : String}
    {runId : Uuid} {pendingId key : String} {version : Nat} {text actor : String}
    {o : Option RunRow} (later : Files.Grows s.files t.files)
    (fits : (Op.respondToRun scopeId runId pendingId key version text actor).Fits d s)
    (ended : respondToRun d scopeId runId pendingId key version text actor s = .ok o t) :
    t.Intact d (if s.db.answered scopeId pendingId then v
      else v.answer (scopeId, pendingId) text) := by
  obtain ⟨refs, bases, p, row, found, ofRun, run,
    ⟨resolved, rfl⟩ | ⟨unresolved, free, ⟨after, change⟩, -, ⟨_, _, pendings⟩, objects⟩⟩ :=
    respondToRun_writes ended
  · have answered : t.db.answered scopeId pendingId = true := by
      simp [Db.answered, found, resolved]
    rw [answered, if_pos rfl]
    exact h
  · have open_ : s.db.answered scopeId pendingId = false := by
      simp [Db.answered, found, unresolved]
    rw [open_, if_neg Bool.false_ne_true]
    have known : s.db.refs (scopeId, runId) = some row.refs := Table.view_of_getIn run _
    have written : t.files.lookup
        (s.db.bases d row.sessionId, .response row.sessionId pendingId) =
          some (responsePayload text) := by
      rw [objects _ rfl]
      exact Files.writeObject_own _ (fits p row after found ofRun run unresolved free change)
    constructor
    · intro k c hk
      rw [refs] at hk
      obtain ⟨input, snapshot, hinput, hsnapshot, intact⟩ := h.run k c hk
      rw [bases]
      exact ⟨input, snapshot, hinput, hsnapshot, intact.grow later (filed k c hk)⟩
    · intro k hk
      rw [refs] at hk
      exact h.output k hk
    · intro q hq o ho
      rw [pendings, Table.updateIn, Table.mem_updateWhere] at hq
      obtain ⟨q', hq', rfl⟩ := hq
      by_cases chosen : rowScope q' = scopeId ∧ rowKey q' = pendingId
      · have here : s.db.pendings.getIn scopeId pendingId = some q' :=
          Table.getIn_eq_some.2 ⟨hq', chosen⟩
        cases found.symm.trans here
        rw [if_pos (by simpa using chosen)] at ho ⊢
        cases ho
        refine ⟨row.refs, text, ?_, ?_, ?_, ?_⟩
        · rw [refs]
          exact (congrArg _ (Prod.ext chosen.1 ofRun)).trans known
        · exact (congrArg _ (Prod.ext chosen.1 chosen.2)).trans (Function.update_self _ _ _)
        · exact (congrArg (responseFile d row.sessionId · text) chosen.2.symm)
        · rw [bases]
          exact written
      · rw [if_neg (by simpa using chosen)] at ho ⊢
        obtain ⟨c, given, hc, hgiven, rfl, file⟩ := h.response q' hq' o ho
        refine ⟨c, given, by rw [refs, hc], ?_, rfl, ?_⟩
        · rw [Supplied.answer_response, Function.update_of_ne]
          · exact hgiven
          · exact fun e => chosen (Prod.mk.inj e)
        · rw [bases]
          exact later.objects _ _ rfl file

/-! ## Calls -/

/-- The session of every run has its workspace. -/
theorem Reachable.sited (h : Reachable d π s) {k : Key} {c : RunRefs}
    (hk : s.db.refs k = some c) : ∃ ss path, s.db.sessions.get? c.sessionId = some ss ∧
      s.db.workspaces.view WorkspaceRow.userPath (ss.scopeId, ss.workspaceId) = some path := by
  obtain ⟨row, hrow, rfl, rfl⟩ := Table.view_eq_some.1 hk
  obtain ⟨kk, hqueue⟩ := (Reachable.grounded h).job _ _ (Table.view_of_mem hrow RunRow.lease)
  obtain ⟨w, hw⟩ := (Reachable.grounded h).queue _ _ hqueue
  obtain ⟨ss, hss, hkey, rfl⟩ := Table.view_eq_some.1 hqueue
  obtain ⟨workspace, hworkspace, hplace, -⟩ := Table.view_eq_some.1 hw
  refine ⟨ss, workspace.userPath, ?_, ?_⟩
  · exact Table.get?_eq_some.2 ⟨hss, (Prod.mk.inj hkey).2⟩
  · exact Table.view_eq_some.2 ⟨workspace, hworkspace, hplace, rfl⟩

/-- The tables were rolled back. -/
theorem Store.Intact.rolledBack (h : s.Intact d v) (filed : s.db.Filed)
    (later : Files.Grows s.files t.files) (rollback : t.db = s.db) : t.Intact d v := by
  refine h.frame filed later ?_ (fun p hp => .inl ?_) fun k c _ => ?_
  · rw [rollback]
  · rw [← rollback]
    exact hp
  · rw [rollback]

/-- Calls that touch neither references nor directories. -/
theorem Store.Intact.keeps {α : Type} {x : StoreM α} (h : s.Intact d v) (filed : s.db.Filed)
    (bodies : Keeps Db.bodies x) (bases : Keeps (Db.bases d) x)
    (later : Files.Grows s.files (finalState x s).files) : (finalState x s).Intact d v := by
  refine h.frame filed later (congrArg Prod.fst (bodies s)) (fun p hp => .inl ?_)
    fun k c _ => congrFun (bases s) _
  rw [← show (finalState x s).db.pendings = s.db.pendings from congrArg Prod.snd (bodies s)]
  exact hp

/-- One call that fits keeps what is there, and adds what it was given. -/
theorem Store.Intact.call (h : s.Intact d v) (reachable : Reachable d π s) {op : Op}
    (fits : op.Fits d s) : (op.exec d s).Intact d (op.supply d s v) := by
  have filed := reachable.filed
  have later := (op.exec_extends d s).files
  cases op with
  | createSession scopeId key title externalRef context =>
      have bodies := createSession_keeps (d := d) scopeId key title externalRef context s
      refine h.frame filed later (congrArg Prod.fst bodies) (fun p hp => .inl ?_)
        fun k c hk => ?_
      · rw [← show _ = s.db.pendings from congrArg Prod.snd bodies]
        exact hp
      · obtain ⟨ss, path, session, workspace⟩ := reachable.sited hk
        change (finalState (createSession d scopeId key title externalRef context) s).db.bases d _
          = _
        cases ended : createSession d scopeId key title externalRef context s with
        | ok view t =>
            rw [finalState_of_ok ended]
            exact createSession_bases ended fits session workspace
        | error e t =>
            rw [finalState_of_error ended, createSession_error_db ended]
  | acceptOnce request key fingerprint snapshot rejectIfActive =>
      dsimp only [Op.exec, Op.supply] at later ⊢
      cases ended : CodeForge.acceptOnce d request key fingerprint snapshot rejectIfActive s with
      | ok run t =>
          rw [finalState_of_ok ended] at later ⊢
          exact h.acceptOnce filed reachable.names later ended
      | error e t =>
          rw [finalState_of_error ended] at later ⊢
          exact h.rolledBack filed later (acceptOnce_error_db ended)
  | claimNextRun scopeId workerId nowIso leaseUntil =>
      exact h.keeps filed (claimNextRun_keeps Db.Apart.bodies.toAside _ _ _ _)
        (claimNextRun_keeps (Db.Apart.bases d).toAside _ _ _ _) later
  | transitionRun scopeId runId version target args actorRef =>
      dsimp only [Op.exec, Op.supply] at later ⊢
      cases ended : CodeForge.transitionRun d scopeId runId version target args actorRef s with
      | ok o t =>
          rw [finalState_of_ok ended] at later ⊢
          exact h.transitionRun filed later fits ended
      | error e t =>
          rw [finalState_of_error ended] at later ⊢
          exact h.rolledBack filed later (transitionRun_error_db ended)
  | cancelRun scopeId runId actorRef =>
      exact h.keeps filed (cancelRun_keeps Db.Apart.bodies.toAside Db.bodies_moveRun_plain _ _ _)
        (cancelRun_keeps (Db.Apart.bases d).toAside (fun _ _ _ _ _ _ _ => rfl) _ _ _) later
  | respondToRun scopeId runId pendingId key version text actor =>
      dsimp only [Op.exec, Op.supply] at later ⊢
      cases ended : CodeForge.respondToRun d scopeId runId pendingId key version text actor s with
      | ok o t =>
          rw [finalState_of_ok ended] at later ⊢
          exact h.respondToRun filed later fits ended
      | error e t =>
          rw [finalState_of_error ended] at later ⊢
          exact h.rolledBack filed later (respondToRun_error_db ended)
  | recordWorkspaceRevision scopeId workspaceId attemptId epoch commit actor =>
      exact h.keeps filed (recordWorkspaceRevision_keeps (fun _ _ _ _ _ _ _ => rfl) _ _ _ _ _ _)
        (recordWorkspaceRevision_keeps Db.bases_revise _ _ _ _ _ _) later
  | appendEvent scopeId runId type data actor =>
      exact h.keeps filed (appendEvent_keeps Db.Apart.bodies.toAside _ _ _ _ _)
        (appendEvent_keeps (Db.Apart.bases d).toAside _ _ _ _ _) later
  | prepareTool call actor =>
      exact h.keeps filed (prepareTool_keeps .bodies _ _) (prepareTool_keeps (.bases d) _ _) later
  | startTool scopeId id actor =>
      exact h.keeps filed (startTool_keeps .bodies _ _ _) (startTool_keeps (.bases d) _ _ _) later
  | appendToolOutput scopeId id stream text truncated actor =>
      exact h.keeps filed (appendToolOutput_keeps .bodies _ _ _ _ _ _)
        (appendToolOutput_keeps (.bases d) _ _ _ _ _ _) later
  | finishTool scopeId id status resultRef error actor revision =>
      exact h.keeps filed (finishTool_keeps .bodies _ _ _ _ _ _ _)
        (finishTool_keeps (.bases d) _ _ _ _ _ _ _) later
  | openPending p =>
      dsimp only [Op.exec, Op.supply] at later ⊢
      cases ended : CodeForge.openPending p s with
      | ok u t =>
          rw [finalState_of_ok ended] at later ⊢
          obtain ⟨pendings, insert, rfl⟩ := openPending_eq_ok ended
          refine h.frame filed later rfl (fun q hq => ?_) fun k c _ => rfl
          rcases (Table.mem_insert? insert).1 hq with old | rfl
          · exact .inl old
          · exact .inr fits
      | error e t =>
          rw [finalState_of_error ended] at later ⊢
          exact h.rolledBack filed later (transaction_error_db ended)

/-- A step that fits does. -/
theorem Supplies.keeps {a b : Store × Supplied} (st : Supplies d π a b)
    (reachable : Reachable d π a.1) (h : a.1.Intact d a.2) : b.1.Intact d b.2 := by
  cases st with
  | call op obeys fits => exact h.call reachable fits
  | fault grown rollback => exact h.rolledBack reachable.filed grown.files rollback

/-- So does a run of them. -/
theorem Supplies.run {a b : Store × Supplied} (steps : Relation.ReflTransGen (Supplies d π) a b)
    (reachable : Reachable d π a.1) (h : a.1.Intact d a.2) :
    Reachable d π b.1 ∧ b.1.Intact d b.2 := by
  induction steps with
  | refl => exact ⟨reachable, h⟩
  | tail _ st ih => exact ⟨ih.1.tail st.step, st.keeps ih.1 ih.2⟩

/-- Each call of a series fits where it is made. -/
def Op.AllFit (d : Deployment) : List Op → Store → Prop
  | [], _ => True
  | op :: ops, s => op.Fits d s ∧ Op.AllFit d ops (op.exec d s)

/-- The supplied values after a series of calls. -/
def Op.supplyAll (d : Deployment) : List Op → Store → Supplied → Supplied
  | [], _, v => v
  | op :: ops, s, v => Op.supplyAll d ops (op.exec d s) (op.supply d s v)

theorem Op.AllFit.append {ops more : List Op} (h : Op.AllFit d ops s)
    (rest : Op.AllFit d more (Op.execAll d ops s)) : Op.AllFit d (ops ++ more) s := by
  induction ops generalizing s with
  | nil => exact rest
  | cons op ops ih => exact ⟨h.1, ih h.2 rest⟩

theorem Supplies.execAll {ops : List Op} (obeys : ∀ op ∈ ops, op.Obeys π)
    (fit : Op.AllFit d ops s) :
    Relation.ReflTransGen (Supplies d π) (s, v)
      (Op.execAll d ops s, Op.supplyAll d ops s v) := by
  induction ops generalizing s v with
  | nil => exact .refl
  | cons op ops ih =>
      exact .head (.call op (obeys op (by simp)) fit.1)
        (ih (fun op' hop => obeys op' (by simp [hop])) fit.2)

/-- The empty store refers to nothing. -/
theorem Store.Intact.initial : ({} : Store).Intact d {} where
  run := by rintro k c ⟨⟩
  output _ _ := rfl
  response p hp := absurd hp (Table.not_mem_empty p)

/-- References lead to the values that were supplied, whatever else is called and whatever fails,
as long as each call that goes through finds no other payload than its own. -/
theorem Reachable.intact {w : Supplied} (reachable : Reachable d π s) (h : s.Intact d v)
    (steps : Relation.ReflTransGen (Supplies d π) (s, v) (t, w)) : t.Intact d w :=
  (Supplies.run steps reachable h).2

/-- A message is found as it was sent. -/
theorem Reachable.intact_firstSend :
    ∃ w, (Op.execAll .plain Op.firstSend {}).Intact .plain w := by
  have fit : Op.AllFit .plain Op.firstSend {} := ⟨by rintro b w - ⟨⟩, trivial, trivial⟩
  have steps := Supplies.execAll (d := .plain) (π := {}) (v := {})
    (fun op _ => op.obeys_default) fit
  exact ⟨_, Reachable.intact .refl .initial steps⟩

/-- An answer that finds another payload at its path is not what its row says. -/
theorem respondToRun_breaks {scopeId : String} {runId : Uuid} {pendingId key : String}
    {version : Nat} {text actor : String} {o : Option RunRow} {row : RunRow} {b : List UInt8}
    (ended : respondToRun d scopeId runId pendingId key version text actor s = .ok o t)
    (open_ : s.db.answered scopeId pendingId = false)
    (run : s.db.run scopeId runId = some row)
    (found : s.files.lookup (s.db.bases d row.sessionId, .response row.sessionId pendingId) =
      some b) (other : d.sha256 b ≠ d.sha256 (responsePayload text)) : ¬ t.Intact d v := by
  intro intact
  obtain ⟨refs, bases, p, row', hp, ofRun, run', h⟩ := respondToRun_writes ended
  cases run.symm.trans run'
  rcases h with ⟨resolved, -⟩ | ⟨-, -, -, -, ⟨resolvedAt, updated, pendings⟩, objects⟩
  · rw [Db.answered, hp, Option.any_some, resolved] at open_
    cases open_
  obtain ⟨-, hscope, hid⟩ := Table.getIn_eq_some.1 hp
  have answered := Table.getIn_updateIn_of hp (fun q => q.resolve key (answerDigest d text)
    (responseFile d row.sessionId pendingId text) resolvedAt updated actor) (by intro q; rfl)
  rw [← pendings] at answered
  obtain ⟨c, text', hc, -, file, lookup⟩ :=
    intact.response _ (Table.getIn_eq_some.1 answered).1 _ rfl
  have known : t.db.refs (scopeId, runId) = some row.refs := by
    rw [refs]
    exact Table.view_of_getIn run _
  have digest : d.sha256 (responsePayload text) = d.sha256 (responsePayload text') :=
    congrArg ObjectRef.digest file
  have same : t.files.lookup
      (s.db.bases d row.sessionId, .response row.sessionId pendingId) = some b := by
    rw [objects _ rfl, Files.withResponse]
    simp only [Files.writeObject, found]
  rw [bases] at lookup
  have place : c.sessionId = row.sessionId := by
    have key' : t.db.refs (p.scopeId, p.runId) = some c := hc
    rw [show p.scopeId = scopeId from hscope, ofRun, known] at key'
    exact (congrArg RunRefs.sessionId (Option.some.inj key')).symm
  rw [place] at lookup
  cases same.symm.trans lookup
  exact other digest.symm

/-- A request to the first run. -/
def PendingRow.first : PendingRow where
  id := "q"
  scopeId := "ada"
  runId := ⟨2⟩
  kind := "question"
  payloadRef := "sessions/s/pending/q-payload.json"
  payloadDigest := "44136fa355b3678a1146ad16f7e8649e94fb4fc21fe77e8310c060f61caaff8a"
  payloadBytes := 2
  responseKey := none
  responseDigest := none
  responsePayload := none
  resolvedAt := none
  audit := .insert "2026-01-01T00:01:00Z" "system:runtime/worker"

/-- The first run asks. -/
def Op.asked : List Op :=
  Op.firstSend ++ [.claimAny] ++
    [.transitionRun "ada" ⟨2⟩ 1 .waitingUser { reason := some "question" } none] ++
      [.openPending .first]

/-- It is answered too late, and then anew with another text. -/
def Op.answeredTwice : List Op :=
  Op.asked ++ [.respondToRun "ada" ⟨2⟩ "q" "k" 1 "a" "user:ada"] ++
    [.respondToRun "ada" ⟨2⟩ "q" "k" 2 "b" "user:ada"]

theorem Op.execAll_concat {ops : List Op} {op : Op} :
    Op.execAll d (ops ++ [op]) s = op.exec d (Op.execAll d ops s) := by
  simp [Op.execAll]

/-- No answer was written before. -/
theorem Op.asked_unwritten : (Op.execAll .plain Op.asked {}).files.lookup
    ("/srv/ada", .response ⟨0⟩ "q") = none := by
  have sent : (Op.execAll .plain Op.firstSend {}).files.lookup
      ("/srv/ada", .response ⟨0⟩ "q") = none := by decide +kernel
  have claims : Ends (CodeForge.claimNextRun .plain none "w1" "2026-01-01T00:01:00Z" "2026-01-01T00:02:00Z")
      (Op.execAll .plain Op.firstSend {}) := by decide +kernel
  have waits : Ends (CodeForge.transitionRun .plain "ada" ⟨2⟩ 1 .waitingUser
      { reason := some "question" } none)
      (Op.execAll .plain (Op.firstSend ++ [.claimAny]) {}) := by decide +kernel
  have asks : Ends (CodeForge.openPending .first)
      (Op.execAll .plain (Op.firstSend ++ [.claimAny] ++ [.transitionRun "ada" ⟨2⟩ 1 .waitingUser
        { reason := some "question" } none]) {}) := by decide +kernel
  rw [Op.execAll_concat] at waits
  rw [Op.execAll_concat, Op.execAll_concat] at asks
  rw [Op.asked, Op.execAll_concat, Op.execAll_concat, Op.execAll_concat]
  generalize Op.execAll .plain Op.firstSend {} = s at sent claims waits asks ⊢
  obtain ⟨o, t, claimed⟩ := claims
  have claim : Op.claimAny.exec .plain s = t := finalState_of_ok claimed
  rw [claim] at waits asks ⊢
  obtain ⟨r, u, waited⟩ := waits
  have wait : (Op.transitionRun "ada" ⟨2⟩ 1 .waitingUser { reason := some "question" }
      none).exec .plain t = u := finalState_of_ok waited
  rw [wait] at asks ⊢
  obtain ⟨a, w, asked⟩ := asks
  have ask : (Op.openPending .first).exec .plain u = w := finalState_of_ok asked
  obtain ⟨_, -, -, -, -, objects⟩ := transitionRun_writes waited
  obtain ⟨pendings, -, rfl⟩ := openPending_eq_ok asked
  rw [ask, ← sent, ← claimNextRun_sameObjects claimed _ rfl]
  exact objects _ rfl

/-- An answer that is refused stands in the way of the next one. -/
theorem respondToRun_late {row : RunRow}
    (found : s.db.pendings.getIn "ada" "q" = some .first)
    (known : s.db.run "ada" ⟨2⟩ = some row) (late : row.stateVersion ≠ 1)
    (free : s.db.responseKeyTaken .first "k" = false)
    (unwritten : s.files.lookup (s.db.bases d row.sessionId, .response row.sessionId "q") = none)
    (answers : Ends (respondToRun d "ada" ⟨2⟩ "q" "k" 2 "b" "user:ada")
      ((Op.respondToRun "ada" ⟨2⟩ "q" "k" 1 "a" "user:ada").exec d s))
    (other : d.sha256 (responsePayload "a") ≠ d.sha256 (responsePayload "b")) :
    ¬ ((Op.respondToRun "ada" ⟨2⟩ "q" "k" 2 "b" "user:ada").exec d
      ((Op.respondToRun "ada" ⟨2⟩ "q" "k" 1 "a" "user:ada").exec d s)).Intact d v := by
  have stale := respondToRun_stale (d := d) found rfl known rfl free late "a" "user:ada"
  have refused : (Op.respondToRun "ada" ⟨2⟩ "q" "k" 1 "a" "user:ada").exec d s = _ :=
    finalState_of_error stale
  rw [refused] at answers ⊢
  obtain ⟨o, t, ended⟩ := answers
  have answered : (Op.respondToRun "ada" ⟨2⟩ "q" "k" 2 "b" "user:ada").exec d _ = t :=
    finalState_of_ok ended
  rw [answered]
  refine respondToRun_breaks (b := responsePayload "a") ended ?_ known ?_ other
  · rw [Db.answered, found]
    rfl
  · exact Files.writeObject_new d.sha256 _ unwritten

/-- The refused answer stands where the second one is said to be. -/
theorem respondToRun_answeredTwice :
    Reachable .plain {} (Op.execAll .plain Op.answeredTwice {}) ∧
      ∀ v, ¬ (Op.execAll .plain Op.answeredTwice {}).Intact .plain v := by
  have reachable : Reachable .plain {} (Op.execAll .plain Op.answeredTwice {}) :=
    .execAll fun op _ => op.obeys_default
  have found : (Op.execAll .plain Op.asked {}).db.pendings.getIn "ada" "q" = some .first := by
    decide +kernel
  have run : ((Op.execAll .plain Op.asked {}).db.run "ada" ⟨2⟩).map
      (fun r => (r.sessionId, r.stateVersion)) = some (⟨0⟩, 2) := by decide +kernel
  have free : (Op.execAll .plain Op.asked {}).db.responseKeyTaken .first "k" = false := by
    decide +kernel
  have base : (Op.execAll .plain Op.asked {}).db.bases .plain ⟨0⟩ = "/srv/ada" := by
    decide +kernel
  have answers : Ends (respondToRun .plain "ada" ⟨2⟩ "q" "k" 2 "b" "user:ada")
      (Op.execAll .plain (Op.asked ++ [.respondToRun "ada" ⟨2⟩ "q" "k" 1 "a" "user:ada"]) {}) := by
    decide +kernel
  have other : Deployment.plain.sha256 (responsePayload "a") ≠
      Deployment.plain.sha256 (responsePayload "b") := by decide +kernel
  obtain ⟨row, known, hrow⟩ := Option.map_eq_some_iff.1 run
  obtain ⟨place, version⟩ := Prod.mk.inj hrow
  have late : row.stateVersion ≠ 1 := by
    rw [version]
    decide
  have unwritten := Op.asked_unwritten
  rw [← base, ← place] at unwritten
  rw [Op.execAll_concat] at answers
  refine ⟨reachable, fun v => ?_⟩
  rw [Op.answeredTwice, Op.execAll_concat, Op.execAll_concat]
  exact respondToRun_late found known late free unwritten answers other

end CodeForge
