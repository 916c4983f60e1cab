import CodeForge.Persistence.Answers
import CodeForge.Persistence.Cancellation

/-!
# Offered requests

`get_pending_reply` offers the last open request of a session, and the reply goes to its run with
the version the run has.  It is taken as long as the run waits for the user.

The query does not look at the run, and a run may leave that status by other ways than a reply: it
is cancelled, or moved by `transition_run`.  Its request stays open and is offered on, to be
answered by an error.  `Op.Minds` asks that no such call concerns a run with an open request, and
then every request that is offered can be answered (`Offering.answerable`).
-/

namespace CodeForge

open Lib StoreM

variable {A : Access} {d : Deployment} {π : Discipline} {s t : Store} {scopeId : String}
  {runId : Uuid}

/-! ## Open requests -/

/-- `p.resolved_at IS NULL` -/
def PendingRow.isOpen (p : PendingRow) : Bool := p.resolvedAt.isNone

theorem PendingRow.resolved_of_isOpen {p : PendingRow} (h : p.isOpen = true) :
    p.resolved = false := by
  rw [PendingRow.isOpen, Option.isNone_iff_eq_none] at h
  rw [PendingRow.resolved, h]

/-- What is offered is an open request of a run of the session. -/
theorem Db.pendingReply_eq_some {db : Db} {sessionId : Uuid} {reply : PendingReply}
    (h : db.pendingReply sessionId = some reply) :
    ∃ p ∈ db.pendings, ∃ r, reply.pendingId = p.id ∧ reply.messageId = p.runId ∧
      p.isOpen = true ∧ db.run p.scopeId p.runId = some r ∧ r.sessionId = sessionId := by
  obtain ⟨⟨r, p⟩, chosen, rfl⟩ := Option.map_eq_some_iff.1 h
  have mem := List.mem_of_head? chosen
  rw [List.mem_insertionSort, List.mem_filterMap] at mem
  obtain ⟨q, hq, h⟩ := mem
  obtain ⟨r', run, h⟩ := Option.bind_eq_some_iff.1 h
  split at h
  next own =>
    cases h
    exact ⟨p, hq, r, rfl, rfl, by rw [PendingRow.isOpen, own.2]; rfl, run, own.1⟩
  next => cases h

/-! ## Minding open requests -/

/-- The key `_reply` answers with. -/
def replyKey (pendingId : String) : String := "platform:" ++ pendingId

theorem replyKey_injective : Function.Injective replyKey := by
  intro a b h
  have chars := congrArg String.toList h
  rw [replyKey, replyKey, String.toList_append, String.toList_append] at chars
  exact String.toList_inj.1 (List.append_cancel_left chars)

/-- No request of the run is open. -/
def Db.Settled (db : Db) (scopeId : String) (runId : Uuid) : Prop :=
  ∀ p ∈ db.pendings, p.scopeId = scopeId → p.runId = runId → p.isOpen = false

/-- A request is added, open, to a run that waits for the user and has no other one open.  It is
answered by replies. -/
def Op.Asks (s : Store) : Op → Prop
  | .openPending p => p.resolvedAt = none ∧ p.responseKey = none ∧
      (∀ r, s.db.run p.scopeId p.runId = some r → r.status = .waitingUser) ∧
      s.db.Settled p.scopeId p.runId
  | .respondToRun _ _ pendingId key _ _ _ => key = replyKey pendingId
  | _ => True

/-- No other call moves a run with an open request. -/
def Op.Minds (s : Store) : Op → Prop
  | .transitionRun scopeId runId version target args _ =>
      ∀ row after, s.db.run scopeId runId = some row →
        transition row.state target version args.taskOutcome args.reason = .ok after →
          s.db.Settled scopeId runId
  | .cancelRun scopeId runId _ => s.db.Settled scopeId runId
  | _ => True

/-- A call that asks as it should, of a caller who minds something, or a fault. -/
inductive Offering (d : Deployment) (minds : Store → Op → Prop) : Store → Store → Prop
  | call {s : Store} (op : Op) (asks : op.Asks s) (careful : minds s op) :
      Offering d minds s (op.exec d s)
  | fault {s t : Store} (grown : s.Extends t) (rollback : t.db = s.db) : Offering d minds s t

/-- Callers who mind nothing else. -/
abbrev Careless : Store → Op → Prop := fun _ _ => True

/-- Callers who mind open requests. -/
abbrev Careful : Store → Op → Prop := fun s op => op.Minds s

theorem Offering.step {minds : Store → Op → Prop} (h : Offering d minds s t) : Step d {} s t := by
  cases h with
  | call op asks careful => exact .call op op.obeys_default
  | fault grown rollback => exact .fault grown rollback

theorem Offering.careless {minds : Store → Op → Prop} (h : Offering d minds s t) :
    Offering d Careless s t := by
  cases h with
  | call op asks careful => exact .call op asks trivial
  | fault grown rollback => exact .fault grown rollback

/-! ## Runs that wait -/

theorem Db.statuses_eq (db : Db) (k : Key) :
    db.statuses k = (db.runs.view RunRow.state k).map fun a => (a.status, a.stateVersion) := by
  simp only [Db.statuses, Table.view, Option.map_map]
  rfl

/-- A run that waits for the user is moved by a change of status only. -/
theorem Change.waits {f : Files} {n : Nat} {db db' : Db} (h : Change d π f n db db')
    (unmoved : ∀ target, ¬ π.target target) {k : Key} {version : Nat}
    (waits : db.statuses k = some (.waitingUser, version)) :
    db'.statuses k = some (.waitingUser, version) := by
  cases h with
  | addWorkspace | rebind | revise | addSession | tools | pendings => exact waits
  | move run change allowed => exact absurd allowed (unmoved _)
  | note record => exact (congrFun record.statuses.1 k).trans waits
  | accept known insert record =>
      refine (congrFun record.statuses.1 k).trans ((congrFun (Table.view_insert? insert _) k).trans ?_)
      rw [Function.update_of_ne]
      · exact waits
      · rintro rfl
        rw [show db.statuses _ = none from Table.view_of_insert? insert _ _] at waits
        cases waits
  | @claim db₁ c nowIso leaseUntil scopeId id binding workerId actor attempts r s e run candidate
      claimable earlier insert record =>
      have hrun : db.run c.run.scopeId c.run.id = some c.run := Table.getIn_of_mem run
      rw [record.statuses.1]
      simp only [Db.statuses, Db.startAttempt, Db.startRun, Db.occupyWorkspace,
        Db.occupySession, Candidate.attempt]
      rw [Table.view_updateIn_of hrun, Function.update_of_ne]
      · exact waits
      · rintro rfl
        rw [Db.statuses_of_run hrun, claimable.1] at waits
        cases waits

/-- Only `transition_run`, `cancel_run` and replies change statuses. -/
theorem Op.exec_waits {op : Op} (other : op.Obeys { target := fun _ => False }) {k : Key}
    {version : Nat} (waits : s.db.statuses k = some (.waitingUser, version)) :
    (op.exec d s).db.statuses k = some (.waitingUser, version) := by
  refine (op.exec_changes d _ other s).preserves
    (I := fun _ _ db => db.statuses k = some (.waitingUser, version)) ?_ waits
  intro f n db db' c h
  exact c.waits (fun _ h => h) h

/-- A change of one run leaves the others where they are. -/
theorem transitionRun_others {version : Nat} {target : RunStatus} {args : TransitionArgs}
    {actorRef : Option String} {k : Key} (other : k ≠ (scopeId, runId)) :
    Keeps (fun db => db.statuses k)
      (transitionRun d scopeId runId version target args actorRef) := by
  intro s
  cases ended : transitionRun d scopeId runId version target args actorRef s with
  | ok o t =>
      rw [finalState_of_ok ended]
      obtain ⟨row, after, e, -, -, states, -⟩ := transitionRun_spec ended
      change t.db.statuses k = s.db.statuses k
      rw [Db.statuses_eq, Db.statuses_eq, states, Function.update_of_ne other]
  | error e t => rw [finalState_of_error ended, transaction_error_db ended]

theorem cancelRun_others {actorRef : Option String} {k : Key} (other : k ≠ (scopeId, runId)) :
    Keeps (fun db => db.statuses k) (cancelRun d scopeId runId actorRef) := by
  refine .bind .getDb fun db => .bind (.orThrow _ _) fun row => ?_
  refine .ite (.pure _) (.bind (transitionRun_others other) fun current => ?_)
  exact .ite (.bind (.orThrow _ _) fun _ => transitionRun_others other) (.pure _)

/-! ## What is offered -/

/-- Runs with open requests wait for the user, each has one at most, and answers were given by
replies. -/
structure Db.Offers (db : Db) : Prop where
  waits : ∀ p ∈ db.pendings, p.isOpen = true →
    ∃ version, db.statuses (p.scopeId, p.runId) = some (.waitingUser, version)
  single : ∀ p ∈ db.pendings, ∀ q ∈ db.pendings, p.isOpen = true → q.isOpen = true →
    (p.scopeId, p.runId) = (q.scopeId, q.runId) → p = q
  keys : ∀ p ∈ db.pendings, ∀ key, p.responseKey = some key → key = replyKey p.id
  times : ∀ p ∈ db.pendings, p.resolvedAt ≠ some ""

theorem Db.Offers.empty : Db.Offers {} where
  waits p hp := absurd hp (Table.not_mem_empty p)
  single p hp := absurd hp (Table.not_mem_empty p)
  keys p hp := absurd hp (Table.not_mem_empty p)
  times p hp := absurd hp (Table.not_mem_empty p)

/-- Rows that are not open were answered. -/
theorem Db.Offers.isOpen {db : Db} (h : db.Offers) {p : PendingRow} (known : p ∈ db.pendings)
    (unresolved : p.resolved = false) : p.isOpen = true := by
  have time := h.times p known
  rw [PendingRow.isOpen]
  cases at_ : p.resolvedAt with
  | none => rfl
  | some at_' =>
      rw [PendingRow.resolved, at_] at unresolved
      rw [at_] at time
      exact absurd (congrArg some (by simpa using unresolved)) time

/-- It is enough to look at the runs with open requests. -/
theorem Db.Offers.frame {db db' : Db} (h : db.Offers) (pendings : db'.pendings = db.pendings)
    (waits : ∀ p ∈ db.pendings, p.isOpen = true → ∀ version,
      db.statuses (p.scopeId, p.runId) = some (.waitingUser, version) →
        db'.statuses (p.scopeId, p.runId) = some (.waitingUser, version)) : db'.Offers where
  waits := by
    rw [pendings]
    intro p hp isOpen
    obtain ⟨version, waiting⟩ := h.waits p hp isOpen
    exact ⟨version, waits p hp isOpen version waiting⟩
  single := by
    rw [pendings]
    exact h.single
  keys := by
    rw [pendings]
    exact h.keys
  times := by
    rw [pendings]
    exact h.times

/-- A new request. -/
theorem Db.Offers.opened {db : Db} {p : PendingRow} {pendings : Table PendingRow} (h : db.Offers)
    (insert : db.pendings.insert? p = some pendings) (isOpen : p.resolvedAt = none)
    (fresh : p.responseKey = none)
    (waits : ∃ version, db.statuses (p.scopeId, p.runId) = some (.waitingUser, version))
    (settled : db.Settled p.scopeId p.runId) : Db.Offers { db with pendings } where
  waits := by
    intro q hq isOpen
    rcases (Table.mem_insert? insert).1 hq with old | rfl
    · exact h.waits q old isOpen
    · exact waits
  single := by
    intro a ha b hb openA openB same
    have scope := congrArg Prod.fst same
    have run := congrArg Prod.snd same
    rcases (Table.mem_insert? insert).1 ha with oldA | rfl
    · rcases (Table.mem_insert? insert).1 hb with oldB | rfl
      · exact h.single a oldA b oldB openA openB same
      · rw [settled a oldA scope run] at openA
        cases openA
    · rcases (Table.mem_insert? insert).1 hb with oldB | rfl
      · rw [settled b oldB scope.symm run.symm] at openB
        cases openB
      · rfl
  keys := by
    intro q hq key hkey
    rcases (Table.mem_insert? insert).1 hq with old | rfl
    · exact h.keys q old key hkey
    · rw [fresh] at hkey
      cases hkey
  times := by
    intro q hq
    rcases (Table.mem_insert? insert).1 hq with old | rfl
    · exact h.times q old
    · rw [isOpen]
      exact nofun

/-- The rows after an answer. -/
theorem Resolves.mem_later {db db' : Db} {p q : PendingRow} (h : Resolves d db db' p key text)
    (later : q ∈ db'.pendings) :
    q ∈ db.pendings ∧ q ≠ p ∨
      q.id = p.id ∧ q.responseKey = some key ∧ ∃ n, q.resolvedAt = some (d.clock n) := by
  obtain ⟨file, n, m, actor, row⟩ := h.row
  rw [row, Table.updateIn, Table.mem_updateWhere] at later
  obtain ⟨a, ha, rfl⟩ := later
  split
  next chosen =>
    simp only [Bool.and_eq_true, decide_eq_true_eq] at chosen
    exact .inr ⟨chosen.2, rfl, n, rfl⟩
  next other =>
    refine .inl ⟨ha, ?_⟩
    rintro rfl
    simp only [Bool.and_eq_true, decide_eq_true_eq] at other
    exact other ⟨rfl, rfl⟩

/-- A request that was answered by a reply. -/
theorem Db.Offers.answered {db db' : Db} {p : PendingRow} (h : db.Offers)
    (answer : Resolves d db db' p (replyKey p.id) text) (clock : ∀ n, d.clock n ≠ "") :
    db'.Offers where
  waits := by
    intro q hq isOpen
    rcases answer.mem_later hq with ⟨old, other⟩ | ⟨-, -, n, at_⟩
    · obtain ⟨version, waits⟩ := h.waits q old isOpen
      obtain ⟨r, after, -, -, states⟩ := answer.run
      refine ⟨version, ?_⟩
      rw [Db.statuses_eq, states, Function.update_of_ne]
      · rw [← Db.statuses_eq]
        exact waits
      · intro same
        exact other (h.single q old p answer.known isOpen
          (h.isOpen answer.known answer.unresolved) same)
    · rw [PendingRow.isOpen, at_] at isOpen
      cases isOpen
  single := by
    intro a ha b hb openA openB same
    rcases answer.mem_later ha with ⟨oldA, -⟩ | ⟨-, -, n, at_⟩
    · rcases answer.mem_later hb with ⟨oldB, -⟩ | ⟨-, -, n, at_⟩
      · exact h.single a oldA b oldB openA openB same
      · rw [PendingRow.isOpen, at_] at openB
        cases openB
    · rw [PendingRow.isOpen, at_] at openA
      cases openA
  keys := by
    intro q hq key hkey
    rcases answer.mem_later hq with ⟨old, -⟩ | ⟨id, own, -⟩
    · exact h.keys q old key hkey
    · rw [own] at hkey
      rw [id]
      exact (Option.some.inj hkey).symm
  times := by
    intro q hq
    rcases answer.mem_later hq with ⟨old, -⟩ | ⟨-, -, n, at_⟩
    · exact h.times q old
    · rw [at_]
      exact fun empty => clock n (Option.some.inj empty)

theorem openPending_known {p : PendingRow} {u : Unit} (h : openPending p s = .ok u t) :
    ∃ r, s.db.run p.scopeId p.runId = some r := by
  unfold openPending at h
  rw [transaction_eq_ok, getDb_bind_eq_ok, orThrow_bind_eq_ok] at h
  obtain ⟨r, run, -⟩ := h
  exact ⟨r, run⟩

/-- Every call keeps to it. -/
theorem Offering.offers (st : Offering d Careful s t) (clock : ∀ n, d.clock n ≠ "")
    (h : s.db.Offers) : t.db.Offers := by
  cases st with
  | fault grown rollback =>
      rw [rollback]
      exact h
  | call op asks minds =>
      have quiet : (op.exec d s).db.pendings = s.db.pendings →
          op.Obeys { target := fun _ => False } → (op.exec d s).db.Offers := fun kept other =>
        h.frame kept fun _ _ _ _ waits => op.exec_waits other waits
      have stays : ∀ {x : StoreM (Option RunRow)} {scopeId : String} {runId : Uuid},
          Keeps Db.pendings x → (∀ k, k ≠ (scopeId, runId) → Keeps (fun db => db.statuses k) x) →
            s.db.Settled scopeId runId → (finalState x s).db.Offers := by
        intro x scopeId runId kept others settled
        refine h.frame (kept s) fun p hp isOpen version waits => ?_
        refine (others _ ?_ s).trans waits
        intro same
        rw [settled p hp (congrArg Prod.fst same) (congrArg Prod.snd same)] at isOpen
        cases isOpen
      cases op with
      | createSession scopeId key title externalRef context =>
          exact quiet (congrArg Prod.snd
            (createSession_keeps scopeId key title externalRef context s)) fun _ _ => trivial
      | acceptOnce => exact quiet (acceptOnce_pendings s) fun _ => trivial
      | claimNextRun => exact quiet (claimNextRun_keeps .pendings _ _ _ _ s) trivial
      | recordWorkspaceRevision =>
          exact quiet (recordWorkspaceRevision_keeps (fun _ _ _ _ _ _ _ => rfl) _ _ _ _ _ _ s) trivial
      | appendEvent => exact quiet (appendEvent_keeps .pendings _ _ _ _ _ s) trivial
      | prepareTool => exact quiet (prepareTool_keeps .pendings _ _ s) trivial
      | startTool => exact quiet (startTool_keeps .pendings _ _ _ s) trivial
      | appendToolOutput => exact quiet (appendToolOutput_keeps .pendings _ _ _ _ _ _ s) trivial
      | finishTool => exact quiet (finishTool_keeps .pendings _ _ _ _ _ _ _ s) trivial
      | cancelRun scopeId runId actorRef =>
          exact stays (cancelRun_keeps .pendings (fun _ _ _ _ _ _ _ => rfl) _ _ _)
            (fun k other => cancelRun_others other) minds
      | transitionRun scopeId runId version target args actorRef =>
          dsimp only [Op.exec]
          cases ended : CodeForge.transitionRun d scopeId runId version target args actorRef s with
          | ok o t =>
              obtain ⟨row, after, e, run, change, -⟩ := transitionRun_spec ended
              exact stays (transitionRun_keeps .pendings fun _ _ _ _ _ _ => rfl)
                (fun k other => transitionRun_others other) (minds row after run change)
          | error e t =>
              rw [finalState_of_error ended, transaction_error_db ended]
              exact h
      | respondToRun scopeId runId pendingId key version text actor =>
          dsimp only [Op.exec]
          cases ended : CodeForge.respondToRun d scopeId runId pendingId key version text actor s
            with
          | ok o t =>
              rw [finalState_of_ok ended]
              obtain ⟨-, p, r, found, -, -, ⟨-, -, -, rfl⟩ | ⟨-, -, resolves⟩⟩ :=
                respondToRun_spec ended
              · exact h
              · have id : p.id = pendingId := (Table.getIn_eq_some.1 found).2.2
                have own : key = replyKey pendingId := asks
                rw [own, ← id] at resolves
                exact h.answered resolves clock
          | error e t =>
              rw [finalState_of_error ended, respondToRun_error_db ended]
              exact h
      | openPending p =>
          obtain ⟨isOpen, fresh, waits, settled⟩ := asks
          dsimp only [Op.exec]
          cases ended : CodeForge.openPending p s with
          | ok o t =>
              rw [finalState_of_ok ended]
              obtain ⟨r, run⟩ := openPending_known ended
              obtain ⟨pendings, insert, rfl⟩ := openPending_eq_ok ended
              refine h.opened insert isOpen fresh ⟨r.stateVersion, ?_⟩ settled
              rw [Db.statuses_of_run run, waits r run]
          | error e t =>
              rw [finalState_of_error ended]
              rw [show t.db = s.db from transaction_error_db ended]
              exact h

/-! ## Every request that is offered can be answered -/

variable {sessionId : Uuid} {reply : PendingReply}

/-- The store after any number of these steps. -/
theorem Offering.run (h : Relation.ReflTransGen (Offering d Careful) {} s) (clock : ∀ n, d.clock n ≠ "") :
    Reachable d {} s ∧ s.db.Offers := by
  induction h with
  | refl => exact ⟨.refl, .empty⟩
  | tail _ last ih => exact ⟨ih.1.tail last.step, last.offers clock ih.2⟩

/-- The key of its reply is free. -/
theorem Db.Offers.free {db : Db} (h : db.Offers) (p : PendingRow) :
    db.responseKeyTaken p (replyKey p.id) = false := by
  rw [Db.responseKeyTaken, List.any_eq_false]
  intro q hq taken
  simp only [Bool.and_eq_true, decide_eq_true_eq, ne_eq, decide_not, Bool.not_eq_true',
    decide_eq_false_iff_not] at taken
  exact taken.1.1.1 (replyKey_injective (h.keys q hq _ taken.2)).symm

/-- An answer to an open request goes through. -/
theorem Db.Offers.respond (h : s.db.Offers) (reach : Reachable d {} s) {p : PendingRow} {r : RunRow}
    (known : p ∈ s.db.pendings) (isOpen : p.isOpen = true)
    (run : s.db.run p.scopeId p.runId = some r) (free : s.db.responseKeyTaken p key = false)
    (text actor : String) :
    ∃ row t, t.db.run p.scopeId p.runId = some row ∧ row.status = .queued ∧
      row.stateVersion = r.stateVersion + 1 ∧
      respondToRun d p.scopeId p.runId p.id key r.stateVersion text actor s = .ok (some row) t := by
  obtain ⟨version, waits⟩ := h.waits p known isOpen
  rw [Db.statuses_of_run run, Option.some.injEq, Prod.mk.injEq] at waits
  have edge : RunStatus.queued ∈ allowedTransitions r.state.status := by
    rw [show r.state.status = .waitingUser from waits.1]
    decide
  obtain ⟨after, change⟩ := (@transition_permits r.state .queued r.stateVersion (by decide) rfl).2
    ⟨rfl, edge⟩
  have found : s.db.pendings.getIn p.scopeId p.id = some p := Table.getIn_of_mem known
  have unresolved := PendingRow.resolved_of_isOpen isOpen
  have ends : Ends (respondToRun d p.scopeId p.runId p.id key r.stateVersion text actor) s :=
    respondToRun_total reach.ready found rfl run unresolved free change text actor
  obtain ⟨o, t, answered⟩ := ends
  obtain ⟨later, p', r', found', -, run', outcome⟩ := respondToRun_spec answered
  cases run.symm.trans run'
  cases found.symm.trans found'
  rcases outcome with ⟨resolved, -⟩ | ⟨-, -, resolves⟩
  · rw [unresolved] at resolved
    cases resolved
  · obtain ⟨r', after', run', change', states⟩ := resolves.run
    cases run.symm.trans run'
    cases change.symm.trans change'
    obtain ⟨-, -, -, -, rfl⟩ := transition_eq_ok.1 change
    obtain ⟨row, found, hkey, state⟩ := Table.view_eq_some.1
      ((congrFun states (p.scopeId, p.runId)).trans (Function.update_self ..))
    obtain ⟨scope, id⟩ := Prod.mk.inj hkey
    have now_ : t.db.run p.scopeId p.runId = some row := Db.run_eq_some.2 ⟨found, scope, id⟩
    refine ⟨row, t, now_, congrArg RunState.status state, congrArg RunState.stateVersion state, ?_⟩
    rw [answered, later, now_]

/-- Its run is read back as it was read before. -/
theorem Db.Offers.readBack (h : s.db.Offers) (reach : Reachable d {} s) {p : PendingRow} {r : RunRow}
    (known : p ∈ s.db.pendings) (isOpen : p.isOpen = true)
    (run : s.db.run p.scopeId p.runId = some r) (free : s.db.responseKeyTaken p key = false)
    (reads : A.Reads d s p.scopeId p.runId) (text actor : String) :
    ∃ view t, respondToRunReply A d p.scopeId p.runId p.id key r.stateVersion text actor s =
      .ok view t := by
  obtain ⟨row, t, -, -, -, answered⟩ := h.respond reach known isOpen run free text actor
  have later : A.Reads d t p.scopeId p.runId := by
    obtain ⟨refs, bases, _, _, -, -, -, ⟨-, rfl⟩ | ⟨-, -, -, -, -, objects⟩⟩ :=
      respondToRun_writes answered
    · exact reads
    · have bodies := (Files.withResponse_bodies d s.files _ _ p.id text).trans objects.bodies
      exact (Access.reads_congr reach.filed (congrFun refs _) bases bodies).2 reads
  obtain ⟨view, hview⟩ := later
  refine ⟨view, t, bind_eq_ok.2 ⟨some row, t, stored_of_ok answered, ?_⟩⟩
  rw [readRun, hview]

/-- In a run of calls that mind open requests, whatever is offered belongs to a run that waits for
the user, and answering it, with the version the run has, puts the run back into the queue. -/
theorem Offering.answerable (run : Relation.ReflTransGen (Offering d Careful) {} s)
    (clock : ∀ n, d.clock n ≠ "") (offered : s.db.pendingReply sessionId = some reply) :
    ∃ p ∈ s.db.pendings, ∃ r, p.id = reply.pendingId ∧ p.runId = reply.messageId ∧
      s.db.run p.scopeId p.runId = some r ∧ r.sessionId = sessionId ∧ r.status = .waitingUser ∧
      s.db.responseKeyTaken p (replyKey p.id) = false ∧
      ∀ key text actor, s.db.responseKeyTaken p key = false →
        (∃ row t, t.db.run p.scopeId p.runId = some row ∧ row.status = .queued ∧
          row.stateVersion = r.stateVersion + 1 ∧
          respondToRun d p.scopeId p.runId p.id key r.stateVersion text actor s =
            .ok (some row) t) ∧
        (A.Reads d s p.scopeId p.runId →
          ∃ view t, respondToRunReply A d p.scopeId p.runId p.id key r.stateVersion text actor s =
            .ok view t) := by
  obtain ⟨reach, offers⟩ := Offering.run run clock
  obtain ⟨p, known, r, id, message, isOpen, hrun, session⟩ := Db.pendingReply_eq_some offered
  obtain ⟨version, waits⟩ := offers.waits p known isOpen
  rw [Db.statuses_of_run hrun, Option.some.injEq, Prod.mk.injEq] at waits
  refine ⟨p, known, r, id.symm, message.symm, hrun, session, waits.1, offers.free p, ?_⟩
  intro key text actor free
  exact ⟨offers.respond reach known isOpen hrun free text actor,
    fun reads => offers.readBack reach known isOpen hrun free reads text actor⟩

/-- A series of calls is one, where the last of them is. -/
theorem Offering.snoc {minds : Store → Op → Prop} {ops : List Op} {op : Op}
    (run : Relation.ReflTransGen (Offering d minds) {} (Op.execAll d ops {}))
    (asks : op.Asks (Op.execAll d ops {})) (careful : minds (Op.execAll d ops {}) op) :
    Relation.ReflTransGen (Offering d minds) {} (Op.execAll d (ops ++ [op]) {}) := by
  rw [Op.execAll_concat]
  exact run.tail (.call op asks careful)

/-- So is a series of calls that ask and add nothing. -/
theorem Offering.execAll {minds : Store → Op → Prop} {ops : List Op}
    (calls : ∀ op ∈ ops, ∀ s, op.Asks s ∧ minds s op) :
    Relation.ReflTransGen (Offering d minds) s (Op.execAll d ops s) := by
  induction ops generalizing s with
  | nil => exact .refl
  | cons op ops ih =>
      obtain ⟨asks, careful⟩ := calls op (by simp) s
      exact .head (.call op asks careful) (ih fun op' hop => calls op' (by simp [hop]))

theorem Db.settled_of_empty {db : Db} (h : db.pendings.rows.length = 0) :
    db.Settled scopeId runId := by
  intro p hp
  rw [Table.mem_def, List.eq_nil_of_length_eq_zero h] at hp
  cases hp

theorem Op.asks_first (unasked : s.db.pendings.rows.length = 0)
    (status : (s.db.run "ada" ⟨2⟩).map RunRow.status = some .waitingUser) :
    (Op.openPending .first).Asks s := by
  refine ⟨rfl, rfl, ?_, Db.settled_of_empty unasked⟩
  intro r run
  obtain ⟨r', run', status⟩ := Option.map_eq_some_iff.1 status
  cases run.symm.trans run'
  exact status

/-- The first run waits for the user. -/
def Op.firstWait : List Op :=
  Op.firstSend ++ [.claimAny] ++
    [.transitionRun "ada" ⟨2⟩ 1 .waitingUser { reason := some "question" } none]

/-- The first request is asked for as it should be. -/
theorem Offering.asked :
    Relation.ReflTransGen (Offering .plain Careful) {} (Op.execAll .plain Op.asked {}) := by
  have claimed : Relation.ReflTransGen (Offering .plain Careful) {}
      (Op.execAll .plain (Op.firstSend ++ [.claimAny]) {}) := by
    refine Offering.execAll fun op hop s => ?_
    simp only [Op.firstSend, List.cons_append, List.nil_append, List.mem_cons, List.not_mem_nil,
      or_false] at hop
    rcases hop with rfl | rfl | rfl <;> exact ⟨trivial, trivial⟩
  have before : (Op.execAll .plain (Op.firstSend ++ [.claimAny]) {}).db.pendings.rows.length = 0 :=
    by decide +kernel
  have waiting : Relation.ReflTransGen (Offering .plain Careful) {}
      (Op.execAll .plain Op.firstWait {}) :=
    Offering.snoc claimed trivial fun _ _ _ _ => Db.settled_of_empty before
  have still : (Op.execAll .plain Op.firstWait {}).db.pendings.rows.length = 0 := by decide +kernel
  have status : ((Op.execAll .plain Op.firstWait {}).db.run "ada" ⟨2⟩).map RunRow.status =
      some .waitingUser := by decide +kernel
  rw [show Op.asked = Op.firstWait ++ [.openPending .first] from rfl]
  exact Offering.snoc waiting (Op.asks_first still status) trivial

theorem Offering.answerable_asked :
    (Op.execAll .plain Op.asked {}).db.pendingReply ⟨0⟩ =
      some ⟨"q", ⟨2⟩, "question", "sessions/s/pending/q-payload.json"⟩ ∧
    ∃ row t, row.status = .queued ∧
      respondToRun .plain "ada" ⟨2⟩ "q" "platform:q" 2 "yes" "user:ada"
        (Op.execAll .plain Op.asked {}) = .ok (some row) t := by
  have offered : (Op.execAll .plain Op.asked {}).db.pendingReply ⟨0⟩ =
      some ⟨"q", ⟨2⟩, "question", "sessions/s/pending/q-payload.json"⟩ := by decide +kernel
  have version : ((Op.execAll .plain Op.asked {}).db.run "ada" ⟨2⟩).map RunRow.stateVersion =
      some 2 := by decide +kernel
  have row : (Op.execAll .plain Op.asked {}).db.pendings.rows = [.first] := by decide +kernel
  refine ⟨offered, ?_⟩
  obtain ⟨p, known, r, -, -, run, -, -, free, answer⟩ :=
    Offering.answerable (A := .plain) Offering.asked Deployment.plain_clock offered
  rw [Table.mem_def, row, List.mem_singleton] at known
  subst known
  obtain ⟨r', run', version⟩ := Option.map_eq_some_iff.1 version
  cases run.symm.trans run'
  obtain ⟨⟨row, t, -, queued, -, answered⟩, -⟩ := answer _ "yes" "user:ada" free
  rw [version] at answered
  exact ⟨row, t, queued, answered⟩

/-- A request of a run that is being cancelled is not answered. -/
theorem respondToRun_cancelling (row : s.db.pendings.rows = [.first])
    (status : (s.db.run "ada" ⟨2⟩).map RunRow.status = some .cancelling)
    (key : String) (version : Nat) (text actor : String) (o : Option RunRow) (t : Store) :
    respondToRun d "ada" ⟨2⟩ "q" key version text actor s ≠ .ok o t := by
  obtain ⟨r, run, cancelling⟩ := Option.map_eq_some_iff.1 status
  have known : PendingRow.first ∈ s.db.pendings := by
    rw [Table.mem_def, row]
    exact List.mem_singleton_self _
  have late : .queued ∉ allowedTransitions r.status := by
    rw [cancelling]
    decide
  exact respondToRun_unfit known rfl run (.inr late) o t

/-- The run that asks is cancelled. -/
def Op.askedInVain : List Op := Op.asked ++ [.cancelRun "ada" ⟨2⟩ none]

/-- Its request is offered still, and no reply to it goes through. -/
theorem Offering.askedInVain_offered :
    Relation.ReflTransGen (Offering .plain Careless) {} (Op.execAll .plain Op.askedInVain {}) ∧
    (Op.execAll .plain Op.askedInVain {}).db.pendingReply ⟨0⟩ =
      some ⟨"q", ⟨2⟩, "question", "sessions/s/pending/q-payload.json"⟩ ∧
    ((Op.execAll .plain Op.askedInVain {}).db.run "ada" ⟨2⟩).map RunRow.status =
      some .cancelling ∧
    ∀ key version text actor o t, respondToRun .plain "ada" ⟨2⟩ "q" key version text actor
      (Op.execAll .plain Op.askedInVain {}) ≠ .ok o t := by
  have offered : (Op.execAll .plain Op.askedInVain {}).db.pendingReply ⟨0⟩ =
      some ⟨"q", ⟨2⟩, "question", "sessions/s/pending/q-payload.json"⟩ := by decide +kernel
  have status : ((Op.execAll .plain Op.askedInVain {}).db.run "ada" ⟨2⟩).map RunRow.status =
      some .cancelling := by decide +kernel
  have row : (Op.execAll .plain Op.askedInVain {}).db.pendings.rows = [.first] := by
    decide +kernel
  refine ⟨?_, offered, status, ?_⟩
  · have asked : Relation.ReflTransGen (Offering .plain Careless) {}
        (Op.execAll .plain Op.asked {}) :=
      Relation.ReflTransGen.mono (fun s t st => Offering.careless st) _ _ Offering.asked
    exact Offering.snoc asked trivial trivial
  · exact respondToRun_cancelling row status

end CodeForge
