import CodeForge.Lib.History
import CodeForge.Persistence.Ownership
import CodeForge.Persistence.Writes

/-!
# The revisions of a workspace

A workspace points at its last revision, and every revision at the one before it.  A revision is
recorded on behalf of an attempt, which has to be the one that occupies the workspace, under the
epoch it got there.  So the revisions of a workspace are one history, and its attempts follow each
other in it in the order of their epochs (`Db.History`).

The row of a revision does not name its attempt.  `Authors` remembers who recorded it.
-/

namespace CodeForge

open Lib StoreM

variable {d : Deployment} {π : Discipline} {s t : Store}

/-! ## Recording a revision -/

/-- The attempt that recorded a revision, and the epoch it gave. -/
abbrev Authors := String × String → Option (Uuid × Nat)

/-- The revisions of a workspace, in the order they were recorded. -/
def Db.revisionsOf (db : Db) (k : Key) : List RevisionRow :=
  db.revisions.rows.filter fun r => (r.scopeId, r.workspaceId) = k

/-- The last revision of each workspace. -/
def Db.tips (db : Db) : Key → Option (Option String) :=
  db.workspaces.view WorkspaceRow.currentRevision

/-- A call that records a revision remembers its author. -/
def Op.author (d : Deployment) (s : Store) (v : Authors) : Op → Authors
  | .recordWorkspaceRevision scopeId workspaceId attemptId epoch commit actor =>
      match CodeForge.recordWorkspaceRevision d scopeId workspaceId attemptId epoch commit actor s
        with
      | .ok _ _ => Function.update v (scopeId, commit.revisionId) (some (attemptId, epoch))
      | .error _ _ => v
  | _ => v

/-- One call, or a fault, with the authors. -/
inductive Authoring (d : Deployment) (π : Discipline) :
    Store × Authors → Store × Authors → Prop
  | call {s : Store} {v : Authors} (op : Op) (obeys : op.Obeys π) :
      Authoring d π (s, v) (op.exec d s, op.author d s v)
  | fault {s t : Store} {v : Authors} (grown : s.Extends t) (rollback : t.db = s.db) :
      Authoring d π (s, v) (t, v)

theorem Authoring.step {a b : Store × Authors} (h : Authoring d π a b) : Step d π a.1 b.1 := by
  cases h with
  | call op obeys => exact .call op obeys
  | fault grown rollback => exact .fault grown rollback

/-- A revision is recorded for the attempt that occupies the workspace, on its last one. -/
theorem recordWorkspaceRevision_eq_ok {scopeId : String} {workspaceId attemptId : Uuid}
    {epoch : Nat} {commit : WorkspaceCommit} {actor : String} {u : Unit}
    (h : recordWorkspaceRevision d scopeId workspaceId attemptId epoch commit actor s = .ok u t) :
    ∃ w r revisions now, s.db.workspace scopeId workspaceId = some w ∧
      w.activeAttemptId = some attemptId ∧ w.workspaceEpoch = epoch ∧
      w.leaseExpired now = false ∧ s.db.revisions.insert? r = some revisions ∧
      r.scopeId = scopeId ∧ r.id = commit.revisionId ∧ r.workspaceId = workspaceId ∧
      r.parentId = w.currentRevision ∧ r.manifestDigest = commit.manifestDigest ∧
      r.manifestRef = commit.manifestRef ∧ r.storageRef = commit.storageRef ∧
      t.db = { s.db with
        revisions
        workspaces := s.db.workspaces.updateIn scopeId workspaceId
          (fun w => w.revise commit.revisionId now actor) } := by
  simp only [recordWorkspaceRevision, now_bind_eq_ok, transaction_eq_ok, getDb_bind_eq_ok,
    orThrow_bind_eq_ok, ensure_bind_eq_ok, modifyDb_eq_ok, Bool.and_eq_true, decide_eq_true_eq,
    Bool.not_eq_true'] at h
  obtain ⟨w, workspace, ⟨active, epoch⟩, lease, revisions, insert, rfl⟩ := h
  exact ⟨w, _, revisions, _, workspace, active, epoch, lease, insert, rfl, rfl, rfl, rfl, rfl, rfl,
    rfl, rfl⟩

/-- A call on behalf of the attempt that occupies the workspace goes through. -/
theorem recordWorkspaceRevision_goes {scopeId : String} {workspaceId attemptId : Uuid}
    {w : WorkspaceRow} (known : s.db.workspace scopeId workspaceId = some w)
    (active : w.activeAttemptId = some attemptId)
    (lease : w.leaseExpired (d.clock s.ticks) = false) {commit : WorkspaceCommit}
    (fresh : ∀ r ∈ s.db.revisions, r.id ≠ commit.revisionId) (actor : String) :
    ∃ t, recordWorkspaceRevision d scopeId workspaceId attemptId w.workspaceEpoch commit actor s =
      .ok () t := by
  have free : ∀ r : RevisionRow, r.id = commit.revisionId →
      ∀ b ∈ s.db.revisions, rowClash b r = false := by
    intro r hr b hb
    exact decide_eq_false fun same => fresh b hb (same.trans hr)
  obtain ⟨revisions, insert⟩ := Table.insert?_isSome (free
    { id := commit.revisionId, scopeId, workspaceId, parentId := w.currentRevision,
      manifestDigest := commit.manifestDigest, manifestRef := commit.manifestRef,
      storageRef := commit.storageRef, audit := .insert (d.clock s.ticks) actor } rfl)
  simp only [recordWorkspaceRevision, now_bind_eq_ok, transaction_eq_ok, getDb_bind_eq_ok,
    orThrow_bind_eq_ok, ensure_bind_eq_ok, modifyDb_eq_ok, Bool.and_eq_true, decide_eq_true_eq,
    Bool.not_eq_true']
  exact ⟨_, w, known, ⟨active, rfl⟩, lease, revisions, insert, rfl⟩

/-- A call that does not go through leaves the tables alone. -/
theorem recordWorkspaceRevision_error_db {scopeId : String} {workspaceId attemptId : Uuid}
    {epoch : Nat} {commit : WorkspaceCommit} {actor : String} {e : StoreError}
    (h : recordWorkspaceRevision d scopeId workspaceId attemptId epoch commit actor s =
      .error e t) : t.db = s.db := by
  rcases bind_eq_error.1 h with failed | ⟨now, s₁, ticked, failed⟩
  · cases failed
  · cases ticked
    have kept := transaction_error_db failed
    exact kept

/-- A stale attempt, or epoch, is refused. -/
theorem recordWorkspaceRevision_stale {scopeId : String} {workspaceId attemptId : Uuid}
    {epoch : Nat} (stale : ∀ w, s.db.workspace scopeId workspaceId = some w →
      w.activeAttemptId ≠ some attemptId ∨ w.workspaceEpoch ≠ epoch)
    (commit : WorkspaceCommit) (actor : String) :
    ∃ e t, recordWorkspaceRevision d scopeId workspaceId attemptId epoch commit actor s =
      .error e t ∧ t.db = s.db := by
  cases ended : recordWorkspaceRevision d scopeId workspaceId attemptId epoch commit actor s with
  | error e t => exact ⟨e, t, rfl, recordWorkspaceRevision_error_db ended⟩
  | ok u t =>
      obtain ⟨w, -, -, -, workspace, active, same, -⟩ := recordWorkspaceRevision_eq_ok ended
      rcases stale w workspace with other | other
      · exact absurd active other
      · exact absurd same other

/-- So is one whose lease has expired. -/
theorem recordWorkspaceRevision_expired {scopeId : String} {workspaceId attemptId : Uuid}
    {epoch : Nat} (expired : ∀ w, s.db.workspace scopeId workspaceId = some w →
      w.leaseExpired (d.clock s.ticks) = true) (commit : WorkspaceCommit) (actor : String) :
    ∃ e t, recordWorkspaceRevision d scopeId workspaceId attemptId epoch commit actor s =
      .error e t ∧ t.db = s.db := by
  cases ended : recordWorkspaceRevision d scopeId workspaceId attemptId epoch commit actor s with
  | error e t => exact ⟨e, t, rfl, recordWorkspaceRevision_error_db ended⟩
  | ok u t =>
      simp only [recordWorkspaceRevision, now_bind_eq_ok, transaction_eq_ok, getDb_bind_eq_ok,
        orThrow_bind_eq_ok, ensure_bind_eq_ok, Bool.not_eq_true'] at ended
      obtain ⟨w, workspace, -, lease, -⟩ := ended
      cases (expired w workspace).symm.trans lease

/-! ## The invariant -/

/-- The revisions of every workspace are one history, and its authors follow each other in the order
of their epochs. -/
structure Db.History (db : Db) (v : Authors) : Prop where
  linked : ∀ k tip, db.tips k = some tip →
    Linked RevisionRow.id RevisionRow.parentId (db.revisionsOf k) tip
  home : ∀ r ∈ db.revisions, ∃ tip, db.tips (r.scopeId, r.workspaceId) = some tip
  /-- The author got its epoch on the workspace. -/
  author : ∀ r ∈ db.revisions, ∃ attempt g, v (r.scopeId, r.id) = some (attempt, g.resourceEpoch) ∧
    db.lease.grant (r.scopeId, attempt) = some g ∧ g.resource = (r.scopeId, r.workspaceId)
  order : ∀ k, (db.revisionsOf k).Pairwise fun r r' => ∀ a a', v (r.scopeId, r.id) = some a →
    v (r'.scopeId, r'.id) = some a' → a.2 ≤ a'.2

theorem Db.History.initial : Db.History {} fun _ => none where
  linked := by rintro k tip ⟨⟩
  home r hr := absurd hr (Table.not_mem_empty r)
  author r hr := absurd hr (Table.not_mem_empty r)
  order k := .nil

theorem Db.mem_revisionsOf {db : Db} {k : Key} {r : RevisionRow} :
    r ∈ db.revisionsOf k ↔ r ∈ db.revisions ∧ (r.scopeId, r.workspaceId) = k := by
  rw [revisionsOf, List.mem_filter, decide_eq_true_eq]
  rfl

/-- No revision is recorded, and workspaces keep the one they point at. -/
structure Db.Quiet (db db' : Db) : Prop where
  revisions : db'.revisions = db.revisions
  stay : ∀ k tip, db.tips k = some tip → db'.tips k = some tip
  tips : ∀ k tip, db'.tips k = some tip → db.tips k = some tip ∨ db.tips k = none ∧ tip = none

/-- The history is the same then. -/
theorem Db.History.frame {v : Authors} (h : s.db.History v) (st : Step d π s t)
    (quiet : s.db.Quiet t.db) : t.db.History v where
  linked k tip known := by
    have same : t.db.revisionsOf k = s.db.revisionsOf k := by
      rw [Db.revisionsOf, quiet.revisions]
      rfl
    rw [same]
    rcases quiet.tips k tip known with old | ⟨fresh, rfl⟩
    · exact h.linked k tip old
    · have none_ : s.db.revisionsOf k = [] := by
        rw [List.eq_nil_iff_forall_not_mem]
        intro r hr
        obtain ⟨old, rfl⟩ := Db.mem_revisionsOf.1 hr
        obtain ⟨tip, home⟩ := h.home r old
        rw [fresh] at home
        cases home
      rw [none_]
      exact .nil
  home r hr := by
    rw [quiet.revisions] at hr
    obtain ⟨tip, known⟩ := h.home r hr
    exact ⟨tip, quiet.stay _ _ known⟩
  author r hr := by
    rw [quiet.revisions] at hr
    obtain ⟨attempt, g, author, grant, resource⟩ := h.author r hr
    obtain ⟨g', grant', resource', stamp⟩ := Steps.grant (.single st) grant
    exact ⟨attempt, g', by rw [author, stamp], grant', resource'.trans resource⟩
  order k := by
    have same : t.db.revisionsOf k = s.db.revisionsOf k := by
      rw [Db.revisionsOf, quiet.revisions]
      rfl
    rw [same]
    exact h.order k

/-- A revision that is recorded. -/
theorem Db.History.recorded {v : Authors} (h : s.db.History v) (reach : Reachable d π s)
    {scopeId : String} {workspaceId attemptId : Uuid} {epoch : Nat} {commit : WorkspaceCommit}
    {actor : String} {u : Unit}
    (ended : recordWorkspaceRevision d scopeId workspaceId attemptId epoch commit actor s =
      .ok u t) :
    t.db.History (Function.update v (scopeId, commit.revisionId) (some (attemptId, epoch))) := by
  obtain ⟨w, r, revisions, now, workspace, active, hepoch, -, insert, hscope, hid, hworkspace, parent,
    -, -, -, hdb⟩ := recordWorkspaceRevision_eq_ok ended
  obtain ⟨hw, wscope, wid⟩ := Db.workspace_eq_some.1 workspace
  have rows : t.db.revisions.rows = s.db.revisions.rows ++ [r] := by
    rw [hdb]
    exact (Table.insert?_eq_some.1 insert).2
  have tips : t.db.tips =
      Function.update s.db.tips (scopeId, workspaceId) (some (some commit.revisionId)) := by
    rw [hdb, Db.tips, Table.view_updateIn_of workspace]
    rfl
  have lease : t.db.lease = s.db.lease := by
    rw [hdb, Db.lease]
    simp only
    rw [Table.view_updateIn_same]
    · rfl
    · intro w
      rfl
  have others : ∀ k, k ≠ (scopeId, workspaceId) → t.db.revisionsOf k = s.db.revisionsOf k := by
    intro k other
    rw [Db.revisionsOf, rows, List.filter_append, List.filter_cons_of_neg, List.filter_nil,
      List.append_nil]
    · rfl
    · rw [hscope, hworkspace, decide_eq_true_eq]
      exact Ne.symm other
  have mine : t.db.revisionsOf (scopeId, workspaceId) =
      s.db.revisionsOf (scopeId, workspaceId) ++ [r] := by
    rw [Db.revisionsOf, rows, List.filter_append, List.filter_cons_of_pos, List.filter_nil]
    · rfl
    · rw [hscope, hworkspace, decide_eq_true_eq]
  have mem : ∀ q, q ∈ t.db.revisions ↔ q ∈ s.db.revisions ∨ q = r := by
    intro q
    rw [Table.mem_def, rows, List.mem_append, List.mem_singleton]
    rfl
  -- the author of an old revision is the one it was
  have author : ∀ q ∈ s.db.revisions, Function.update v (scopeId, commit.revisionId)
      (some (attemptId, epoch)) (q.scopeId, q.id) = v (q.scopeId, q.id) := by
    intro q hq
    refine Function.update_of_ne ?_ _ _
    intro same
    have clash := (Table.insert?_eq_some.1 insert).1 q hq
    rw [rowClash_of_key ((Prod.mk.inj same).2.trans hid.symm)] at clash
    cases clash
  have own : Function.update v (scopeId, commit.revisionId) (some (attemptId, epoch))
      (r.scopeId, r.id) = some (attemptId, epoch) := by
    rw [hscope, hid, Function.update_self]
  have held : s.db.lease.resource (scopeId, workspaceId) = some w.lease :=
    Table.view_of_getIn workspace _
  constructor
  · intro k tip known
    rw [tips, Function.update_apply] at known
    split at known
    next here =>
      cases known
      rw [here, mine, ← hid]
      exact (h.linked _ _ (Table.view_of_getIn workspace _)).append parent
    next other =>
      rw [others k other]
      exact h.linked k tip known
  · intro q hq
    rw [tips, Function.update_apply]
    split
    · exact ⟨_, rfl⟩
    next other =>
      rcases (mem q).1 hq with old | rfl
      · exact h.home q old
      · exact absurd (Prod.ext hscope hworkspace) other
  · intro q hq
    rw [lease]
    rcases (mem q).1 hq with old | rfl
    · rw [author q old]
      exact h.author q old
    · obtain ⟨g, grant, resource, stamp⟩ := reach.stamped _ _ (scopeId, attemptId) held (by
        simp [WorkspaceRow.lease, active, wscope])
      have epoch' : g.resourceEpoch = epoch := stamp.trans hepoch
      exact ⟨attemptId, g, by rw [own, epoch'], by rw [hscope]; exact grant, by
        rw [resource, hscope, hworkspace]⟩
  · intro k
    by_cases here : k = (scopeId, workspaceId)
    · subst here
      rw [mine, List.pairwise_append]
      refine ⟨?_, List.pairwise_singleton _ _, ?_⟩
      · refine (h.order _).imp_of_mem fun {q q'} hq hq' le => ?_
        rw [author q (Db.mem_revisionsOf.1 hq).1, author q' (Db.mem_revisionsOf.1 hq').1]
        exact le
      · intro q hq q' hq' a a' ha ha'
        obtain ⟨hq, hkey⟩ := Db.mem_revisionsOf.1 hq
        rw [List.mem_singleton.1 hq', own] at ha'
        cases ha'
        rw [author q hq] at ha
        obtain ⟨attempt, g, hauthor, grant, resource⟩ := h.author q hq
        rw [hauthor] at ha
        cases ha
        obtain ⟨⟨x, hx, le⟩, -⟩ := reach.counted _ _ grant
        rw [resource, hkey, held] at hx
        cases hx
        exact le.trans (Nat.le_of_eq hepoch)
    · rw [others k here]
      refine (h.order _).imp_of_mem fun {q q'} hq hq' le => ?_
      rw [author q (Db.mem_revisionsOf.1 hq).1, author q' (Db.mem_revisionsOf.1 hq').1]
      exact le

/-! ## Every call -/

/-- The revisions and where workspaces point at them. -/
def Db.chains (db : Db) : Table RevisionRow × (Key → Option (Option String)) :=
  (db.revisions, db.tips)

/-- Events, claims, releases and tools record no revision. -/
theorem Db.Apart.chains : Db.Apart Db.chains where
  event _ _ _ _ _ := rfl
  attempts _ _ := rfl
  occupySession _ _ _ := rfl
  occupyWorkspace db a epoch actor := by
    simp only [Db.chains, Db.tips, Db.occupyWorkspace]
    rw [Table.view_updateIn_same]
    intro w
    split <;> rfl
  startRun _ _ _ _ := rfl
  release db r now actor := by
    simp only [Db.chains, Db.tips, Db.release]
    rw [Table.view_updateIn_same]
    intro w
    split <;> rfl
  tools _ _ := rfl

theorem Db.Aside.chains : Db.Aside Db.chains := Db.Apart.chains.toAside

theorem Db.Quiet.of_chains {db db' : Db} (h : db'.chains = db.chains) : db.Quiet db' where
  revisions := (Prod.mk.inj h).1
  stay k tip known := by rw [(Prod.mk.inj h).2, known]
  tips k tip known := .inl (by rw [← (Prod.mk.inj h).2, known])

/-- A new session adds a workspace without revision at most. -/
theorem createSession_quiet (scopeId key title : String) (externalRef : Option String)
    (context : ExecutionContext) :
    s.db.Quiet
      (finalState (createSession d scopeId key title externalRef context) s).db := by
  cases ended : createSession d scopeId key title externalRef context s with
  | error e t =>
      rw [finalState_of_error ended]
      exact .of_chains (by rw [createSession_error_db ended])
  | ok view t =>
      rw [finalState_of_ok ended]
      rcases createSession_eq_ok ended with ⟨-, same⟩ | ⟨-, now, id, s₁, s₂, session, sessions,
        requests, placed, same, -, hdb⟩
      · exact .of_chains (by rw [same])
      · obtain ⟨workspaces, hplaced, new | ⟨b, w, -, found, -, -, rfl⟩⟩ := workspaceFor_row placed
        · obtain ⟨w, fresh, insert⟩ := new
          rw [same] at insert
          have none_ := Table.view_of_insert? insert WorkspaceRow.currentRevision (rowScope w)
          have tips : t.db.tips = Function.update s.db.tips (rowScope w, rowKey w) (some none) := by
            rw [hdb, hplaced, Db.tips, Table.view_insert? insert, fresh]
            rfl
          refine ⟨by rw [hdb, hplaced, same], ?_, ?_⟩
          · intro k tip known
            rw [tips, Function.update_of_ne]
            · exact known
            · rintro rfl
              cases none_.symm.trans known
          · intro k tip known
            rw [tips, Function.update_apply] at known
            split at known
            next here =>
              cases known
              exact .inr ⟨by rw [here]; exact none_, rfl⟩
            next => exact .inl known
        · refine .of_chains ?_
          rw [hdb, hplaced, same, Db.chains, Db.tips]
          split
          · rfl
          · rw [Table.view_updateIn_same]
            · rfl
            · intro w
              rfl

/-- The call may record a revision. -/
def Op.records : Op → Bool
  | .recordWorkspaceRevision _ _ _ _ _ _ => true
  | _ => false

theorem Op.exec_quiet {op : Op} (other : op.records = false) :
    s.db.Quiet (op.exec d s).db := by
  have moved : ∀ (db : Db) scopeId runId version after output error now actor,
      (db.moveRun scopeId runId version after none output error now actor).chains = db.chains :=
    fun _ _ _ _ _ _ _ _ _ => rfl
  cases op with
  | createSession scopeId key title externalRef context =>
      exact createSession_quiet scopeId key title externalRef context
  | acceptOnce =>
      exact .of_chains (acceptOnce_keeps .chains (fun _ _ => rfl) (fun _ _ _ _ _ _ => rfl) _ _ _ _ _
        s)
  | claimNextRun => exact .of_chains (claimNextRun_keeps .chains _ _ _ _ s)
  | transitionRun =>
      exact .of_chains (transitionRun_keeps .chains (fun _ _ _ _ _ _ => rfl) s)
  | cancelRun => exact .of_chains (cancelRun_keeps .chains (fun _ _ _ _ _ _ _ => rfl) _ _ _ s)
  | respondToRun =>
      exact .of_chains (respondToRun_keeps .chains (fun _ _ _ _ _ _ _ => rfl) (fun _ _ => rfl)
        _ _ _ _ _ _ _ s)
  | recordWorkspaceRevision => cases other
  | appendEvent => exact .of_chains (appendEvent_keeps .chains _ _ _ _ _ s)
  | prepareTool => exact .of_chains (prepareTool_keeps .chains _ _ s)
  | startTool => exact .of_chains (startTool_keeps .chains _ _ _ s)
  | appendToolOutput => exact .of_chains (appendToolOutput_keeps .chains _ _ _ _ _ _ s)
  | finishTool => exact .of_chains (finishTool_keeps .chains _ _ _ _ _ _ _ s)
  | openPending p =>
      have kept : Keeps Db.chains (CodeForge.openPending p) :=
        .transaction (.bind .getDb fun _ => .bind (.orThrow _ _) fun _ =>
          .bind (.orThrow _ _) fun _ => .modifyDb fun _ => rfl)
      exact .of_chains (kept s)

/-- No other call has authors to remember. -/
theorem Op.author_eq {op : Op} (other : op.records = false) {v : Authors} :
    op.author d s v = v := by
  cases op with
  | recordWorkspaceRevision => cases other
  | createSession | acceptOnce | claimNextRun | transitionRun | cancelRun | respondToRun
  | appendEvent | prepareTool | startTool | appendToolOutput | finishTool | openPending => rfl

/-- What one step does: nothing to revisions, or one is recorded. -/
theorem Authoring.step_cases {a b : Store × Authors} (h : Authoring d π a b) :
    a.1.db.Quiet b.1.db ∧ b.2 = a.2 ∨
      ∃ scopeId workspaceId attemptId epoch commit actor u t,
        recordWorkspaceRevision d scopeId workspaceId attemptId epoch commit actor a.1 =
          .ok u t ∧
        b = (t, Function.update a.2 (scopeId, commit.revisionId) (some (attemptId, epoch))) := by
  cases h with
  | @call s v op obeys =>
      cases hop : op.records with
      | false => exact .inl ⟨Op.exec_quiet hop, Op.author_eq hop⟩
      | true =>
          cases op with
          | recordWorkspaceRevision scopeId workspaceId attemptId epoch commit actor =>
              dsimp only [Op.exec, Op.author]
              cases ended : recordWorkspaceRevision d scopeId workspaceId attemptId epoch commit
                actor s with
              | error e t =>
                  rw [finalState_of_error ended]
                  exact .inl ⟨.of_chains (by rw [recordWorkspaceRevision_error_db ended]), rfl⟩
              | ok u t =>
                  rw [finalState_of_ok ended]
                  exact .inr ⟨_, _, _, _, _, _, u, t, ended, rfl⟩
          | _ => cases hop
  | @fault s t v grown rollback =>
      have kept : t.db = s.db := rollback
      exact .inl ⟨.of_chains (by rw [kept]), rfl⟩

/-- Every step keeps the histories. -/
theorem Authoring.history {a b : Store × Authors} (st : Authoring d π a b)
    (reach : Reachable d π a.1) (h : a.1.db.History a.2) : b.1.db.History b.2 := by
  rcases st.step_cases with ⟨quiet, same⟩ | ⟨_, _, _, _, _, _, u, t, ended, rfl⟩
  · rw [same]
    exact h.frame st.step quiet
  · exact h.recorded reach ended

/-- Revisions there are keep their authors. -/
theorem Authoring.stays {a b : Store × Authors} (st : Authoring d π a b) {r : RevisionRow}
    (known : r ∈ a.1.db.revisions) :
    r ∈ b.1.db.revisions ∧ b.2 (r.scopeId, r.id) = a.2 (r.scopeId, r.id) := by
  rcases st.step_cases with ⟨quiet, same⟩ | ⟨_, _, _, _, _, _, u, t, ended, rfl⟩
  · exact ⟨by rw [quiet.revisions]; exact known, by rw [same]⟩
  · obtain ⟨w, new, revisions, now, _, _, _, _, insert, _, hid, _, _, _, _, _, hdb⟩ :=
      recordWorkspaceRevision_eq_ok ended
    refine ⟨by rw [hdb]; exact Table.mem_of_insert? insert known, Function.update_of_ne ?_ _ _⟩
    intro same
    have clash := (Table.insert?_eq_some.1 insert).1 r known
    rw [rowClash_of_key ((Prod.mk.inj same).2.trans hid.symm)] at clash
    cases clash

/-- So does a whole run. -/
theorem Authoring.run_history {a : Store × Authors}
    (run : Relation.ReflTransGen (Authoring d π) ({}, fun _ => none) a) :
    Reachable d π a.1 ∧ a.1.db.History a.2 := by
  induction run with
  | refl => exact ⟨.refl, .initial⟩
  | tail _ last ih => exact ⟨ih.1.tail last.step, last.history ih.1 ih.2⟩

/-! ## The chain -/

/-- The revision was recorded on the last one of its workspace, while its attempt occupied the
workspace under the epoch. -/
def WasRecorded (d : Deployment) (π : Discipline) (a : Store × Authors) (r : RevisionRow) : Prop :=
  ∃ (b c : Store × Authors) (attemptId : Uuid) (epoch : Nat) (w : WorkspaceRow),
    Relation.ReflTransGen (Authoring d π) ({}, fun _ => none) b ∧ Authoring d π b c ∧
      Relation.ReflTransGen (Authoring d π) c a ∧
      b.1.db.workspace r.scopeId r.workspaceId = some w ∧ w.activeAttemptId = some attemptId ∧
      w.workspaceEpoch = epoch ∧ w.currentRevision = r.parentId ∧
      c.1.db.revisions.rows = b.1.db.revisions.rows ++ [r] ∧
      a.2 (r.scopeId, r.id) = some (attemptId, epoch)

/-- So was every revision. -/
theorem Authoring.wasRecorded {a : Store × Authors}
    (run : Relation.ReflTransGen (Authoring d π) ({}, fun _ => none) a) :
    ∀ r ∈ a.1.db.revisions, WasRecorded d π a r := by
  induction run with
  | refl => exact fun r hr => absurd hr (Table.not_mem_empty r)
  | @tail b c before last ih =>
      intro r hr
      have old : r ∈ b.1.db.revisions → WasRecorded d π c r := by
        intro known
        obtain ⟨b', c', attemptId, epoch, w, run, st, rest, workspace, active, hepoch, parent, rows,
          author⟩ := ih r known
        exact ⟨b', c', attemptId, epoch, w, run, st, rest.tail last, workspace, active, hepoch,
          parent, rows, (last.stays known).2.trans author⟩
      rcases last.step_cases with ⟨quiet, -⟩ | ⟨_, _, _, _, _, _, u, t, ended, rfl⟩
      · rw [quiet.revisions] at hr
        exact old hr
      · obtain ⟨w, new, revisions, now, workspace, active, hepoch, _, insert, hscope, hid, hworkspace,
          parent, _, _, _, hdb⟩ := recordWorkspaceRevision_eq_ok ended
        have added : t.db.revisions = revisions := by rw [hdb]
        rw [added, Table.mem_insert? insert] at hr
        rcases hr with known | rfl
        · exact old known
        · refine ⟨b, _, _, _, w, before, last, .refl, ?_, active, hepoch, parent.symm, ?_, ?_⟩
          · rw [hscope, hworkspace]
            exact workspace
          · rw [added]
            exact (Table.insert?_eq_some.1 insert).2
          · rw [hscope, hid]
            exact Function.update_self ..

/-- The revisions of a workspace are one chain from one without parent to the one the workspace
points at, and its attempts follow each other in it. -/
structure Db.Chain (db : Db) (v : Authors) (w : WorkspaceRow) (l : List RevisionRow) : Prop where
  linked : Linked RevisionRow.id RevisionRow.parentId l w.currentRevision
  distinct : (l.map RevisionRow.id).Nodup
  complete : ∀ r, r ∈ l ↔ r ∈ db.revisions ∧ r.scopeId = w.scopeId ∧ r.workspaceId = w.id
  author : ∀ r ∈ l, ∃ a ∈ db.attempts, a.OfWorkspace w ∧
    v (r.scopeId, r.id) = some (a.id, a.workspaceEpoch)
  order : l.Pairwise fun r r' => v (r.scopeId, r.id) = v (r'.scopeId, r'.id) ∨
    ∃ a a', v (r.scopeId, r.id) = some a ∧ v (r'.scopeId, r'.id) = some a' ∧ a.2 < a'.2
  contiguous : ∀ r r' r'', [r, r', r''].Sublist l →
    v (r.scopeId, r.id) = v (r''.scopeId, r''.id) → v (r'.scopeId, r'.id) = v (r.scopeId, r.id)

theorem Db.History.chain {v : Authors} (h : s.db.History v) {w : WorkspaceRow}
    (hw : w ∈ s.db.workspaces) : s.db.Chain v w (s.db.revisionsOf (w.scopeId, w.id)) := by
  have complete : ∀ r, r ∈ s.db.revisionsOf (w.scopeId, w.id) ↔
      r ∈ s.db.revisions ∧ r.scopeId = w.scopeId ∧ r.workspaceId = w.id := by
    intro r
    rw [Db.mem_revisionsOf, Prod.mk.injEq]
  have author : ∀ r ∈ s.db.revisionsOf (w.scopeId, w.id), ∃ a ∈ s.db.attempts, a.OfWorkspace w ∧
      v (r.scopeId, r.id) = some (a.id, a.workspaceEpoch) := by
    intro r hr
    obtain ⟨known, scope, id⟩ := (complete r).1 hr
    obtain ⟨attempt, g, hauthor, grant, resource⟩ := h.author r known
    obtain ⟨a, ha, hkey, rfl⟩ := Db.lease_grant_eq_some.1 grant
    obtain ⟨-, rfl⟩ := Prod.mk.inj hkey
    obtain ⟨scope', id'⟩ := Prod.mk.inj resource
    exact ⟨a, ha, ⟨scope'.trans scope, id'.trans id⟩, hauthor⟩
  have order : (s.db.revisionsOf (w.scopeId, w.id)).Pairwise fun r r' =>
      v (r.scopeId, r.id) = v (r'.scopeId, r'.id) ∨
        ∃ a a', v (r.scopeId, r.id) = some a ∧ v (r'.scopeId, r'.id) = some a' ∧ a.2 < a'.2 := by
    refine (h.order _).imp_of_mem fun {r r'} hr hr' le => ?_
    obtain ⟨a, ha, home, known⟩ := author r hr
    obtain ⟨a', ha', home', known'⟩ := author r' hr'
    rcases Nat.lt_or_eq_of_le (le _ _ known known') with lt | eq
    · exact .inr ⟨_, _, known, known', lt⟩
    · -- an epoch on the workspace has one attempt
      have one : a = a' := by
        refine Table.eq_of_clash ha ha' ?_
        have epochs : a.workspaceEpoch = a'.workspaceEpoch := eq
        simp [rowClash, Entity.clash, Entity.ident, home.1, home.2, home'.1, home'.2, epochs]
      exact .inl (by rw [known, known', one])
  refine ⟨h.linked _ _ (Table.view_of_mem hw _), ?_, complete, author, order, ?_⟩
  · rw [List.Nodup, List.pairwise_map]
    refine (s.db.revisions.distinct.sublist List.filter_sublist).imp fun {r r'} clash same => ?_
    rw [rowClash_of_key same] at clash
    cases clash
  · intro r r' r'' between same
    have ranked : (s.db.revisionsOf (w.scopeId, w.id)).Pairwise fun r r' =>
        v (r.scopeId, r.id) = v (r'.scopeId, r'.id) ∨
          ((v (r.scopeId, r.id)).map Prod.snd).getD 0 <
            ((v (r'.scopeId, r'.id)).map Prod.snd).getD 0 := by
      refine order.imp fun {r r'} h => h.imp id ?_
      rintro ⟨a, a', known, known', lt⟩
      rw [known, known']
      exact lt
    exact contiguous_of_pairwise ranked (fun _ _ _ _ eq => by rw [eq]) between same

/-- In every run, the revisions of every workspace are one chain, every revision was recorded while
its attempt occupied the workspace, and calls of a stale attempt or epoch record none. -/
theorem Authoring.chained {v : Authors}
    (run : Relation.ReflTransGen (Authoring d π) ({}, fun _ => none) (s, v)) :
    (∀ w ∈ s.db.workspaces, s.db.Chain v w (s.db.revisionsOf (w.scopeId, w.id))) ∧
      (∀ r ∈ s.db.revisions, WasRecorded d π (s, v) r) ∧
      ∀ scopeId workspaceId attemptId epoch,
        (∀ w, s.db.workspace scopeId workspaceId = some w →
          w.activeAttemptId ≠ some attemptId ∨ w.workspaceEpoch ≠ epoch) →
        ∀ commit actor, ∃ e t,
          recordWorkspaceRevision d scopeId workspaceId attemptId epoch commit actor s =
            .error e t ∧ t.db = s.db :=
  ⟨fun _ hw => (Authoring.run_history run).2.chain hw, Authoring.wasRecorded run,
    fun _ _ _ _ stale commit actor => recordWorkspaceRevision_stale stale commit actor⟩

/-- The authors after calls. -/
def Op.authorAll (d : Deployment) : List Op → Store → Authors → Authors
  | [], _, v => v
  | op :: ops, s, v => authorAll d ops (op.exec d s) (op.author d s v)

theorem Authoring.execAll {ops : List Op} {v : Authors} (obeys : ∀ op ∈ ops, op.Obeys π) :
    Relation.ReflTransGen (Authoring d π) (s, v)
      (Op.execAll d ops s, Op.authorAll d ops s v) := by
  induction ops generalizing s v with
  | nil => exact .refl
  | cons op ops ih =>
      exact .head (.call op (obeys op (.head _))) (ih fun o ho => obeys o (.tail _ ho))

/-- A run records two revisions. -/
def Op.recordedTwice : List Op :=
  Op.firstClaim ++
    [.recordWorkspaceRevision "ada" ⟨1⟩ ⟨4⟩ 1 ⟨"r1", "d1", "m1", "t1"⟩ "w1",
      .recordWorkspaceRevision "ada" ⟨1⟩ ⟨4⟩ 1 ⟨"r2", "d2", "m2", "t2"⟩ "w1"]

theorem Authoring.chained_recordedTwice :
    let s := Op.execAll .plain Op.recordedTwice {}
    let v := Op.authorAll .plain Op.recordedTwice {} fun _ => none
    s.db.revisions.rows.map (fun r => (r.id, r.parentId)) = [("r1", none), ("r2", some "r1")] ∧
      (∃ w ∈ s.db.workspaces, w.currentRevision = some "r2" ∧
        s.db.Chain v w (s.db.revisionsOf (w.scopeId, w.id))) ∧
      ∀ r ∈ s.db.revisions, WasRecorded .plain {} (s, v) r := by
  have run := Authoring.execAll (d := .plain) (π := {}) (s := {}) (v := fun _ => none)
    fun op (_ : op ∈ Op.recordedTwice) => op.obeys_default
  obtain ⟨chains, recorded, -⟩ := Authoring.chained run
  refine ⟨by decide +kernel, ?_, recorded⟩
  have tip : ((Op.execAll .plain Op.recordedTwice {}).db.workspace "ada" ⟨1⟩).map
      WorkspaceRow.currentRevision = some (some "r2") := by decide +kernel
  obtain ⟨w, known, current⟩ := Option.map_eq_some_iff.1 tip
  have hw := (Db.workspace_eq_some.1 known).1
  exact ⟨w, hw, current, chains w hw⟩

end CodeForge
