import CodeForge.Workspace.Evidence

/-!
# Published files and the current revision

The published tree of a workspace without a project is written by a commit, and
the current revision of the workspace by the call that records it.  Nothing takes
the files back if that call is refused, or is never made.

`Orderly` says what a run has to keep to: commits can be published, each is
recorded before the next of its workspace, on behalf of the attempt that still
holds it, and the process is not killed in between.  Then the published tree has
the manifest of the current revision whenever no commit of the workspace waits
for its row (`orderly_settled`).
-/

namespace CodeForge

open Lib Files

variable (S : Setting)

/-! ## What is claimed of a workspace -/

/-- The published tree is that of the current revision, or has no files if there is none. -/
def World.Settled (w : World) (row : WorkspaceRow) : Prop :=
  match row.currentRevision with
  | none => ∀ p, (manifest S.deployment.sha256 (w.published row.id)).lookup p = none
  | some revisionId => ∃ r ∈ w.store.db.revisions, r.id = revisionId ∧
      (r.scopeId, r.workspaceId) = (row.scopeId, row.id) ∧
      ∃ members, manifestMembers (manifest S.deployment.sha256 (w.published row.id)) =
          some members ∧
        r.manifestDigest = S.deployment.sha256 (utf8 (manifestJson members 1).spaced)

/-- A commit of the workspace waits for its row. -/
def World.Waits (w : World) (id : Uuid) : Prop := ∃ c ∈ w.pending, c.home = .unbound id

/-- Every workspace without a project is settled, unless a commit of it waits. -/
def World.AllSettled (w : World) : Prop :=
  ∀ row ∈ w.store.db.workspaces, row.projectPath = "" → ¬ w.Waits row.id → w.Settled S row

/-- The projects of users have paths. -/
def Discipline.paths : Discipline where
  binding _ b := b.projectPath ≠ ""

/-- What a run has to keep to. -/
def Orderly (w : World) : Action → Prop
  | .commit id attempt _ _ => (∃ row ∈ w.store.db.workspaces, row.id = id) ∧ ¬ w.Waits id ∧
      Publishable (w.published id) attempt
  | .commitProject _ _ _ => True
  | .record c scopeId workspaceId attemptId epoch _ =>
      match c.home with
      | .unbound id => id = workspaceId ∧
          (∃ row, w.store.db.workspace scopeId workspaceId = some row ∧
            row.activeAttemptId = some attemptId ∧ row.workspaceEpoch = epoch ∧
            row.leaseExpired (S.deployment.clock w.store.ticks) = false) ∧
          ∀ r ∈ w.store.db.revisions, r.id ≠ c.revisionId
      | .bound _ => ∀ row, w.store.db.workspace scopeId workspaceId = some row →
          row.projectPath ≠ ""
  | .call op => op.Obeys .paths
  | .crash => ∀ id, ¬ w.Waits id

/-- One action in order. -/
def OrderlyStep (a b : World) : Prop :=
  ∃ action, a.Possible action ∧ Orderly S a action ∧ b = a.act S action

/-- Nothing was published, committed or recorded yet. -/
structure World.Empty (w : World) : Prop where
  workspaces : w.store.db.workspaces.rows = []
  pending : w.pending = []
  published : ∀ id, w.published id = .empty

/-! ## Rows of workspaces -/

variable {S} {d : Deployment} {s : Store} {w w' : World}

/-- A workspace with a project keeps one. -/
theorem Changes.keepsProject {files : Files} {drawn : Nat} {db db' : Db} {k : Key}
    {columns : UserBinding} (h : Changes d .paths files drawn db db')
    (known : db.bindings k = some columns) (path : columns.projectPath ≠ "") :
    ∃ columns, db'.bindings k = some columns ∧ columns.projectPath ≠ "" := by
  refine h.preserves (I := fun _ _ db => ∃ columns, db.bindings k = some columns ∧
    columns.projectPath ≠ "") (fun c bound => ?_) ⟨columns, known, path⟩
  obtain ⟨columns, known, path⟩ := bound
  rcases c.workspace_binding known with same | ⟨b, allowed, -, bound⟩
  · exact ⟨columns, same, path⟩
  · exact ⟨b.storedColumns, bound, allowed⟩

/-- What a call that records nothing leaves of the workspaces without a project: each was there,
with the same revision, or is new and has none. -/
theorem Op.exec_unbound {op : Op} (other : op.records = false) (obeys : op.Obeys .paths)
    {row : WorkspaceRow} (there : row ∈ (op.exec d s).db.workspaces) (path : row.projectPath = "") :
    (∃ old ∈ s.db.workspaces, (old.scopeId, old.id) = (row.scopeId, row.id) ∧
      old.projectPath = "" ∧ old.currentRevision = row.currentRevision) ∨
    (∀ old ∈ s.db.workspaces, old.id ≠ row.id) ∧ row.currentRevision = none := by
  have quiet : s.db.Quiet (op.exec d s).db := Op.exec_quiet other
  have known : (op.exec d s).db.tips (row.scopeId, row.id) = some row.currentRevision :=
    Table.view_of_mem there WorkspaceRow.currentRevision
  rcases quiet.tips _ _ known with old | ⟨fresh, new⟩
  · obtain ⟨old, hold, key, tip⟩ := Table.view_eq_some.1 old
    refine .inl ⟨old, hold, key, ?_, tip⟩
    by_contra bound
    have before : s.db.bindings (row.scopeId, row.id) = some old.bindingColumns :=
      Table.view_eq_some.2 ⟨old, hold, key, rfl⟩
    obtain ⟨columns, after, still⟩ :=
      (Op.exec_changes d .paths op obeys s).keepsProject before bound
    have now : (op.exec d s).db.bindings (row.scopeId, row.id) = some row.bindingColumns :=
      Table.view_of_mem there WorkspaceRow.bindingColumns
    rw [now] at after
    cases after
    exact still path
  · refine .inr ⟨fun old hold same => ?_, new⟩
    obtain ⟨later, hlater, key, -⟩ :=
      Table.view_eq_some.1 (quiet.stay _ _ (Table.view_of_mem hold WorkspaceRow.currentRevision))
    have id : rowKey later = rowKey row := (Prod.mk.inj key).2.trans same
    have one := Table.eq_of_key hlater there id
    have here : (rowScope old, rowKey old) = (row.scopeId, row.id) := by
      rw [← key, one]
      rfl
    have tip : s.db.tips (row.scopeId, row.id) = some old.currentRevision :=
      Table.view_eq_some.2 ⟨old, hold, here, rfl⟩
    rw [fresh] at tip
    cases tip

/-- A workspace stays. -/
theorem Op.exec_stays {op : Op} (other : op.records = false) {row : WorkspaceRow}
    (there : row ∈ s.db.workspaces) : ∃ later ∈ (op.exec d s).db.workspaces, later.id = row.id := by
  have quiet : s.db.Quiet (op.exec d s).db := Op.exec_quiet other
  obtain ⟨later, hlater, key, -⟩ :=
    Table.view_eq_some.1 (quiet.stay _ _ (Table.view_of_mem there WorkspaceRow.currentRevision))
  exact ⟨later, hlater, (Prod.mk.inj key).2⟩

/-! ## Orderly steps -/

/-- All is settled, what waits is published, and nothing is where no workspace is. -/
structure World.InOrder (S : Setting) (w : World) : Prop where
  settled : w.AllSettled S
  waiting : ∀ c ∈ w.pending, ∀ id, c.home = .unbound id →
    (∃ row ∈ w.store.db.workspaces, row.id = id) ∧
    ∃ members, manifestMembers (manifest S.deployment.sha256 (w.published id)) = some members ∧
      c.manifestDigest = S.deployment.sha256 (utf8 (manifestJson members 1).spaced)
  nothing : ∀ id, (∀ row ∈ w.store.db.workspaces, row.id ≠ id) →
    ∀ p, (manifest S.deployment.sha256 (w.published id)).lookup p = none

/-- A workspace is settled if it was, where its tree and the rows of revisions are the same. -/
theorem World.Settled.frame {row old : WorkspaceRow} (h : w.Settled S old)
    (key : (old.scopeId, old.id) = (row.scopeId, row.id))
    (tip : old.currentRevision = row.currentRevision)
    (published : w'.published old.id = w.published old.id)
    (revisions : ∀ r ∈ w.store.db.revisions, r ∈ w'.store.db.revisions) : w'.Settled S row := by
  have id : old.id = row.id := (Prod.mk.inj key).2
  rw [Settled, tip] at h
  rw [Settled, ← id, published]
  cases current : row.currentRevision with
  | none =>
      rw [current] at h
      exact h
  | some revisionId =>
      rw [current] at h
      obtain ⟨r, hr, named, home, same⟩ := h
      refine ⟨r, revisions r hr, named, ?_, same⟩
      rw [home, key, id]

/-- A commit is published. -/
theorem World.InOrder.commit (h : w.InOrder S) {id : Uuid} {attempt left : FileTree Name}
    {revisionId : String} (orderly : Orderly S w (.commit id attempt revisionId left)) :
    (w.act S (.commit id attempt revisionId left)).InOrder S := by
  obtain ⟨⟨home, hhome, same⟩, still, publishable⟩ := orderly
  obtain ⟨r, done⟩ := publishable.goes S.deployment.sha256 S.le revisionId
  have done : w.attempted S id attempt revisionId = some r := done
  rw [act, done]
  dsimp only
  refine ⟨fun row hrow path waits => ?_, fun c hc id' home' => ?_, fun id' absent => ?_⟩
  · have other : row.id ≠ id := by
      rintro rfl
      exact waits ⟨_, List.mem_append_right _ (List.mem_singleton_self _), rfl⟩
    refine (h.settled row hrow path ?_).frame rfl rfl (Function.update_of_ne other _ _)
      fun _ hr => hr
    rintro ⟨c, hc, place⟩
    exact waits ⟨c, List.mem_append_left _ hc, place⟩
  · rcases List.mem_append.1 hc with hc | hc
    · obtain ⟨there, members, written, digest⟩ := h.waiting c hc id' home'
      have other : id' ≠ id := fun same => still ⟨c, hc, same ▸ home'⟩
      refine ⟨there, members, ?_, digest⟩
      dsimp only
      rw [Function.update_of_ne other]
      exact written
    · cases List.mem_singleton.1 hc
      cases home'
      obtain ⟨-, -, members, written, -, digest⟩ := commitAttempt_manifest done
      have files : Same (manifest S.deployment.sha256 attempt)
          (manifest S.deployment.sha256 r.current) :=
        fun p => (commitAttempt_publishes done publishable.clear p).symm
      obtain ⟨members', written'⟩ := Option.isSome_iff_exists.1
        (files.named manifest_nodup manifest_nodup (by rw [written]; rfl))
      refine ⟨⟨home, hhome, same⟩, members', ?_, ?_⟩
      · dsimp only
        rw [Function.update_self]
        exact written'
      · have text := files.text manifest_nodup manifest_nodup written written' ", " ": " 1
        rw [Json.spaced, ← text]
        exact digest
  · have other : id' ≠ id := by
      rintro rfl
      exact absent home hhome same
    dsimp only
    rw [Function.update_of_ne other]
    exact h.nothing id' absent

/-- A commit of a project changes no published tree. -/
theorem World.InOrder.commitProject (h : w.InOrder S) {path : String} {project : FileTree Name}
    {revisionId : String} : (w.act S (.commitProject path project revisionId)).InOrder S := by
  rw [act]
  cases w.attemptedProject S path project revisionId with
  | mk m result =>
      cases result with
      | error e =>
          refine ⟨fun row hrow none waits => ?_, h.waiting, h.nothing⟩
          exact (h.settled row hrow none waits).frame rfl rfl rfl fun _ hr => hr
      | ok commit =>
          refine ⟨fun row hrow none waits => ?_, fun c hc id home => ?_, h.nothing⟩
          · refine (h.settled row hrow none ?_).frame rfl rfl rfl fun _ hr => hr
            rintro ⟨c, hc, place⟩
            exact waits ⟨c, List.mem_append_left _ hc, place⟩
          · rcases List.mem_append.1 hc with hc | hc
            · exact h.waiting c hc id home
            · cases List.mem_singleton.1 hc
              cases home

/-- Other calls change no published tree, and no current revision. -/
theorem World.InOrder.call (h : w.InOrder S) {op : Op} (other : op.records = false)
    (obeys : op.Obeys .paths) : (w.act S (.call op)).InOrder S := by
  rw [act]
  have revisions : (op.exec S.deployment w.store).db.revisions = w.store.db.revisions :=
    (Op.exec_quiet other : w.store.db.Quiet _).revisions
  refine ⟨fun row hrow path waits => ?_, fun c hc id home => ?_, fun id absent => ?_⟩
  · rcases Op.exec_unbound other obeys hrow path with ⟨old, hold, key, none, tip⟩ | ⟨absent, tip⟩
    · have id : old.id = row.id := (Prod.mk.inj key).2
      refine (h.settled old hold none (id ▸ waits)).frame key tip rfl fun r hr => ?_
      dsimp only
      rw [revisions]
      exact hr
    · rw [Settled, tip]
      exact h.nothing row.id absent
  · obtain ⟨⟨row, hrow, same⟩, published⟩ := h.waiting c hc id home
    obtain ⟨later, hlater, stays⟩ := Op.exec_stays other hrow
    exact ⟨⟨later, hlater, stays.trans same⟩, published⟩
  · refine h.nothing id fun row hrow same => ?_
    obtain ⟨later, hlater, stays⟩ := Op.exec_stays other hrow
    exact absent later hlater (stays.trans same)

/-- The rows of workspaces once a revision is recorded. -/
theorem mem_revised {workspaces : Table WorkspaceRow} {scopeId revisionId actor : String}
    {workspaceId : Uuid} {now : Timestamp} {row : WorkspaceRow}
    (there : row ∈ workspaces.updateIn scopeId workspaceId
      (fun v => v.revise revisionId now actor)) :
    ∃ old ∈ workspaces, (old.scopeId, old.id) = (row.scopeId, row.id) ∧
      old.projectPath = row.projectPath ∧
      ((old.scopeId = scopeId ∧ old.id = workspaceId) ∧ row.currentRevision = some revisionId ∨
        ¬ (old.scopeId = scopeId ∧ old.id = workspaceId) ∧
          row.currentRevision = old.currentRevision) := by
  obtain ⟨old, hold, rfl⟩ := Table.mem_updateWhere.1 there
  refine ⟨old, hold, ?_⟩
  by_cases here : old.scopeId = scopeId ∧ old.id = workspaceId
  · rw [if_pos (by simpa [rowScope, rowKey] using here)]
    exact ⟨rfl, rfl, .inl ⟨here, rfl⟩⟩
  · rw [if_neg (by simpa [rowScope, rowKey] using here)]
    exact ⟨rfl, rfl, .inr ⟨here, rfl⟩⟩

/-- Nobody else waits once a commit is recorded. -/
theorem World.Waits.erase {c : Returned} {id : Uuid} {pending : List Returned}
    (still : ¬ ∃ c' ∈ pending.erase c, c'.home = .unbound id) (other : c.home ≠ .unbound id) :
    ¬ ∃ c' ∈ pending, c'.home = .unbound id := by
  rintro ⟨c', hc, home⟩
  refine still ⟨c', (List.mem_erase_of_ne ?_).2 hc, home⟩
  rintro rfl
  exact other home

/-- A commit of a project that cannot be recorded. -/
theorem World.InOrder.refused (h : w.InOrder S) {c : Returned} {t : Store}
    (same : t.db = w.store.db) (project : ∀ id, c.home ≠ .unbound id) :
    ({ w with store := t, pending := w.pending.erase c } : World).InOrder S := by
  refine ⟨fun row hrow none still => ?_, fun c' hc id home => ?_, fun id absent => ?_⟩
  · dsimp only at hrow
    rw [same] at hrow
    refine (h.settled row hrow none (Waits.erase still (project row.id))).frame rfl rfl rfl
      fun r hr => ?_
    dsimp only
    rw [same]
    exact hr
  · dsimp only
    rw [same]
    exact h.waiting c' (List.mem_of_mem_erase hc) id home
  · dsimp only at absent
    rw [same] at absent
    exact h.nothing id absent

/-- A commit is recorded, and the workspace is settled then. -/
theorem World.InOrder.recorded (h : w.InOrder S) {c : Returned} {scopeId : String}
    {workspaceId attemptId : Uuid} {epoch : Nat} {actor : String} {u : Unit} {t : Store}
    (waits : c ∈ w.pending)
    (orderly : Orderly S w (.record c scopeId workspaceId attemptId epoch actor))
    (ended : recordWorkspaceRevision S.deployment scopeId workspaceId attemptId epoch
      (c.toCommit S) actor w.store = .ok u t) (recorded : List Returned) :
    ({ w with store := t, pending := w.pending.erase c, recorded } : World).InOrder S := by
  rw [Orderly] at orderly
  obtain ⟨old, r, revisions, now, known, -, -, -, insert, scope, named, place, -, digest, -, -,
    db⟩ := recordWorkspaceRevision_eq_ok ended
  obtain ⟨hold, oldScope, oldId⟩ := Db.workspace_eq_some.1 known
  have older : ∀ r ∈ w.store.db.revisions, r ∈ t.db.revisions := by
    rw [db]
    exact fun r hr => Table.mem_of_insert? insert hr
  have stays : ∀ row ∈ w.store.db.workspaces, ∃ later ∈ t.db.workspaces, later.id = row.id := by
    intro row hrow
    rw [db]
    simp only [Table.updateIn, Table.mem_updateWhere]
    refine ⟨_, ⟨row, hrow, rfl⟩, ?_⟩
    split <;> rfl
  refine ⟨fun row hrow none still => ?_, fun c' hc id home => ?_, fun id absent => ?_⟩
  · dsimp only at hrow
    rw [db] at hrow
    obtain ⟨before, hbefore, key, path, ⟨⟨scope', id'⟩, tip⟩ | ⟨apart, tip⟩⟩ := mem_revised hrow
    · cases home : c.home with
      | bound path' =>
          rw [home] at orderly
          have one := Table.eq_of_key hold hbefore (oldId.trans id'.symm)
          exact absurd (one ▸ path.trans none) (orderly old known)
      | unbound id =>
          rw [home] at orderly
          obtain ⟨rfl, -, -⟩ := orderly
          obtain ⟨-, members, written, digest'⟩ := h.waiting c waits id home
          have here : row.id = id := (Prod.mk.inj key).2.symm.trans id'
          rw [Settled, tip]
          refine ⟨r, ?_, named, ?_, members, ?_, digest.trans digest'⟩
          · dsimp only
            rw [db]
            exact Table.new_mem_insert? insert
          · rw [scope, place, ← key, scope', id']
          · rw [here]
            exact written
    · have id : before.id = row.id := (Prod.mk.inj key).2
      have other : c.home ≠ .unbound row.id := by
        intro home
        rw [home] at orderly
        have one := Table.eq_of_key hbefore hold ((id.trans orderly.1).trans oldId.symm)
        exact apart ⟨one ▸ oldScope, one ▸ oldId⟩
      refine (h.settled before hbefore (path.trans none) ?_).frame key tip.symm rfl older
      rw [id]
      exact Waits.erase still other
  · obtain ⟨⟨row, hrow, same⟩, published⟩ := h.waiting c' (List.mem_of_mem_erase hc) id home
    obtain ⟨later, hlater, still⟩ := stays row hrow
    exact ⟨⟨later, hlater, still.trans same⟩, published⟩
  · refine h.nothing id fun row hrow same => ?_
    obtain ⟨later, hlater, still⟩ := stays row hrow
    exact absent later hlater (still.trans same)

theorem World.InOrder.record (h : w.InOrder S) {c : Returned} {scopeId : String}
    {workspaceId attemptId : Uuid} {epoch : Nat} {actor : String} (waits : c ∈ w.pending)
    (orderly : Orderly S w (.record c scopeId workspaceId attemptId epoch actor)) :
    (w.act S (.record c scopeId workspaceId attemptId epoch actor)).InOrder S := by
  rw [act]
  cases ended : recordWorkspaceRevision S.deployment scopeId workspaceId attemptId epoch
      (c.toCommit S) actor w.store with
  | ok u t => exact h.recorded waits orderly ended _
  | error e t =>
      refine h.refused (recordWorkspaceRevision_error_db ended) fun id home => ?_
      rw [Orderly, home] at orderly
      obtain ⟨-, ⟨row, known, active, rfl, lease⟩, fresh⟩ := orderly
      have unused : ∀ r ∈ w.store.db.revisions, r.id ≠ (c.toCommit S).revisionId := fresh
      obtain ⟨t', done⟩ := recordWorkspaceRevision_goes known active lease unused actor
      cases ended.symm.trans done

/-- One action in order. -/
theorem World.InOrder.step (h : w.InOrder S) (st : OrderlyStep S w w') : w'.InOrder S := by
  obtain ⟨action, possible, orderly, rfl⟩ := st
  cases action with
  | commit => exact h.commit orderly
  | commitProject => exact h.commitProject
  | record => exact h.record possible orderly
  | call op => exact h.call possible orderly
  | crash =>
      refine ⟨fun row hrow none _ => ?_, fun c hc _ _ => ?_, h.nothing⟩
      · exact (h.settled row hrow none (orderly row.id)).frame rfl rfl rfl fun _ hr => hr
      · cases hc

/-- **Files are never ahead of the current revision** in a run that is in order: every workspace
without a project that has no commit waiting is settled. -/
theorem World.Empty.orderly_settled (empty : w.Empty)
    (run : Relation.ReflTransGen (OrderlyStep S) w w') : w'.AllSettled S := by
  have order : w'.InOrder S := by
    induction run with
    | refl =>
        refine ⟨fun row hrow => ?_, fun c hc => ?_, fun id _ p => ?_⟩
        · rw [Table.mem_def, empty.workspaces] at hrow
          cases hrow
        · rw [empty.pending] at hc
          cases hc
        · rw [empty.published]
          rfl
    | tail _ st ih => exact ih.step st
  exact order.settled

/-! ## A commit that is refused -/

/-- An attempt is published where there is nothing. -/
theorem publishable_empty {attempt : FileTree Name} {sha256 : List UInt8 → String}
    (named : (manifestMembers (manifest sha256 attempt)).isSome = true)
    (head : ∀ f ∈ attempt.files, f.1.head? ≠ some manifestName) :
    Publishable .empty attempt := by
  have nothing : ∀ p c, attempt.fileAt p = some c →
      (FileTree.empty : FileTree Name).get p = none := by
    intro p c file
    refine FileTree.get_empty ?_
    rintro rfl
    rw [FileTree.fileAt, FileTree.get_nil] at file
    cases file
  refine ⟨fun p c file _ => ?_, fun p c file inside => ?_, fun p c file _ => ?_,
    fun p c _ _ q _ _ c' there => ?_, ?_⟩
  · rw [nothing p c file]
    exact (Option.some_ne_none _).symm
  · have listed : p ∈ (manifest sha256 attempt).map Prod.fst := mem_manifest.2 ⟨inside, c, file⟩
    obtain ⟨f, hf, rfl⟩ := List.mem_map.1 listed
    exact manifestMembers_isSome.1 named f hf
  · exact head (p, c) (FileTree.mem_files.2 file)
  · by_cases top : q = []
    · rw [top, FileTree.fileAt, FileTree.get_nil] at there
      cases there
    · rw [FileTree.fileAt, FileTree.get_empty top] at there
      cases there
  · rw [FileTree.get_empty (List.cons_ne_nil _ _)]
    exact (Option.some_ne_none _).symm

/-- Calls in order, one after the other. -/
theorem World.calls {ops : List Op} (obey : ∀ op ∈ ops, op.records = false ∧ op.Obeys .paths)
    (w : World) : Relation.ReflTransGen (OrderlyStep S) w
      { w with store := Op.execAll S.deployment ops w.store } := by
  induction ops generalizing w with
  | nil => exact .refl
  | cons op ops ih =>
      obtain ⟨other, obeys⟩ := obey op (List.mem_cons_self ..)
      exact .head ⟨.call op, other, obeys, rfl⟩
        (ih (fun op' hop => obey op' (List.mem_cons_of_mem _ hop)) (w.act S (.call op)))

/-- Nothing happened yet. -/
def World.untouched : World where
  store := {}
  published _ := .empty
  projects _ := .empty
  pending := []
  recorded := []

theorem World.untouched_empty : World.untouched.Empty := ⟨rfl, rfl, fun _ => rfl⟩

/-- A session without a project, and a worker that claims its run. -/
private theorem claiming_obeys : ∀ op ∈ Op.legacySend ++ [.claimAny],
    op.records = false ∧ op.Obeys .paths := by
  intro op hop
  simp only [Op.legacySend, List.cons_append, List.nil_append, List.mem_cons,
    List.not_mem_nil, or_false] at hop
  rcases hop with rfl | rfl | rfl
  · exact ⟨rfl, fun b bound => by cases bound⟩
  · exact ⟨rfl, fun _ => trivial⟩
  · exact ⟨rfl, trivial⟩

private def summary : Name := .text "summary" (by decide)

/-- A summary is written. -/
private def summarised : FileTree Name := .build [([summary], .file [1])]

private theorem summarised_publishable : Publishable .empty summarised := by
  have facts : (manifestMembers (manifest plainDigest summarised)).isSome = true ∧
      ∀ f ∈ summarised.files, f.1.head? ≠ some manifestName := by decide +kernel
  exact publishable_empty facts.1 facts.2

/-- A commit that is recorded in time is settled. -/
theorem World.orderly_settled_recorded : ∃ w : World,
    Relation.ReflTransGen (OrderlyStep .plain) .untouched w ∧ w.AllSettled .plain ∧
    w.pending = [] ∧ ∃ row ∈ w.store.db.workspaces,
      row.projectPath = "" ∧ row.currentRevision.isSome := by
  obtain ⟨fresh, -, row, known, active, epoch, lease⟩ := World.claimed_workspace
  have path : (World.claimed.store.db.workspace "ada" ⟨1⟩).map WorkspaceRow.projectPath =
      some "" := by decide +kernel
  rw [known, Option.map_some, Option.some_inj] at path
  have claim : Relation.ReflTransGen (OrderlyStep .plain) .untouched .claimed :=
    World.calls claiming_obeys .untouched
  obtain ⟨here, scope, named⟩ := Db.workspace_eq_some.1 known
  obtain ⟨r, done⟩ := summarised_publishable.goes plainDigest (fun _ _ => true) "r1"
  have done : World.claimed.attempted .plain ⟨1⟩ summarised "r1" = some r := done
  set c : Returned := .ofPublished .plain ⟨1⟩ summarised r.commit
  have unused : ∀ b ∈ World.claimed.store.db.revisions, b.id ≠ (c.toCommit .plain).revisionId := by
    intro b hb
    rw [Table.mem_def, fresh.revisions] at hb
    cases hb
  obtain ⟨t, recorded⟩ := recordWorkspaceRevision_goes known active lease unused "w1"
  rw [epoch] at recorded
  have commit : OrderlyStep .plain .claimed
      { World.claimed with
        published := Function.update World.claimed.published ⟨1⟩ r.current
        pending := [c] } := by
    refine ⟨.commit ⟨1⟩ summarised "r1" .empty, trivial,
      ⟨⟨row, here, named⟩, ?_, summarised_publishable⟩, ?_⟩
    · rintro ⟨c', hc', -⟩
      cases hc'
    · rw [World.act, done]
      rfl
  have record : OrderlyStep .plain
      { World.claimed with
        published := Function.update World.claimed.published ⟨1⟩ r.current
        pending := [c] }
      { World.claimed with
        store := t
        published := Function.update World.claimed.published ⟨1⟩ r.current
        pending := [c].erase c
        recorded := [c] } := by
    refine ⟨.record c "ada" ⟨1⟩ ⟨4⟩ 1 "w1", List.mem_singleton_self c,
      ⟨rfl, ⟨row, known, active, epoch, lease⟩, unused⟩, ?_⟩
    rw [World.act, recorded]
    rfl
  have run := (claim.tail commit).tail record
  refine ⟨_, run, World.untouched_empty.orderly_settled run, List.erase_cons_head .., ?_⟩
  obtain ⟨old, r', revisions, now, workspace, -, -, -, -, -, -, -, -, -, -, -, db⟩ :=
    recordWorkspaceRevision_eq_ok recorded
  cases known.symm.trans workspace
  dsimp only
  rw [db]
  simp only [Table.updateIn, Table.mem_updateWhere]
  have place : (rowScope row = "ada" && rowKey row = ⟨1⟩) = true := by
    simpa [rowScope, rowKey] using ⟨scope, named⟩
  refine ⟨_, ⟨row, here, rfl⟩, ?_, ?_⟩
  · rw [if_pos place]
    exact path
  · rw [if_pos place]
    rfl

/-- The workspaces of `Setting.plain`, where a tool works for longer than the lease. -/
def Setting.slow : Setting :=
  { Setting.plain with
    deployment := { Deployment.verbatim with
      clock := fun n =>
        if n < 4 then Deployment.verbatim.clock n else "2026-01-01T00:03:00.000000Z" } }

/-- The revision is refused, and the files are there. -/
theorem World.published_ahead : ∃ w : World,
    Relation.ReflTransGen (PossibleStep .slow) .untouched w ∧ w.pending = [] ∧
    ¬ w.AllSettled .slow := by
  set s : Store := Op.execAll Setting.slow.deployment (Op.legacySend ++ [.claimAny]) {}
  have facts : (s.db.workspace "ada" ⟨1⟩).map (fun row => (row.projectPath, row.currentRevision,
      row.leaseExpired (Setting.slow.deployment.clock s.ticks))) = some ("", none, true) := by
    decide +kernel
  have files : (manifest plainDigest summarised).lookup [summary] ≠ none := by decide +kernel
  have start : Relation.ReflTransGen (PossibleStep .slow) .untouched
      { World.untouched with store := s } := by
    refine (World.calls claiming_obeys .untouched).lift id fun a b st => ?_
    obtain ⟨action, possible, -, rfl⟩ := st
    exact ⟨action, possible, rfl⟩
  generalize s = s at facts start
  obtain ⟨row, known, columns⟩ := Option.map_eq_some_iff.1 facts
  simp only [Prod.mk.injEq] at columns
  obtain ⟨path, tip, expired⟩ := columns
  obtain ⟨here, -, named⟩ := Db.workspace_eq_some.1 known
  obtain ⟨r, done⟩ := summarised_publishable.goes plainDigest (fun _ _ => true) "r1"
  have published := commitAttempt_publishes done summarised_publishable.clear
  have done : ({ World.untouched with store := s } : World).attempted .slow ⟨1⟩ summarised "r1" =
      some r := done
  set c : Returned := .ofPublished .slow ⟨1⟩ summarised r.commit
  obtain ⟨e, t, refused, same⟩ := recordWorkspaceRevision_expired
    (fun row' known' => by cases known.symm.trans known'; exact expired) (c.toCommit .slow) "w1"
  have commit : PossibleStep .slow { World.untouched with store := s }
      { World.untouched with
        store := s
        published := Function.update World.untouched.published ⟨1⟩ r.current
        pending := [c] } := by
    refine ⟨.commit ⟨1⟩ summarised "r1" .empty, trivial, ?_⟩
    rw [World.act, done]
    rfl
  have record : PossibleStep .slow
      { World.untouched with
        store := s
        published := Function.update World.untouched.published ⟨1⟩ r.current
        pending := [c] }
      { World.untouched with
        store := t
        published := Function.update World.untouched.published ⟨1⟩ r.current
        pending := [c].erase c } := by
    refine ⟨.record c "ada" ⟨1⟩ ⟨4⟩ 1 "w1", List.mem_singleton_self c, ?_⟩
    rw [World.act, refused]
  refine ⟨_, (start.tail commit).tail record, List.erase_cons_head .., fun all => ?_⟩
  have settled := all row (by dsimp only; rw [same]; exact here) path (by
    rintro ⟨c', hc', -⟩
    rw [List.erase_cons_head] at hc'
    cases hc')
  rw [World.Settled, tip, named] at settled
  dsimp only at settled
  rw [Function.update_self] at settled
  exact files ((published [summary]).symm.trans (settled [summary]))

end CodeForge
