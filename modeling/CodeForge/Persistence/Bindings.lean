import CodeForge.Persistence.System

/-!
# What sessions and workspaces keep

A session keeps its workspace for good.  The seven columns a binding is stored in
change only when a binding of the same project is bound.  The attempts keep their
directory.
-/

namespace CodeForge

open Lib StoreM

/-- The columns a binding is stored in. -/
def WorkspaceRow.bindingColumns (w : WorkspaceRow) : UserBinding where
  scopeId := ""
  tenantRef := w.tenantRef
  userRef := w.userRef
  userPath := w.userPath
  projectRef := w.projectRef
  projectPath := w.projectPath
  storageRoot := w.storageRoot
  userRelPath := w.userRelPath
  projectRelPath := ""

/-- What of a binding is stored. -/
def UserBinding.storedColumns (b : UserBinding) : UserBinding :=
  { b with scopeId := "", projectRelPath := "" }

theorem WorkspaceRow.bound_iff {w : WorkspaceRow} {b : UserBinding} :
    w.Bound b ↔ w.bindingColumns = b.storedColumns := by
  constructor
  · rintro ⟨h₁, h₂, h₃, h₄, h₅, h₆, h₇⟩
    simp [bindingColumns, UserBinding.storedColumns, h₁, h₂, h₃, h₄, h₅, h₆, h₇]
  · intro h
    simp only [bindingColumns, UserBinding.storedColumns, UserBinding.mk.injEq, true_and,
      and_true] at h
    obtain ⟨h₁, h₂, h₃, h₄, h₅, h₆, h₇⟩ := h
    exact ⟨h₁, h₂, h₃, h₄, h₅, h₆, h₇⟩

/-- The binding columns of each workspace. -/
def Db.bindings (db : Db) : Key → Option UserBinding :=
  db.workspaces.view WorkspaceRow.bindingColumns

theorem Records.tables {d : Deployment} {f : Files} {db db' : Db} {r : RunRow}
    {s : SessionRow} {e : EventRow} (h : Records d f db r s e db') :
    db'.attempts = db.attempts ∧ db'.workspaces = db.workspaces ∧
      db'.sessions.view SessionRow.workspaceId = db.sessions.view SessionRow.workspaceId := by
  obtain ⟨events, now, actor, -, rfl⟩ := h.result
  refine ⟨rfl, rfl, ?_⟩
  simp only [Db.setEventSeqs]
  rw [Table.view_updateIn_same]
  intro s
  rfl

/-- A session keeps its workspace. -/
theorem Change.session_workspace {d : Deployment} {π : Discipline} {f : Files} {n : Nat}
    {db db' : Db} (h : Change d π f n db db') {k : Key} {id : Uuid}
    (hk : db.sessions.view SessionRow.workspaceId k = some id) :
    db'.sessions.view SessionRow.workspaceId k = some id := by
  cases h with
  | addWorkspace | rebind | revise | tools | pendings => exact hk
  | addSession known insert =>
      simp only [Table.view_insert? insert]
      rw [Function.update_of_ne, hk]
      rintro rfl
      rw [Table.view_of_insert? insert] at hk
      cases hk
  | accept known insert record event =>
      simp only [Db.setNextRunSeq]
      rw [Table.view_updateIn_same, record.tables.2.2]
      · exact hk
      · intro s
        rfl
  | claim run candidate claimable earlier insert record event =>
      rw [record.tables.2.2]
      simp only [Db.startAttempt, Db.startRun, Db.occupyWorkspace, Db.occupySession]
      rw [Table.view_updateIn_same]
      · exact hk
      · intro s
        rfl
  | move run change allowed extra_allowed record event =>
      split
      · simp only [Db.release]
        rw [Table.view_updateWhere_same, record.tables.2.2]
        · exact hk
        · intro s
          rfl
      · rw [record.tables.2.2]
        exact hk
  | note record allowed =>
      rw [record.tables.2.2]
      exact hk

/-- What a change does to the columns of bindings: nothing, a workspace is added, or
one is bound anew. -/
theorem Change.workspaces_binding {d : Deployment} {π : Discipline} {f : Files} {n : Nat}
    {db db' : Db} (h : Change d π f n db db') :
    db'.bindings = db.bindings ∨
      (∃ (k : Key) (w : WorkspaceRow), db.bindings k = none ∧
        (w.projectPath = "" ∨ ∃ b, π.binding k.1 b ∧ w.Bound b) ∧
        db'.bindings = Function.update db.bindings k (some w.bindingColumns)) ∨
      ∃ (k : Key) (old b : UserBinding), db.bindings k = some old ∧ π.binding k.1 b ∧
        b.projectRef = old.projectRef ∧
        db'.bindings = Function.update db.bindings k (some b.storedColumns) := by
  unfold Db.bindings
  cases h with
  | addSession | tools | pendings => exact .inl rfl
  | addWorkspace free bound insert =>
      exact .inr (.inl ⟨_, _, Table.view_of_insert? insert _ _, bound,
        Table.view_insert? insert _⟩)
  | @rebind scopeId w b now actor known project owner bound =>
      refine .inr (.inr ⟨(scopeId, w.id), _, b, Table.view_of_getIn known _, bound,
        project.symm, ?_⟩)
      rw [Table.view_updateIn_of known, WorkspaceRow.bound_iff.1
        (.of_rebind owner.1 owner.2 project now actor)]
  | revise =>
      left
      rw [Table.view_updateIn_same]
      intro w
      rfl
  | accept known insert record event =>
      left
      simp only [Db.setNextRunSeq]
      rw [record.tables.2.1]
  | claim run candidate claimable earlier insert record event =>
      left
      rw [record.tables.2.1]
      simp only [Db.startAttempt, Db.startRun, Db.occupyWorkspace, Db.occupySession]
      rw [Table.view_updateIn_same]
      intro w
      split <;> rfl
  | move run change allowed extra_allowed record event =>
      left
      split
      · simp only [Db.release]
        rw [Table.view_updateIn_same, record.tables.2.1]
        · rfl
        · intro w
          split <;> rfl
      · rw [record.tables.2.1]
        rfl
  | note record allowed =>
      left
      rw [record.tables.2.1]

/-- A workspace keeps the columns of its binding, until a binding of its project
is bound. -/
theorem Change.workspace_binding {d : Deployment} {π : Discipline} {f : Files} {n : Nat}
    {db db' : Db} (h : Change d π f n db db') {k : Key} {columns : UserBinding}
    (hk : db.bindings k = some columns) :
    db'.bindings k = some columns ∨
      ∃ b, π.binding k.1 b ∧ b.projectRef = columns.projectRef ∧
        db'.bindings k = some b.storedColumns := by
  rcases h.workspaces_binding with e | ⟨k', w, free, -, e⟩ | ⟨k', old, b, known, hb, project, e⟩
  · exact .inl (by rw [e, hk])
  · have hne : k ≠ k' := by
      rintro rfl
      rw [hk] at free
      cases free
    exact .inl (by rw [e, Function.update_of_ne hne, hk])
  · by_cases hkey : k = k'
    · subst hkey
      rw [hk] at known
      cases known
      exact .inr ⟨b, hb, project, by rw [e, Function.update_self]⟩
    · exact .inl (by rw [e, Function.update_of_ne hkey, hk])

theorem Db.projectWorkspace_eq_some {db : Db} {scopeId projectRef : String} {w : WorkspaceRow}
    (h : db.projectWorkspace scopeId projectRef = some w) :
    db.workspace scopeId w.id = some w ∧ w.projectRef = projectRef := by
  have found := List.find?_some h
  simp only [Bool.and_eq_true, decide_eq_true_eq] at found
  exact ⟨Db.workspace_eq_some.2 ⟨List.mem_of_find?_eq_some h, found.1, rfl⟩, found.2⟩

/-- The workspace of a new session is added, or found, and pointed elsewhere where it has other
paths. -/
theorem workspaceFor_row {d : Deployment} {scopeId : String} {binding : Option UserBinding}
    {now : Timestamp} {actor : String} {id : Uuid} {s t : Store}
    (h : workspaceFor d scopeId binding now actor s = .ok id t) :
    ∃ workspaces, t.db = { s.db with workspaces } ∧
      ((∃ w : WorkspaceRow, w.currentRevision = none ∧
          s.db.workspaces.insert? w = some workspaces) ∨
        ∃ b w, binding = some b ∧ s.db.projectWorkspace scopeId b.projectRef = some w ∧
          w.tenantRef = b.tenantRef ∧ w.userRef = b.userRef ∧
          workspaces = if w.hasPaths b then s.db.workspaces
            else s.db.workspaces.updateIn scopeId w.id (fun v => v.rebind b now actor)) := by
  have added : ∀ {w : WorkspaceRow} {u : Store}, insertWorkspace w u = .ok id t → u.db = s.db →
      w.currentRevision = none → ∃ workspaces, t.db = { s.db with workspaces } ∧
        ∃ w : WorkspaceRow, w.currentRevision = none ∧
          s.db.workspaces.insert? w = some workspaces := by
    intro w u h unchanged fresh
    obtain ⟨workspaces, insert, -, rfl⟩ := insertWorkspace_eq_ok.1 h
    rw [unchanged] at insert
    exact ⟨workspaces, by rw [unchanged], w, fresh, insert⟩
  cases binding with
  | none =>
      obtain ⟨workspaces, hdb, new⟩ := added (uuid4_bind_eq_ok.1 h) rfl rfl
      exact ⟨workspaces, hdb, .inl new⟩
  | some b =>
      simp only [workspaceFor, getDb_bind_eq_ok] at h
      cases found : s.db.projectWorkspace scopeId b.projectRef with
      | none =>
          simp only [found] at h
          obtain ⟨workspaces, hdb, new⟩ := added (uuid4_bind_eq_ok.1 h) rfl rfl
          exact ⟨workspaces, hdb, .inl new⟩
      | some w =>
          simp only [found, ensure_bind_eq_ok, Bool.and_eq_true, decide_eq_true_eq] at h
          obtain ⟨owner, h⟩ := h
          obtain ⟨u, s₁, rebound, h⟩ := bind_eq_ok.1 h
          obtain ⟨-, rfl⟩ := pure_eq_ok.1 h
          refine ⟨_, ?_, .inr ⟨b, w, rfl, found, owner.1, owner.2, rfl⟩⟩
          unfold rebindWorkspace at rebound
          split at rebound
          next same =>
            obtain ⟨-, rfl⟩ := pure_eq_ok.1 rebound
            rw [if_pos same]
          next moved =>
            rw [modifyDb_eq_ok] at rebound
            rw [rebound, if_neg moved]

/-- The workspaces there are keep their columns, but for one that is pointed elsewhere. -/
theorem workspaceFor_bindings {d : Deployment} {scopeId : String} {binding : Option UserBinding}
    {now : Timestamp} {actor : String} {id : Uuid} {s t : Store}
    (h : workspaceFor d scopeId binding now actor s = .ok id t) {k : Key} {columns : UserBinding}
    (known : s.db.bindings k = some columns) :
    t.db.bindings k = some columns ∨
      ∃ b w, binding = some b ∧ s.db.projectWorkspace scopeId b.projectRef = some w ∧
        w.tenantRef = b.tenantRef ∧ w.userRef = b.userRef ∧ w.hasPaths b = false ∧
        k = (scopeId, w.id) ∧ t.db.bindings k = some b.storedColumns := by
  obtain ⟨workspaces, hdb, ⟨w, -, insert⟩ | ⟨b, w, hb, found, tenant, user, rfl⟩⟩ :=
    workspaceFor_row h
  · left
    rw [hdb, Db.bindings, Table.view_insert? insert, Function.update_of_ne]
    · exact known
    · rintro rfl
      rw [Db.bindings, Table.view_of_insert? insert] at known
      cases known
  · rw [hdb]
    split
    next => exact .inl known
    next moved =>
      obtain ⟨row, project⟩ := Db.projectWorkspace_eq_some found
      rw [Db.bindings, Table.view_updateIn_of row,
        WorkspaceRow.bound_iff.1 (.of_rebind tenant user project now actor)]
      by_cases mine : k = (scopeId, w.id)
      · refine .inr ⟨b, w, hb, found, tenant, user, Bool.eq_false_of_not_eq_true moved, mine, ?_⟩
        rw [mine, Function.update_self]
      · rw [Function.update_of_ne mine]
        exact .inl known

/-- The place of an attempt: its workspace and its directory. -/
def Db.places (db : Db) : Key → Option (Uuid × String) :=
  db.attempts.view fun a => (a.workspaceId, a.workingDirectoryRef)

/-- What a change does to the places of attempts: nothing, or an attempt is made in
the directory of its workspace. -/
theorem Change.places {d : Deployment} {π : Discipline} {f : Files} {n : Nat} {db db' : Db}
    (h : Change d π f n db db') :
    db'.places = db.places ∨ ∃ (k : Key) (w : WorkspaceRow), db.workspace k.1 w.id = some w ∧
      db'.places = Function.update db.places k (some (w.id, w.projectPath)) := by
  unfold Db.places
  cases h with
  | addWorkspace | rebind | revise | addSession | tools | pendings => exact .inl rfl
  | accept known insert record event =>
      left
      simp only [Db.setNextRunSeq]
      rw [record.tables.1]
  | @claim _ c _ _ _ id _ _ _ _ _ _ _ run candidate claimable earlier insert record event =>
      right
      obtain ⟨-, hsession, hworkspace⟩ := Db.candidate_eq_some.1 candidate
      obtain ⟨hmem, hscope, hid⟩ := Db.workspace_eq_some.1 hworkspace
      have hrun : c.session.scopeId = c.run.scopeId := (Db.session_eq_some.1 hsession).2.1
      refine ⟨(c.run.scopeId, id), c.workspace,
        Db.workspace_eq_some.2 ⟨hmem, hscope.trans hrun, rfl⟩, ?_⟩
      rw [record.tables.1, hid]
      exact Table.view_insert? insert _
  | move run change allowed extra_allowed record event =>
      left
      split
      · simp only [Db.release]
        rw [Table.view_updateWhere_same, record.tables.1]
        · rfl
        · intro a
          rfl
      · rw [record.tables.1]
        rfl
  | note record allowed =>
      left
      rw [record.tables.1]

/-- The workspaces with a directory stand for bindings their callers were allowed. -/
def Db.BoundBy (π : Discipline) (db : Db) : Prop :=
  ∀ k columns, db.bindings k = some columns →
    columns.projectPath = "" ∨ ∃ b, π.binding k.1 b ∧ columns = b.storedColumns

theorem Change.boundBy {d : Deployment} {π : Discipline} {f : Files} {n : Nat} {db db' : Db}
    (h : Change d π f n db db') (hdb : db.BoundBy π) : db'.BoundBy π := by
  intro k columns hk
  rcases h.workspaces_binding with e | ⟨k', w, -, bound, e⟩ | ⟨k', old, b, -, hb, -, e⟩
  · exact hdb k columns (by rw [← e, hk])
  · rw [e, Function.update_apply] at hk
    split at hk
    next hkey =>
      cases hk
      subst hkey
      rcases bound with empty | ⟨b, hb, hbound⟩
      · exact .inl empty
      · exact .inr ⟨b, hb, WorkspaceRow.bound_iff.1 hbound⟩
    next => exact hdb k columns hk
  · rw [e, Function.update_apply] at hk
    split at hk
    next hkey =>
      cases hk
      subst hkey
      exact .inr ⟨b, hb, rfl⟩
    next => exact hdb k columns hk

theorem Db.BoundBy.workspace {π : Discipline} {db : Db} (h : db.BoundBy π) {w : WorkspaceRow}
    (hw : w ∈ db.workspaces) : w.projectPath = "" ∨ ∃ b, π.binding w.scopeId b ∧ w.Bound b := by
  rcases h (w.scopeId, w.id) _ (Table.view_of_mem hw _) with empty | ⟨b, hb, e⟩
  · exact .inl empty
  · exact .inr ⟨b, hb, WorkspaceRow.bound_iff.2 e⟩

theorem Reachable.boundBy {d : Deployment} {π : Discipline} {s : Store}
    (h : Reachable d π s) : s.db.BoundBy π := by
  refine h.db_invariant ?_ fun c hdb => c.boundBy hdb
  rintro k columns ⟨⟩

/-- An attempt works in a directory its project was bound to. -/
def Db.PlacedBy (π : Discipline) (db : Db) : Prop :=
  ∀ k id directory, db.places k = some (id, directory) → directory = "" ∨
    ∃ b columns, π.binding k.1 b ∧ b.projectPath = directory ∧
      db.bindings (k.1, id) = some columns ∧ columns.projectRef = b.projectRef

theorem Change.placedBy {d : Deployment} {π : Discipline} {f : Files} {n : Nat} {db db' : Db}
    (h : Change d π f n db db') (bound : db.BoundBy π) (hdb : db.PlacedBy π) :
    db'.PlacedBy π := by
  -- a workspace keeps its project
  have project : ∀ {k columns}, db.bindings k = some columns →
      ∃ columns', db'.bindings k = some columns' ∧ columns'.projectRef = columns.projectRef := by
    intro k columns hk
    rcases h.workspace_binding hk with hk' | ⟨b, -, same, hk'⟩
    · exact ⟨_, hk', rfl⟩
    · exact ⟨_, hk', same⟩
  intro k id directory hk
  have old : db.places k = some (id, directory) → _ := hdb k id directory
  rcases h.places with e | ⟨k', w, hw, e⟩
  · rcases old (by rw [← e, hk]) with empty | ⟨b, columns, hb, hdir, hc, href⟩
    · exact .inl empty
    · obtain ⟨columns', hc', same⟩ := project hc
      exact .inr ⟨b, columns', hb, hdir, hc', same.trans href⟩
  · rw [e, Function.update_apply] at hk
    split at hk
    next hkey =>
      cases hk
      subst hkey
      obtain ⟨hmem, hscope, hid⟩ := Db.workspace_eq_some.1 hw
      rcases bound.workspace hmem with empty | ⟨b, hb, hbound⟩
      · exact .inl empty
      · obtain ⟨columns', hc', same⟩ := project (Table.view_of_getIn hw _)
        rw [hscope] at hb
        exact .inr ⟨b, columns', hb, hbound.projectPath.symm, hc', same.trans hbound.projectRef⟩
    next =>
      rcases old hk with empty | ⟨b, columns, hb, hdir, hc, href⟩
      · exact .inl empty
      · obtain ⟨columns', hc', same⟩ := project hc
        exact .inr ⟨b, columns', hb, hdir, hc', same.trans href⟩

theorem Reachable.placedBy {d : Deployment} {π : Discipline} {s : Store}
    (h : Reachable d π s) : s.db.PlacedBy π := by
  have inv := h.db_invariant (I := fun db => db.BoundBy π ∧ db.PlacedBy π) ?_ fun c hdb =>
    ⟨c.boundBy hdb.1, c.placedBy hdb.1 hdb.2⟩
  · exact inv.2
  · exact ⟨by rintro k columns ⟨⟩, by rintro k id directory ⟨⟩⟩

end CodeForge
