import CodeForge.Persistence.Ownership
import CodeForge.Transport.Binding

/-!
# One writer for a project

The writer lease belongs to the row of a workspace, and such a row to a project: a
scope and a reference.  The directory is an attribute of it, which a payload may
choose freely and a later payload may change.  So two attempts never work on one
project at a time.  They never work in one directory as long as no directory is
bound under two projects, which nothing checks.
-/

namespace CodeForge

open Lib

/-- No directory is bound under two projects. -/
def Discipline.Separate (π : Discipline) : Prop :=
  ∀ scopeId scopeId' b b', π.binding scopeId b → π.binding scopeId' b' →
    b.projectPath = b'.projectPath → scopeId = scopeId' ∧ b.projectRef = b'.projectRef

/-- The two attempts are at one project. -/
def Db.SameProject (db : Db) (a b : AttemptRow) : Prop :=
  ∃ v w, db.workspace a.scopeId a.workspaceId = some v ∧
    db.workspace b.scopeId b.workspaceId = some w ∧
    v.scopeId = w.scopeId ∧ v.projectRef = w.projectRef

/-- A project has one workspace. -/
theorem Db.workspace_of_project {db : Db} {v w : WorkspaceRow} (hv : v ∈ db.workspaces)
    (hw : w ∈ db.workspaces) (scope : v.scopeId = w.scopeId) (project : v.projectRef = w.projectRef) :
    v = w := by
  refine Table.eq_of_clash hv hw ?_
  change (decide (v.id = w.id) || (decide (v.scopeId = w.scopeId) &&
    decide (v.projectRef = w.projectRef))) = true
  simp [scope, project]

/-- Live attempts at one project are one. -/
theorem Reachable.live_unique_project {d : Deployment} {π : Discipline} {s : Store}
    (h : Reachable d π s) {a b : AttemptRow} (ha : a ∈ s.db.attempts) (hb : b ∈ s.db.attempts)
    (la : a.Live) (lb : b.Live) (same : s.db.SameProject a b) : a = b := by
  obtain ⟨v, w, hv, hw, scope, project⟩ := same
  obtain ⟨hv, vscope, vid⟩ := Db.workspace_eq_some.1 hv
  obtain ⟨hw, wscope, wid⟩ := Db.workspace_eq_some.1 hw
  cases Db.workspace_of_project hv hw scope project
  exact Db.attempt_ext ha hb (h.exclusive.unique (Db.open_lease ha la) (Db.open_lease hb lb)
    (Prod.ext (vscope.symm.trans wscope) (vid.symm.trans wid)))

/-- A live attempt is the only one at its project; and, where no directory is bound
under two projects, the only one in its directory. -/
theorem Reachable.oneWriter {d : Deployment} {π : Discipline} {s : Store}
    (h : Reachable d π s) {a b : AttemptRow} (ha : a ∈ s.db.attempts) (hb : b ∈ s.db.attempts)
    (la : a.Live) (lb : b.Live) :
    (s.db.SameProject a b → a = b) ∧
    (π.Separate → a.workingDirectoryRef ≠ "" →
      a.workingDirectoryRef = b.workingDirectoryRef → a = b) := by
  refine ⟨h.live_unique_project ha hb la lb, fun separate directory same => ?_⟩
  have place : ∀ {c : AttemptRow}, c ∈ s.db.attempts → c.workingDirectoryRef ≠ "" →
      ∃ binding w, π.binding c.scopeId binding ∧ binding.projectPath = c.workingDirectoryRef ∧
        s.db.workspace c.scopeId c.workspaceId = some w ∧ w.projectRef = binding.projectRef := by
    intro c hc hne
    rcases h.placedBy _ _ _ (Table.view_of_mem hc _) with empty | ⟨binding, columns, hb, hd, hk, hr⟩
    · exact absurd empty hne
    · obtain ⟨w, hw, hkey, rfl⟩ := Table.view_eq_some.1 hk
      exact ⟨binding, w, hb, hd, Db.workspace_eq_some.2 ⟨hw, Prod.mk.inj hkey⟩, hr⟩
  obtain ⟨ba, v, boundA, pathA, hv, refA⟩ := place ha directory
  obtain ⟨bb, w, boundB, pathB, hw, refB⟩ := place hb (same ▸ directory)
  obtain ⟨scope, project⟩ := separate _ _ _ _ boundA boundB (by rw [pathA, pathB, same])
  refine h.live_unique_project ha hb la lb ⟨v, w, hv, hw, ?_, ?_⟩
  · rw [(Db.workspace_eq_some.1 hv).2.1, (Db.workspace_eq_some.1 hw).2.1, scope]
  · rw [refA, refB, project]

/-- A message is sent to a session of each binding, and both are claimed. -/
def Op.twoClaims (b b' : UserBinding) : List Op :=
  [.openSession b "s", .openSession b' "t", .send b 0 "m" "hello", .send b' 2 "n" "hello",
    .claimAny, .claimAny]

theorem Op.twoClaims_obeys {π : Discipline} {b b' : UserBinding} (h : π.binding b.scopeId b)
    (h' : π.binding b'.scopeId b') (busy : ∀ scopeId id, π.busy scopeId id) :
    ∀ op ∈ Op.twoClaims b b', op.Obeys π := by
  intro op hop
  simp only [Op.twoClaims, List.mem_cons, List.not_mem_nil, or_false] at hop
  rcases hop with rfl | rfl | rfl | rfl | rfl | rfl
  · rintro _ ⟨⟩
    exact h
  · rintro _ ⟨⟩
    exact h'
  · exact fun _ => busy _ _
  · exact fun _ => busy _ _
  · trivial
  · trivial

/-- Two claims at two projects in two directories. -/
def Op.twoProjects : List Op := Op.twoClaims (.plain "ada" "p" "p") (.plain "ada" "q" "q")

/-- The two projects have a writer each. -/
theorem Reachable.oneWriter_twoProjects :
    let s := Op.execAll .plain Op.twoProjects {}
    ∃ a ∈ s.db.attempts, ∃ b ∈ s.db.attempts, a.Live ∧ b.Live ∧ ¬ s.db.SameProject a b ∧
      a.workingDirectoryRef ≠ b.workingDirectoryRef := by
  have claimed : let s := Op.execAll .plain Op.twoProjects {}
      ∃ a ∈ s.db.attempts.rows, ∃ b ∈ s.db.attempts.rows, a.id ≠ b.id ∧
        a.endedAt = none ∧ b.endedAt = none ∧ a.workingDirectoryRef ≠ "" := by decide +kernel
  let π : Discipline := { binding := fun scopeId b =>
    scopeId = "ada" ∧ (b = .plain "ada" "p" "p" ∨ b = .plain "ada" "q" "q") }
  have separate : π.Separate := by
    rintro _ _ _ _ ⟨rfl, rfl | rfl⟩ ⟨rfl, rfl | rfl⟩ h
    · exact ⟨rfl, rfl⟩
    · exact absurd h (by decide)
    · exact absurd h (by decide)
    · exact ⟨rfl, rfl⟩
  have p : π.binding "ada" (.plain "ada" "p" "p") := ⟨rfl, .inl rfl⟩
  have q : π.binding "ada" (.plain "ada" "q" "q") := ⟨rfl, .inr rfl⟩
  have reach : Reachable .plain π (Op.execAll .plain Op.twoProjects {}) :=
    .execAll (Op.twoClaims_obeys p q fun _ _ => trivial)
  generalize Op.execAll .plain Op.twoProjects {} = s at claimed reach
  obtain ⟨a, ha, b, hb, hne, la, lb, directory⟩ := claimed
  have one := reach.oneWriter ha hb la lb
  exact ⟨a, ha, b, hb, la, lb, fun same => hne (congrArg _ (one.1 same)),
    fun same => hne (congrArg _ (one.2 separate directory same))⟩

/-- The binding of a payload that names its project and its directory. -/
def UserBinding.named (projectRef : String) : UserBinding where
  scopeId := userRefOf .plain "ada"
  tenantRef := "platform"
  userRef := userRefOf .plain "ada"
  userPath := "/srv/ada"
  projectRef := projectRef
  projectPath := "/srv/ada/p"
  storageRoot := "/srv"
  userRelPath := "ada"
  projectRelPath := "p"

/-- Two projects in one directory have a writer each, too. -/
theorem oneWriter_fails_twoNames :
    let π : Discipline :=
      { binding := fun scopeId b => b.Accepted .plain ∧ scopeId = b.scopeId }
    ∃ s, Reachable .plain π s ∧ ∃ a ∈ s.db.attempts, ∃ b ∈ s.db.attempts,
      a.Live ∧ b.Live ∧ a ≠ b ∧ a.workingDirectoryRef ≠ "" ∧
        a.workingDirectoryRef = b.workingDirectoryRef := by
  intro π
  have accepted : ∀ ref, bindingFromPayload .plain (.str "/srv") (.str "ada") (.str ref)
      (.str "p") = .ok (.named ref) → π.binding (UserBinding.named ref).scopeId (.named ref) :=
    fun ref h => ⟨⟨_, _, _, _, h⟩, rfl⟩
  have reach := Reachable.execAll (d := .plain) (π := π) (Op.twoClaims_obeys
    (accepted "a" (by decide +kernel)) (accepted "b" (by decide +kernel)) fun _ _ => trivial)
  have claimed : let s := Op.execAll .plain (Op.twoClaims (.named "a") (.named "b")) {}
      ∃ a ∈ s.db.attempts.rows, ∃ b ∈ s.db.attempts.rows, a.id ≠ b.id ∧ a.endedAt = none ∧
        b.endedAt = none ∧ a.workingDirectoryRef = "/srv/ada/p" ∧
        b.workingDirectoryRef = "/srv/ada/p" := by decide +kernel
  obtain ⟨a, ha, b, hb, hne, la, lb, pathA, pathB⟩ := claimed
  refine ⟨_, reach, a, ha, b, hb, la, lb, ?_, ?_, ?_⟩
  · rintro rfl
    exact hne rfl
  · rw [pathA]
    decide
  · rw [pathA, pathB]

end CodeForge
