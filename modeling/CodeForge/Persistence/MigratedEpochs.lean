import CodeForge.Persistence.Migrations
import CodeForge.Persistence.Ownership

/-!
# Epochs of migrated workspaces

From version 2 on the attempts on a workspace are numbered, and the workspace
counts them.  Version 1 numbered the attempts of a session only, and gave every
session a workspace of its own.  `_migrate_v1_to_v4` makes the numbers of the
session those of the workspace, in one statement, and starts the counter of the
workspace from zero, in another.

So the counter is behind the attempts, unless there are none
(`epochs_dominated_iff`).  The next claim then takes the number of the first
attempt again and is refused.
-/

namespace CodeForge

open Lib

/-! ## Tables of version 1 -/

/-- A row of `workspaces`, as far as the migration reads it. -/
structure OldWorkspaceRow where
  id : Uuid
  scopeId : String
deriving DecidableEq

/-- A row of `run_attempts`, as far as the migration reads it. -/
structure OldAttemptRow where
  id : Uuid
  scopeId : String
  sessionId : Uuid
  runId : Uuid
  epoch : Int
deriving DecidableEq

/-- `PRIMARY KEY(id)`. -/
instance : Entity OldWorkspaceRow OldWorkspaceRow String Uuid where
  ident w := w
  scope w := w.scopeId
  key w := w.id
  clash v w := v.id = w.id
  clash_symm v w := by simp only [eq_comm]
  clash_of_key v w h := by simp [h]

/-- `PRIMARY KEY(id)`, `UNIQUE(scope_id,session_id,epoch)`. -/
instance : Entity OldAttemptRow OldAttemptRow String Uuid where
  ident a := a
  scope a := a.scopeId
  key a := a.id
  clash a b := a.id = b.id ||
    (a.scopeId = b.scopeId && a.sessionId = b.sessionId && a.epoch = b.epoch)
  clash_symm a b := by simp only [eq_comm]
  clash_of_key a b h := by simp [h]

theorem rowClash_oldAttempt {a b : OldAttemptRow} :
    rowClash a b = true ↔ a.id = b.id ∨
      a.scopeId = b.scopeId ∧ a.sessionId = b.sessionId ∧ a.epoch = b.epoch := by
  simp [rowClash, Entity.clash, Entity.ident, and_assoc]

/-- `s.scope_id=a.scope_id AND s.id=a.session_id` -/
def OldAttemptRow.of (a : OldAttemptRow) (s : OldSessionRow) : Bool :=
  s.scopeId = a.scopeId && s.id = a.sessionId

theorem OldAttemptRow.of_iff {a : OldAttemptRow} {s : OldSessionRow} :
    a.of s = true ↔ s.scopeId = a.scopeId ∧ s.id = a.sessionId := by
  simp [OldAttemptRow.of]

/-- Workspaces, sessions and attempts of version 1. -/
structure OldStore where
  workspaces : Table OldWorkspaceRow
  sessions : Table OldSessionRow
  attempts : Table OldAttemptRow
  /-- Every session has a workspace. -/
  hosted : ∀ s ∈ sessions, ∃ w ∈ workspaces, w.scopeId = s.scopeId ∧ w.id = s.workspaceId
  /-- `UNIQUE(scope_id,workspace_id)` of `sessions`. -/
  apart : ∀ s ∈ sessions, ∀ s' ∈ sessions, s.scopeId = s'.scopeId →
    s.workspaceId = s'.workspaceId → s = s'

/-- A row of `workspaces` of version 4, as far as the epochs go. -/
structure MigratedWorkspaceRow extends OldWorkspaceRow where
  activeAttemptId : Option Uuid
  workspaceEpoch : Int
deriving DecidableEq

/-- A row of `run_attempts` of version 4, as far as the epochs go. -/
structure MigratedAttemptRow extends OldAttemptRow where
  workspaceId : Uuid
  workspaceEpoch : Int
deriving DecidableEq

namespace OldStore

variable (old : OldStore)

/-! ## The migration -/

/-- `INSERT INTO workspaces ... SELECT ... current_revision, NULL, 0, NULL, NULL` -/
def workspacesV1 : List MigratedWorkspaceRow :=
  old.workspaces.rows.map fun w => { w with activeAttemptId := none, workspaceEpoch := 0 }

/-- `INSERT INTO run_attempts ... SELECT ... s.workspace_id,a.epoch,a.epoch` -/
def attemptsV1 : List MigratedAttemptRow :=
  old.attempts.rows.flatMap fun a => (old.sessions.rows.filter a.of).map fun s =>
    { a with workspaceId := s.workspaceId, workspaceEpoch := a.epoch }

/-- The counters of the workspaces are not behind their attempts. -/
def Dominated : Prop :=
  ∀ w ∈ old.workspacesV1, ∀ a ∈ old.attemptsV1, a.scopeId = w.scopeId → a.workspaceId = w.id →
    a.workspaceEpoch ≤ w.workspaceEpoch

/-- The tables of a migrated database. -/
structure Carried (db : Db) : Prop where
  workspaces : ∀ v ∈ old.workspacesV1, ∃ w ∈ db.workspaces,
    w.scopeId = v.scopeId ∧ w.id = v.id ∧ (w.workspaceEpoch : Int) = v.workspaceEpoch
  attempts : ∀ a ∈ db.attempts, ∃ b ∈ old.attemptsV1,
    b.scopeId = a.scopeId ∧ b.workspaceId = a.workspaceId ∧
      b.workspaceEpoch = (a.workspaceEpoch : Int)

/-- Whatever happens after the migration, the attempt of the next claim has a greater epoch than
all others on its workspace. -/
def KeepsRunning : Prop :=
  ∀ d s t, old.Carried s.db → Steps d {} s t →
    ∀ nowIso scopeId c, t.db.nextClaimable nowIso scopeId = some c →
      ∀ id binding workerId leaseUntil actor, ∀ b ∈ t.db.attempts, b.scopeId = c.run.scopeId →
        b.workspaceId = c.session.workspaceId →
        b.workspaceEpoch < (c.attempt id binding workerId nowIso leaseUntil actor).workspaceEpoch

variable {old}

theorem mem_attemptsV1 {b : MigratedAttemptRow} :
    b ∈ old.attemptsV1 ↔ ∃ a ∈ old.attempts, ∃ s ∈ old.sessions, a.of s = true ∧
      b = { a with workspaceId := s.workspaceId, workspaceEpoch := a.epoch } := by
  rw [attemptsV1, List.mem_flatMap]
  constructor
  · rintro ⟨a, ha, hb⟩
    obtain ⟨s, hs, rfl⟩ := List.mem_map.1 hb
    obtain ⟨hs, of⟩ := List.mem_filter.1 hs
    exact ⟨a, ha, s, hs, of, rfl⟩
  · rintro ⟨a, ha, s, hs, of, rfl⟩
    exact ⟨a, ha, List.mem_map.2 ⟨s, List.mem_filter.2 ⟨hs, of⟩, rfl⟩⟩

/-- The migration violates neither `UNIQUE(scope_id,session_id,epoch)` nor
`UNIQUE(scope_id,workspace_id,workspace_epoch)`: a workspace has one session. -/
theorem attemptsV1_apart {b b' : MigratedAttemptRow} (hb : b ∈ old.attemptsV1)
    (hb' : b' ∈ old.attemptsV1) (scope : b.scopeId = b'.scopeId)
    (place : b.sessionId = b'.sessionId ∧ b.epoch = b'.epoch ∨
      b.workspaceId = b'.workspaceId ∧ b.workspaceEpoch = b'.workspaceEpoch) : b = b' := by
  obtain ⟨a, ha, s, hs, of, rfl⟩ := mem_attemptsV1.1 hb
  obtain ⟨a', ha', s', hs', of', rfl⟩ := mem_attemptsV1.1 hb'
  obtain ⟨scope₁, session⟩ := OldAttemptRow.of_iff.1 of
  obtain ⟨scope₂, session'⟩ := OldAttemptRow.of_iff.1 of'
  have sessions : s = s' := by
    cases place with
    | inl same => exact Table.eq_of_key hs hs' (session.trans (same.1.trans session'.symm))
    | inr same => exact old.apart s hs s' hs' (scope₁.trans (scope.trans scope₂.symm)) same.1
  have epochs : a.epoch = a'.epoch := place.elim And.right And.right
  have attempts : a = a' := by
    refine Table.eq_of_clash ha ha' (rowClash_oldAttempt.2 (.inr ⟨scope, ?_, epochs⟩))
    rw [← session, ← session', sessions]
  rw [sessions, attempts]

theorem dominated_iff :
    old.Dominated ↔ ∀ a ∈ old.attempts, ∀ s ∈ old.sessions, a.of s = true → a.epoch ≤ 0 := by
  constructor
  · intro dominated a ha s hs of
    obtain ⟨w, hw, scope, id⟩ := old.hosted s hs
    refine dominated _ (List.mem_map.2 ⟨w, hw, rfl⟩) _ (mem_attemptsV1.2 ⟨a, ha, s, hs, of, rfl⟩)
      ?_ id.symm
    exact (OldAttemptRow.of_iff.1 of).1.symm.trans scope.symm
  · intro none w hw b hb _ _
    obtain ⟨v, -, rfl⟩ := List.mem_map.1 hw
    obtain ⟨a, ha, s, hs, of, rfl⟩ := mem_attemptsV1.1 hb
    exact none a ha s hs of

/-! ## After the migration -/

/-- Leases of a migrated database whose counters are not behind. -/
theorem Carried.dominated {db : Db} (carried : old.Carried db) (dominated : old.Dominated) :
    db.lease.Dominated := by
  intro k g known
  obtain ⟨a, ha, -, rfl⟩ := Db.lease_grant_eq_some.1 known
  obtain ⟨b, hb, scope, workspace, epoch⟩ := carried.attempts a ha
  obtain ⟨a₁, ha₁, s, hs, of, rfl⟩ := mem_attemptsV1.1 hb
  obtain ⟨v, hv, scope', id⟩ := old.hosted s hs
  have hv' : { v with activeAttemptId := none, workspaceEpoch := 0 } ∈ old.workspacesV1 :=
    List.mem_map.2 ⟨v, hv, rfl⟩
  obtain ⟨w, hw, wscope, wid, wepoch⟩ := carried.workspaces _ hv'
  have same : a₁.scopeId = v.scopeId := (OldAttemptRow.of_iff.1 of).1.symm.trans scope'.symm
  have bound := dominated _ hv' _ hb same id.symm
  refine ⟨w.lease, ?_, ?_⟩
  · have home : a.lease.resource = (w.scopeId, w.id) :=
      Prod.ext (scope.symm.trans (same.trans wscope.symm))
        (workspace.symm.trans (id.symm.trans wid.symm))
    rw [home]
    exact Db.lease_resource hw
  · show a.workspaceEpoch ≤ w.workspaceEpoch
    rw [← wepoch] at bound
    have := epoch ▸ bound
    omega

theorem keepsRunning (dominated : old.Dominated) : old.KeepsRunning := by
  intro d s t carried steps nowIso scopeId c next id binding workerId leaseUntil actor b hb scope
    workspace
  have counted : t.db.lease.Dominated := by
    refine steps.preserves (I := fun _ _ db => db.lease.Dominated) (fun _ _ h => h) ?_
      (carried.dominated dominated)
    intro f n db db' change h
    rcases change.lease_step with same | step
    · rw [same]
      exact h
    · exact h.step step
  obtain ⟨run, candidate, -⟩ := Db.nextClaimable_spec next
  obtain ⟨-, session, found⟩ := Db.candidate_eq_some.1 candidate
  obtain ⟨hw, wscope, wid⟩ := Db.workspace_eq_some.1 found
  obtain ⟨-, sscope, -⟩ := Db.session_eq_some.1 session
  obtain ⟨w, known, bound⟩ := counted _ _ (Db.lease_grant hb)
  have home : b.lease.resource = (c.workspace.scopeId, c.workspace.id) :=
    Prod.ext (scope.trans (sscope.symm.trans wscope.symm)) (workspace.trans wid.symm)
  rw [home, Db.lease_resource hw] at known
  cases known
  exact Nat.lt_succ_of_le bound

/-- **When a migrated store can keep running**: where it had no attempts yet. -/
theorem epochs_dominated_iff (old : OldStore) :
    (old.Dominated ∧ old.KeepsRunning) ↔
      ∀ a ∈ old.attempts, ∀ s ∈ old.sessions, a.of s = true → a.epoch ≤ 0 := by
  rw [← dominated_iff]
  exact ⟨And.left, fun dominated => ⟨dominated, keepsRunning dominated⟩⟩

end OldStore

/-! ## A run that was finished before -/

namespace OldStore

/-- A session in which one run was attempted. -/
def plain : OldStore where
  workspaces := ⟨[⟨⟨1⟩, "ada"⟩], List.pairwise_singleton _ _⟩
  sessions := ⟨[⟨⟨0⟩, "ada", ⟨1⟩⟩], List.pairwise_singleton _ _⟩
  attempts := ⟨[⟨⟨7⟩, "ada", ⟨0⟩, ⟨8⟩, 1⟩], List.pairwise_singleton _ _⟩
  hosted := by simp [Table.mem_def]
  apart := by simp [Table.mem_def]

end OldStore

/-- The attempt, as the migration leaves it. -/
def AttemptRow.migrated : AttemptRow where
  id := ⟨7⟩
  scopeId := "ada"
  sessionId := ⟨0⟩
  runId := ⟨8⟩
  workspaceId := ⟨1⟩
  epoch := 1
  workspaceEpoch := 1
  workerId := "w0"
  leaseUntil := "2025-12-31T00:02:00Z"
  heartbeatAt := "2025-12-31T00:01:00Z"
  workspaceBaseRevision := none
  mountSpecRef := "legacy"
  workingDirectoryRef := ""
  endedAt := some "2025-12-31T00:01:30Z"
  audit := .insert "2025-12-31T00:01:00Z" "w0"

/-- The migrated database, after a second message was sent. -/
def Store.migrated : Store :=
  let s := Op.execAll .plain Op.legacySend {}
  { s with
    db := { s.db with
      attempts := ⟨[.migrated], List.pairwise_singleton _ _⟩
      sessions := s.db.sessions.update (fun r => { r with executionEpoch := 1 }) fun _ => rfl } }

/-- The table whose constraint an operation violates. -/
def refusedBy {α : Type} (x : StoreM α) (s : Store) : Option String :=
  match x s with
  | .error (.integrity table) _ => some table
  | _ => none

/-- The first claim after the migration. -/
theorem claimNextRun_refused_migrated :
    OldStore.plain.Carried Store.migrated.db ∧ ¬ OldStore.plain.Dominated ∧
      refusedBy (claimNextRun .plain none "w1" "2026-01-01T00:01:00Z" "2026-01-01T00:02:00Z")
        .migrated = some "run_attempts" := by
  refine ⟨⟨?_, ?_⟩, ?_, ?_⟩
  · decide +kernel
  · decide +kernel
  · rw [OldStore.Dominated]
    decide +kernel
  · decide +kernel

end CodeForge
