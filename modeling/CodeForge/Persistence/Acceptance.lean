import CodeForge.Lib.Numbering
import CodeForge.Persistence.System

/-!
# What a run was accepted as

The columns a run gets from its request, its place and its snapshot are written
once, when it is accepted, and runs are never deleted.  `Db.acceptances` reads these
columns off the table, in the order of acceptance.  It only grows at its end, and in
each session the places of the runs count from one.
-/

namespace CodeForge

open Lib

/-- The columns of a run that are written at its acceptance only. -/
structure Acceptance where
  id : Uuid
  scopeId : String
  sessionId : Uuid
  workspaceId : Uuid
  runSeq : Nat
  idempotencyKey : String
  requestFingerprint : String
  inputRef : ContentPath
  inputDigest : String
  inputChars : Nat
  agentRef : String
  executionContext : ExecutionContext
  configSnapshotRef : ContentPath
  configSnapshotDigest : String
  configSnapshotBytes : Nat

def RunRow.acceptance (r : RunRow) : Acceptance where
  id := r.id
  scopeId := r.scopeId
  sessionId := r.sessionId
  workspaceId := r.workspaceId
  runSeq := r.runSeq
  idempotencyKey := r.idempotencyKey
  requestFingerprint := r.requestFingerprint
  inputRef := r.inputRef
  inputDigest := r.inputDigest
  inputChars := r.inputChars
  agentRef := r.agentRef
  executionContext := r.executionContext
  configSnapshotRef := r.configSnapshotRef
  configSnapshotDigest := r.configSnapshotDigest
  configSnapshotBytes := r.configSnapshotBytes

namespace Acceptance

def key (a : Acceptance) : Key := (a.scopeId, a.id)

def sessionKey (a : Acceptance) : Key := (a.scopeId, a.sessionId)

end Acceptance

/-- What the runs were accepted as, in the order of acceptance. -/
def Db.acceptances (db : Db) : List Acceptance := db.runs.rows.map RunRow.acceptance

theorem Db.mem_acceptances {db : Db} {a : Acceptance} :
    a ∈ db.acceptances ↔ ∃ r ∈ db.runs, r.acceptance = a := List.mem_map

/-- The next place of each session. -/
def Db.nextPlaces (db : Db) : Key → Option Nat := db.sessions.view SessionRow.nextRunSeq

/-! ## Changes -/

theorem Records.acceptances {d : Deployment} {f : Files} {db db' : Db} {r : RunRow}
    {s : SessionRow} {e : EventRow} (h : Records d f db r s e db') :
    db'.acceptances = db.acceptances ∧ db'.nextPlaces = db.nextPlaces := by
  obtain ⟨events, now, actor, -, rfl⟩ := h.result
  simp only [Db.acceptances, Db.nextPlaces, Db.setEventSeqs]
  rw [Table.map_updateIn_same, Table.view_updateIn_same]
  · exact ⟨rfl, rfl⟩
  · intro s
    rfl
  · intro r
    rfl

theorem Db.startAttempt_acceptances (db : Db) (attempts : Table AttemptRow) (c : Candidate)
    (attempt : AttemptRow) (actor : String) :
    (db.startAttempt attempts c attempt actor).acceptances = db.acceptances ∧
      (db.startAttempt attempts c attempt actor).nextPlaces = db.nextPlaces := by
  simp only [acceptances, nextPlaces, startAttempt, startRun, occupyWorkspace, occupySession]
  rw [Table.map_updateIn_same, Table.view_updateIn_same]
  · exact ⟨rfl, rfl⟩
  · intro s
    rfl
  · intro r
    split <;> rfl

theorem Db.moveRun_acceptances (db : Db) (scopeId : String) (runId : Uuid) (version : Nat)
    (after : RunState) (outputRef : Option ObjectRef) (outputChars : Option Nat)
    (error : Option Json) (now : Timestamp) (actor : String) :
    (db.moveRun scopeId runId version after outputRef outputChars error now actor).acceptances =
      db.acceptances := by
  simp only [acceptances, moveRun]
  rw [Table.map_updateIn_same]
  intro r
  split <;> rfl

theorem Db.release_acceptances (db : Db) (row : RunRow) (now : Timestamp) (actor : String) :
    (db.release row now actor).acceptances = db.acceptances ∧
      (db.release row now actor).nextPlaces = db.nextPlaces := by
  simp only [acceptances, nextPlaces, release]
  rw [Table.map_updateIn_same, Table.view_updateWhere_same]
  · exact ⟨rfl, rfl⟩
  · intro s
    rfl
  · intro r
    rfl

/-- What a change does to the acceptances and to the next places: nothing, a session is
added, or a run is accepted in the next place of its session. -/
theorem Change.acceptances {d : Deployment} {π : Discipline} {f : Files} {n : Nat} {db db' : Db}
    (h : Change d π f n db db') :
    (db'.acceptances = db.acceptances ∧ (db'.nextPlaces = db.nextPlaces ∨
      ∃ k, db.nextPlaces k = none ∧ db'.nextPlaces = Function.update db.nextPlaces k (some 1))) ∨
    ∃ a : Acceptance, db.nextPlaces a.sessionKey = some a.runSeq ∧
      db'.acceptances = db.acceptances ++ [a] ∧
      db'.nextPlaces = Function.update db.nextPlaces a.sessionKey (some (a.runSeq + 1)) := by
  cases h with
  | addWorkspace | rebind | revise | tools | pendings => exact .inl ⟨rfl, .inl rfl⟩
  | addSession known insert =>
      exact .inl ⟨rfl, .inr ⟨_, Table.view_of_insert? insert _ _, Table.view_insert? insert _⟩⟩
  | @accept db₁ id request s s₁ key fingerprint inputRef snapshotRef now actor runs r e known insert
      record event =>
      right
      obtain ⟨hacc, hnext⟩ := record.acceptances
      replace hnext : db₁.nextPlaces = db.nextPlaces := hnext
      have hs : db.nextPlaces (request.context.scopeId, request.sessionId) = some s.nextRunSeq :=
        Table.view_of_getIn known _
      refine ⟨(RunRow.accept id request s.workspaceId s.nextRunSeq key fingerprint inputRef
        snapshotRef now actor).acceptance, hs, ?_, ?_⟩
      · change db₁.acceptances = _
        rw [hacc, Db.acceptances, (Table.insert?_eq_some.1 insert).2, List.map_append]
        rfl
      · rw [← hnext] at hs
        rw [Db.nextPlaces, Db.setNextRunSeq, Table.view_updateIn hs (c := s.nextRunSeq + 1)]
        · exact congrArg (Function.update · _ _) hnext
        · intro s _ _ _
          rfl
  | claim run candidate claimable earlier insert record event =>
      left
      obtain ⟨hacc, hnext⟩ := record.acceptances
      obtain ⟨started, next⟩ := Db.startAttempt_acceptances ..
      exact ⟨hacc.trans started, .inl (hnext.trans next)⟩
  | @move db₁ row after target outcome reason outputRef outputChars error extra now actor r s e run
      change allowed extra_allowed record event =>
      left
      obtain ⟨hacc, hnext⟩ := record.acceptances
      have moved := Db.moveRun_acceptances db row.scopeId row.id row.stateVersion after outputRef
        outputChars (storedError error) now actor
      obtain ⟨released, next⟩ := db₁.release_acceptances row now actor
      split
      · exact ⟨released.trans (hacc.trans moved), .inl (next.trans hnext)⟩
      · exact ⟨hacc.trans moved, .inl hnext⟩
  | note record allowed =>
      obtain ⟨hacc, hnext⟩ := record.acceptances
      exact .inl ⟨hacc, .inl hnext⟩

/-! ## Every reachable store -/

/-- The places of the runs of a session count from one. -/
def Db.Placed (db : Db) : Prop :=
  Numbered Acceptance.sessionKey Acceptance.runSeq db.acceptances db.nextPlaces

theorem Change.placed {d : Deployment} {π : Discipline} {f : Files} {n : Nat} {db db' : Db}
    (h : Change d π f n db db') (placed : db.Placed) : db'.Placed := by
  unfold Db.Placed
  rcases h.acceptances with ⟨same, e | ⟨k, fresh, e⟩⟩ | ⟨a, next, added, e⟩
  · rw [same, e]
    exact placed
  · rw [same, e]
    exact placed.addGroup fresh
  · rw [added, e]
    exact placed.add next

theorem Reachable.placed {d : Deployment} {π : Discipline} {s : Store} (h : Reachable d π s) :
    s.db.Placed := h.db_invariant .empty fun c placed => c.placed placed

/-- Acceptances stay, in their order. -/
theorem Steps.acceptances {d : Deployment} {π : Discipline} {s t : Store} (h : Steps d π s t) :
    s.db.acceptances <+: t.db.acceptances := by
  refine h.preserves (I := fun _ _ db => s.db.acceptances <+: db.acceptances)
    (fun _ _ hdb => hdb) ?_ (List.prefix_refl _)
  intro f n db db' c hdb
  rcases c.acceptances with ⟨same, -⟩ | ⟨a, -, added, -⟩
  · rw [same]
    exact hdb
  · rw [added]
    exact hdb.trans (List.prefix_append _ _)

/-- Sessions with one identifier are one, so runs and events name their session by it. -/
theorem Db.Placed.sessionKey {db : Db} (placed : db.Placed) {a : Acceptance}
    (ha : a ∈ db.acceptances) :
    ∃ s ∈ db.sessions, a.sessionKey = (s.scopeId, s.id) := by
  obtain ⟨n, hn⟩ := placed.known a ha
  obtain ⟨s, hs, hk, -⟩ := Table.view_eq_some.1 hn
  exact ⟨s, hs, hk.symm⟩

end CodeForge
