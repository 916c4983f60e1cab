import CodeForge.Persistence.Beside

/-!
# The tools of a run

The rows of the ledger that belong to a run change with calls for the run only
(`Op.exec_toolsOf`).  To prepare, start and finish a tool is to amend the row of one
call, and no other (`Amended`).
-/

namespace CodeForge

open Lib StoreM

variable {d : Deployment} {s t : Store} {k : Key}

/-- The tools of a run. -/
def Db.toolsOf (db : Db) (k : Key) : List ToolRow :=
  db.tools.rows.filter fun row => (row.scopeId, row.runId) = k

theorem Db.mem_toolsOf {db : Db} {row : ToolRow} :
    row ∈ db.toolsOf k ↔ row ∈ db.tools ∧ (row.scopeId, row.runId) = k := by
  simp [toolsOf, Table.mem_def]

/-- A tool of a run is known by its identifier. -/
theorem Db.eq_of_toolsOf {db : Db} {a b : ToolRow} (ha : a ∈ db.toolsOf k)
    (hb : b ∈ db.toolsOf k) (same : a.id = b.id) : a = b :=
  Table.eq_of_key (mem_toolsOf.1 ha).1 (mem_toolsOf.1 hb).1 same

/-! ## What changes them -/

theorem Db.toolsOf_insert {db db' : Db} {row : ToolRow}
    (insert : db.tools.insert? row = some db'.tools) :
    db'.toolsOf k = db.toolsOf k ++ if (row.scopeId, row.runId) = k then [row] else [] := by
  rw [toolsOf, toolsOf, (Table.insert?_eq_some.1 insert).2, List.filter_append]
  simp [List.filter_cons]

/-- One row of the run is rewritten, if it has the identifier. -/
theorem Db.toolsOf_update {db db' : Db} {scopeId : String} {id : Uuid} {f : ToolRow → ToolRow} {hf}
    (same : db'.tools = db.tools.updateIn scopeId id f hf) :
    db'.toolsOf k = (db.toolsOf k).map fun row =>
      if row.scopeId = scopeId ∧ row.id = id then f row else row := by
  have place : ∀ row, ((f row).scopeId, (f row).runId) = (row.scopeId, row.runId) := fun row => by
    have ident := hf row
    simp only [Entity.ident, ToolIdent.mk.injEq] at ident
    rw [ident.2.1, ident.2.2.1]
  rw [toolsOf, toolsOf, same]
  simp only [Table.updateIn, Table.updateWhere, Table.update, List.filter_map]
  rw [List.filter_congr (q := fun row => (row.scopeId, row.runId) = k) ?_]
  · refine List.map_congr_left fun row _ => ?_
    simp [rowScope, rowKey, Entity.scope, Entity.key, Entity.ident]
  · intro row _
    simp only [Function.comp_apply]
    split
    · rw [place]
    · rfl

/-- The call does not write the rows of the run. -/
def Op.Leaves (k : Key) (db : Db) : Op → Prop
  | .prepareTool call _ => (call.scopeId, call.runId) ≠ k
  | .startTool scopeId id _ | .finishTool scopeId id _ _ _ _ _ =>
      ∀ row ∈ db.toolsOf k, ¬ (row.scopeId = scopeId ∧ row.id = id)
  | _ => True

theorem Db.toolsOf_update_other {db db' : Db} {scopeId : String} {id : Uuid}
    {f : ToolRow → ToolRow} {hf} (same : db'.tools = db.tools.updateIn scopeId id f hf)
    (other : ∀ row ∈ db.toolsOf k, ¬ (row.scopeId = scopeId ∧ row.id = id)) :
    db'.toolsOf k = db.toolsOf k := by
  rw [toolsOf_update same]
  exact (List.map_congr_left fun row hrow => if_neg (other row hrow)).trans (List.map_id _)

/-- A call that does not write the ledger. -/
theorem Op.exec_toolsOf_of_not_writes {op : Op} (quiet : op.writesLedger = false) :
    (op.exec d s).db.toolsOf k = s.db.toolsOf k := by
  rw [Db.toolsOf, Db.toolsOf, Op.exec_tools quiet]

theorem Op.exec_toolsOf {op : Op} (leaves : op.Leaves k s.db) :
    (op.exec d s).db.toolsOf k = s.db.toolsOf k := by
  have failed : ∀ {t : Store}, t.db = s.db → t.db.toolsOf k = s.db.toolsOf k :=
    fun same => congrArg (Db.toolsOf · k) same
  have quiet : op.writesLedger = false → (op.exec d s).db.toolsOf k = s.db.toolsOf k :=
    Op.exec_toolsOf_of_not_writes
  cases op with
  | prepareTool call actor =>
      show (finalState (CodeForge.prepareTool d call actor) s).db.toolsOf k = _
      rw [finalState]
      cases ended : CodeForge.prepareTool d call actor s with
      | error e t => exact failed (prepareTool_error ended)
      | ok prepared t =>
          rcases prepareTool_eq_ok ended with
              ⟨-, -, -, -, -, -, same⟩ | ⟨-, -, row, called, -, -, -, new⟩
          · exact failed same
          · have other : (row.scopeId, row.runId) ≠ k := by
              simp only [ToolRow.call, ToolCall.call, Prod.mk.injEq] at called
              rw [called.1, called.2.1]
              exact leaves
            rw [Db.toolsOf_insert new, if_neg other, List.append_nil]
  | startTool scopeId id actor =>
      show (finalState (CodeForge.startTool d scopeId id actor) s).db.toolsOf k = _
      rw [finalState]
      cases ended : CodeForge.startTool d scopeId id actor s with
      | error e t => exact failed (startTool_error ended)
      | ok u t => exact Db.toolsOf_update_other (startTool_eq_ok ended) leaves
  | finishTool scopeId id status resultRef error actor revision =>
      show (finalState
        (CodeForge.finishTool d scopeId id status resultRef error actor revision) s).db.toolsOf k
          = _
      rw [finalState]
      cases ended : CodeForge.finishTool d scopeId id status resultRef error actor revision s with
      | error e t => exact failed (finishTool_error ended)
      | ok u t => exact Db.toolsOf_update_other (finishTool_eq_ok ended) leaves
  | createSession | acceptOnce | claimNextRun | transitionRun | cancelRun | respondToRun
  | recordWorkspaceRevision | appendEvent | appendToolOutput | openPending => exact quiet rfl

/-! ## What a call does to the row of its tool -/

/-- The row of one call is there, and new or rewritten; the others are as they were. -/
structure Amended (before after : List ToolRow) (id : Uuid) (c : ToolCall) : Prop where
  there : ∃ row ∈ after, row.id = id
  others : ∀ row, row.id ≠ id → (row ∈ after ↔ row ∈ before)
  was : ∀ row ∈ before, row.id = id → row.call = c.call
  now : ∀ row ∈ after, row.id = id → row.call = c.call ∧ row.paramsDigest = c.paramsDigest

theorem prepareTool_amends {c : ToolCall} {actor : String} {id : Uuid} {status : ToolStatus}
    (h : prepareTool d c actor s = .ok (id, status) t) :
    Amended (s.db.toolsOf (c.scopeId, c.runId)) (t.db.toolsOf (c.scopeId, c.runId)) id c := by
  have place : ∀ {row : ToolRow}, row.call = c.call →
      (row.scopeId, row.runId) = (c.scopeId, c.runId) := by
    intro row called
    simp only [ToolRow.call, ToolCall.call, Prod.mk.injEq] at called
    rw [called.1, called.2.1]
  rcases prepareTool_eq_ok h with ⟨row, there, called, digest, named, -, same⟩ |
    ⟨-, -, row, called, digest, named, -, new⟩
  · have here : row ∈ s.db.toolsOf (c.scopeId, c.runId) := Db.mem_toolsOf.2 ⟨there, place called⟩
    have only : ∀ row' ∈ s.db.toolsOf (c.scopeId, c.runId), row'.id = id → row' = row :=
      fun row' hrow' same' => Db.eq_of_toolsOf hrow' here (same'.trans named.symm)
    rw [same]
    refine ⟨⟨row, here, named⟩, fun _ _ => .rfl, ?_, ?_⟩
    · intro row' hrow' same'
      rw [only row' hrow' same', called]
    · intro row' hrow' same'
      rw [only row' hrow' same']
      exact ⟨called, digest⟩
  · have fresh : ∀ row' ∈ s.db.toolsOf (c.scopeId, c.runId), row'.id ≠ id := by
      intro row' hrow' same'
      have apart := (Table.insert?_eq_some.1 new).1 row' (Db.mem_toolsOf.1 hrow').1
      rw [rowClash_of_key (same'.trans named.symm)] at apart
      cases apart
    rw [Db.toolsOf_insert new, if_pos (place called)]
    refine ⟨⟨row, by simp, named⟩, ?_, fun row' hrow' same' => absurd same' (fresh row' hrow'), ?_⟩
    · intro row' other
      simp only [List.mem_append, List.mem_singleton, or_iff_left_iff_imp]
      rintro rfl
      exact absurd named other
    · intro row' hrow' same'
      rcases List.mem_append.1 hrow' with old | new'
      · exact absurd same' (fresh row' old)
      · rw [List.mem_singleton.1 new']
        exact ⟨called, digest⟩

/-- To rewrite the row again is to amend it. -/
theorem Amended.update {before after : List ToolRow} {id : Uuid} {c : ToolCall}
    (h : Amended before after id c) {scopeId : String} {f : ToolRow → ToolRow}
    (columns : ∀ row, (f row).id = row.id ∧ (f row).call = row.call ∧
      (f row).paramsDigest = row.paramsDigest)
    (scope : ∀ row ∈ after, row.scopeId = scopeId) :
    Amended before (after.map fun row =>
      if row.scopeId = scopeId ∧ row.id = id then f row else row) id c := by
  have rewritten : ∀ row ∈ after, row.id = id →
      (if row.scopeId = scopeId ∧ row.id = id then f row else row) = f row :=
    fun row hrow same => if_pos ⟨scope row hrow, same⟩
  have kept : ∀ row : ToolRow, row.id ≠ id →
      (if row.scopeId = scopeId ∧ row.id = id then f row else row) = row :=
    fun row other => if_neg fun both => other both.2
  constructor
  · obtain ⟨row, hrow, named⟩ := h.there
    refine ⟨f row, List.mem_map.2 ⟨row, hrow, rewritten row hrow named⟩, ?_⟩
    rw [(columns row).1, named]
  · intro row other
    rw [← h.others row other, List.mem_map]
    constructor
    · rintro ⟨row', hrow', same⟩
      by_cases named : row'.id = id
      · rw [rewritten row' hrow' named] at same
        exact absurd (by rw [← same, (columns row').1, named]) other
      · rw [kept row' named] at same
        exact same ▸ hrow'
    · intro hrow
      exact ⟨row, hrow, kept row other⟩
  · exact h.was
  · intro row hrow named
    obtain ⟨row', hrow', same⟩ := List.mem_map.1 hrow
    by_cases named' : row'.id = id
    · rw [rewritten row' hrow' named'] at same
      rw [← same, (columns row').2.1, (columns row').2.2]
      exact h.now row' hrow' named'
    · rw [kept row' named'] at same
      exact absurd (same ▸ named) named'

theorem startTool_amends {before : List ToolRow} {id : Uuid} {c : ToolCall} {actor : String}
    {u : Unit} (h : startTool d k.1 id actor s = .ok u t)
    (amended : Amended before (s.db.toolsOf k) id c) : Amended before (t.db.toolsOf k) id c := by
  rw [Db.toolsOf_update (startTool_eq_ok h)]
  refine amended.update (fun _ => ⟨rfl, rfl, rfl⟩) fun row hrow => ?_
  rw [← (Db.mem_toolsOf.1 hrow).2]

theorem finishTool_amends {before : List ToolRow} {id : Uuid} {c : ToolCall} {status : ToolStatus}
    {resultRef : Option String} {error : Option (List (String × Json))} {actor : String}
    {revision : Option String} {u : Unit}
    (h : finishTool d k.1 id status resultRef error actor revision s = .ok u t)
    (amended : Amended before (s.db.toolsOf k) id c) :
    Amended before (t.db.toolsOf k) id c ∧
      ∀ row ∈ t.db.toolsOf k, row.id = id → row.status = status := by
  have scope : ∀ row ∈ s.db.toolsOf k, row.scopeId = k.1 := fun row hrow => by
    rw [← (Db.mem_toolsOf.1 hrow).2]
  rw [Db.toolsOf_update (finishTool_eq_ok h)]
  refine ⟨amended.update (fun _ => ⟨rfl, rfl, rfl⟩) scope, ?_⟩
  intro row hrow named
  obtain ⟨row', hrow', same⟩ := List.mem_map.1 hrow
  split at same
  · rw [← same]
    rfl
  next other =>
    rw [← same] at named
    exact absurd ⟨scope row' hrow', named⟩ other

end CodeForge
