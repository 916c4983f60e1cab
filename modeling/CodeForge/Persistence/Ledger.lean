import CodeForge.Persistence.References
import CodeForge.Persistence.System

/-!
# The ledger of tools

A tool is known by the run that called it and by the key of the call.  Its row
stays what it is, whatever happens: only its end and its status are written, and
a tool that was started is never prepared again (`Op.exec_ledger`).

A caller learns from `prepare_tool` whether the row is new.  If it is, the tool
was not started; if the call has other parameters, it is refused.
-/

namespace CodeForge

open Lib StoreM

variable {d : Deployment} {s t : Store}

/-! ## Rows -/

/-- The call that a row is of. -/
def ToolRow.call (t : ToolRow) : String × Uuid × String := (t.scopeId, t.runId, t.logicalCallKey)

/-- The call that `prepare_tool` is asked for. -/
def ToolCall.call (c : ToolCall) : String × Uuid × String := (c.scopeId, c.runId, c.logicalCallKey)

theorem ToolRow.eq_of_call {db : Db} {a b : ToolRow} (ha : a ∈ db.tools) (hb : b ∈ db.tools)
    (same : a.call = b.call) : a = b := by
  refine Table.eq_of_clash ha hb ?_
  simp only [ToolRow.call, Prod.mk.injEq] at same
  simp [rowClash, Entity.clash, Entity.ident, same]

theorem Db.calledTool_eq_some {db : Db} {c : ToolCall} {row : ToolRow} :
    db.calledTool c.scopeId c.runId c.logicalCallKey = some row ↔
      row ∈ db.tools ∧ row.call = c.call := by
  constructor
  · intro found
    have called := List.find?_some found
    simp only [Bool.and_eq_true, decide_eq_true_eq] at called
    refine ⟨List.mem_of_find?_eq_some found, ?_⟩
    rw [ToolRow.call, called.1.1, called.1.2, called.2]
    rfl
  · intro ⟨there, same⟩
    have matching : (row.scopeId = c.scopeId && row.runId = c.runId &&
        row.logicalCallKey = c.logicalCallKey) = true := by
      simp only [ToolRow.call, ToolCall.call, Prod.mk.injEq] at same
      simp [same]
    cases found : db.calledTool c.scopeId c.runId c.logicalCallKey with
    | none => exact absurd matching (List.find?_eq_none.1 found row there)
    | some other =>
        have called := List.find?_some found
        simp only [Bool.and_eq_true, decide_eq_true_eq] at called
        have one : other.call = row.call := by
          rw [same, ToolRow.call, called.1.1, called.1.2, called.2]
          rfl
        rw [ToolRow.eq_of_call (List.mem_of_find?_eq_some found) there one]

/-- Every row is still there: the same tool, and started if it was. -/
def Db.LedgerStays (db db' : Db) : Prop :=
  ∀ row ∈ db.tools, ∃ row' ∈ db'.tools, row'.id = row.id ∧ row'.call = row.call ∧
    row'.paramsDigest = row.paramsDigest ∧ (row.status ≠ .prepared → row'.status ≠ .prepared)

theorem Db.LedgerStays.of_eq {db db' : Db} (same : db'.tools = db.tools) : db.LedgerStays db' :=
  fun row hrow => ⟨row, same ▸ hrow, rfl, rfl, rfl, id⟩

theorem Db.LedgerStays.trans {a b c : Db} (h : a.LedgerStays b) (h' : b.LedgerStays c) :
    a.LedgerStays c := by
  intro row hrow
  obtain ⟨row₁, hrow₁, id₁, call₁, digest₁, started₁⟩ := h row hrow
  obtain ⟨row₂, hrow₂, id₂, call₂, digest₂, started₂⟩ := h' row₁ hrow₁
  exact ⟨row₂, hrow₂, id₂.trans id₁, call₂.trans call₁, digest₂.trans digest₁,
    fun started => started₂ (started₁ started)⟩

/-- Rows that are added do no harm. -/
theorem Db.LedgerStays.insert {db : Db} {row : ToolRow} {tools : Table ToolRow}
    (insert : db.tools.insert? row = some tools) {db' : Db} (same : db'.tools = tools) :
    db.LedgerStays db' :=
  fun old hold => ⟨old, same ▸ Table.mem_of_insert? insert hold, rfl, rfl, rfl, id⟩

/-- The rows of a tool are rewritten, and not as prepared. -/
theorem Db.LedgerStays.update {db db' : Db} {scopeId : String} {id : Uuid}
    {f : ToolRow → ToolRow} {hf} (same : db'.tools = db.tools.updateIn scopeId id f hf)
    (call : ∀ t, (f t).id = t.id ∧ (f t).call = t.call ∧ (f t).paramsDigest = t.paramsDigest)
    (started : ∀ t, (f t).status ≠ .prepared) : db.LedgerStays db' := by
  intro row hrow
  refine ⟨if rowScope row = scopeId && rowKey row = id then f row else row, ?_, ?_⟩
  · rw [same]
    exact Table.mem_updateWhere.2 ⟨row, hrow, rfl⟩
  · split
    · exact ⟨(call row).1, (call row).2.1, (call row).2.2, fun _ => started row⟩
    · exact ⟨rfl, rfl, rfl, fun started => started⟩

/-! ## Operations on the ledger -/

theorem insertEventLocked_tools (scopeId : String) (runId : Uuid) (type : EventType) (data : Json)
    (actor : String) (now : Timestamp) :
    Keeps Db.tools (insertEventLocked d scopeId runId type data actor now) :=
  insertEventLocked_keeps (fun _ _ _ _ _ => rfl) _ _ _ _ _ _

/-- A tool is prepared: it was already, with the same parameters, or its row is new. -/
theorem prepareTool_eq_ok {c : ToolCall} {actor : String} {id : Uuid} {status : ToolStatus}
    (h : prepareTool d c actor s = .ok (id, status) t) :
    (∃ row ∈ s.db.tools, row.call = c.call ∧ row.paramsDigest = c.paramsDigest ∧ row.id = id ∧
      row.status = status ∧ t.db = s.db) ∨
    (∀ row ∈ s.db.tools, row.call ≠ c.call) ∧ status = .prepared ∧
      ∃ row, row.call = c.call ∧ row.paramsDigest = c.paramsDigest ∧ row.id = id ∧
        row.status = .prepared ∧ s.db.tools.insert? row = some t.db.tools := by
  rw [prepareTool, now_bind_eq_ok, transaction_eq_ok, getDb_bind_eq_ok] at h
  cases found : s.db.calledTool c.scopeId c.runId c.logicalCallKey with
  | some row =>
      obtain ⟨there, called⟩ := Db.calledTool_eq_some.1 found
      simp only [found, ensure_bind_eq_ok, pure_eq_ok, Prod.mk.injEq, decide_eq_true_eq] at h
      obtain ⟨same, ⟨rfl, rfl⟩, rfl⟩ := h
      exact .inl ⟨row, there, called, same, rfl, rfl, rfl⟩
  | none =>
      have absent : ∀ row ∈ s.db.tools, row.call ≠ c.call := by
        intro row hrow called
        have there := Db.calledTool_eq_some.2 ⟨hrow, called⟩
        rw [found] at there
        cases there
      simp only [found, orThrow_bind_eq_ok, ensure_bind_eq_ok, uuid4_bind_eq_ok] at h
      obtain ⟨run, known, w, home, -, h⟩ := h
      obtain ⟨_, _, inserted, h⟩ := bind_eq_ok.1 h
      obtain ⟨_, _, recorded, h⟩ := bind_eq_ok.1 h
      obtain ⟨same, rfl⟩ := pure_eq_ok.1 h
      obtain ⟨rfl, rfl⟩ := Prod.mk.inj same
      simp only [insertTool, getDb_bind_eq_ok, ensure_bind_eq_ok, orThrow_bind_eq_ok,
        modifyDb_eq_ok] at inserted
      obtain ⟨-, tools, insert, rfl⟩ := inserted
      refine .inr ⟨absent, rfl, c.row d _ w (d.clock s.ticks) actor, rfl, rfl, rfl, rfl, ?_⟩
      rw [(insertEventLocked_tools _ _ _ _ _ _).of_ok recorded]
      exact insert

/-- A tool that was prepared with the same parameters is told as it is. -/
theorem prepareTool_again (actor : String) {c : ToolCall} {row : ToolRow}
    (there : row ∈ s.db.tools) (called : row.call = c.call)
    (same : row.paramsDigest = c.paramsDigest) :
    ∃ t, prepareTool d c actor s = .ok (row.id, row.status) t ∧ t.db = s.db := by
  have found := Db.calledTool_eq_some.2 ⟨there, called⟩
  refine ⟨{ s with ticks := s.ticks + 1 }, ?_, rfl⟩
  simp [prepareTool, transaction, StoreM.now, getDb, bind, EStateM.bind, found, ensure, same,
    pure, EStateM.pure]

/-- A tool that was prepared with other parameters is refused. -/
theorem prepareTool_conflict (actor : String) {c : ToolCall} {row : ToolRow}
    (there : row ∈ s.db.tools) (called : row.call = c.call)
    (other : row.paramsDigest ≠ c.paramsDigest) :
    ∃ t, prepareTool d c actor s = .error (.domain .idempotencyConflict
      "Tool call key is already bound to different parameters") t ∧ t.db = s.db := by
  have found := Db.calledTool_eq_some.2 ⟨there, called⟩
  have differs : decide (row.paramsDigest = c.paramsDigest) = false := decide_eq_false other
  refine ⟨{ s with ticks := s.ticks + 1 }, ?_, rfl⟩
  simp [prepareTool, transaction, StoreM.now, getDb, bind, EStateM.bind, found, ensure, differs,
    throw_eq]

theorem startTool_eq_ok {scopeId : String} {id : Uuid} {actor : String} {u : Unit}
    (h : startTool d scopeId id actor s = .ok u t) :
    t.db.tools = s.db.tools.updateIn scopeId id
      (fun row => { row with
        status := .running, audit := row.audit.update (d.clock s.ticks) actor }) := by
  rw [startTool, now_bind_eq_ok, transaction_eq_ok] at h
  simp only [getDb_bind_eq_ok, orThrow_bind_eq_ok, modifyDb_bind_eq_ok] at h
  obtain ⟨row, found, h⟩ := h
  obtain ⟨_, _, recorded, h⟩ := bind_eq_ok.1 h
  obtain ⟨-, rfl⟩ := pure_eq_ok.1 h
  exact (insertEventLocked_tools _ _ _ _ _ _).of_ok recorded

/-- The row of a tool that was started. -/
theorem startTool_started {scopeId : String} {id : Uuid} {actor : String} {u : Unit}
    (h : startTool d scopeId id actor s = .ok u t) {row : ToolRow} (there : row ∈ s.db.tools)
    (named : row.id = id) (scope : row.scopeId = scopeId) :
    ∃ row' ∈ t.db.tools, row'.call = row.call ∧ row'.status = .running := by
  refine ⟨{ row with
    status := .running, audit := row.audit.update (d.clock s.ticks) actor }, ?_, rfl, rfl⟩
  rw [startTool_eq_ok h]
  refine Table.mem_updateWhere.2 ⟨row, there, if_pos ?_⟩
  simp [rowScope, rowKey, Entity.scope, Entity.key, Entity.ident, named, scope]

theorem finishTool_eq_ok {scopeId : String} {id : Uuid} {status : ToolStatus}
    {resultRef : Option String} {error : Option (List (String × Json))} {actor : String}
    {revision : Option String} {u : Unit}
    (h : finishTool d scopeId id status resultRef error actor revision s = .ok u t) :
    t.db.tools = s.db.tools.updateIn scopeId id
      (fun row => row.finish status resultRef error revision (d.clock s.ticks) actor) := by
  rw [finishTool, now_bind_eq_ok, transaction_eq_ok] at h
  simp only [getDb_bind_eq_ok, orThrow_bind_eq_ok, ensure_bind_eq_ok, modifyDb_bind_eq_ok] at h
  obtain ⟨row, found, -, h⟩ := h
  obtain ⟨_, _, recorded, h⟩ := bind_eq_ok.1 h
  obtain ⟨-, rfl⟩ := pure_eq_ok.1 h
  exact (insertEventLocked_tools _ _ _ _ _ _).of_ok recorded

theorem prepareTool_error {c : ToolCall} {actor : String} {e : StoreError}
    (h : prepareTool d c actor s = .error e t) : t.db = s.db :=
  transaction_error_db (s := { s with ticks := s.ticks + 1 }) h

theorem startTool_error {scopeId : String} {id : Uuid} {actor : String} {e : StoreError}
    (h : startTool d scopeId id actor s = .error e t) : t.db = s.db :=
  transaction_error_db (s := { s with ticks := s.ticks + 1 }) h

theorem finishTool_error {scopeId : String} {id : Uuid} {status : ToolStatus}
    {resultRef : Option String} {error : Option (List (String × Json))} {actor : String}
    {revision : Option String} {e : StoreError}
    (h : finishTool d scopeId id status resultRef error actor revision s = .error e t) :
    t.db = s.db :=
  transaction_error_db (s := { s with ticks := s.ticks + 1 }) h

/-! ## The ledger in every call -/

theorem Db.Aside.tools : Db.Aside Db.tools where
  event _ _ _ _ _ := rfl
  attempts _ _ := rfl
  occupySession _ _ _ := rfl
  occupyWorkspace _ _ _ _ := rfl
  startRun _ _ _ _ := rfl
  release _ _ _ _ := rfl

theorem prepareTool_ledger (c : ToolCall) (actor : String) (s : Store) :
    s.db.LedgerStays (finalState (prepareTool d c actor) s).db := by
  rw [finalState]
  cases ended : prepareTool d c actor s with
  | error e t => exact .of_eq (congrArg Db.tools (prepareTool_error ended))
  | ok prepared t =>
      obtain ⟨id, status⟩ := prepared
      rcases prepareTool_eq_ok ended with ⟨-, -, -, -, -, -, same⟩ | ⟨-, -, row, -, -, -, -, new⟩
      · exact .of_eq (congrArg Db.tools same)
      · exact .insert new rfl

theorem startTool_ledger (scopeId : String) (id : Uuid) (actor : String) (s : Store) :
    s.db.LedgerStays (finalState (startTool d scopeId id actor) s).db := by
  rw [finalState]
  cases ended : startTool d scopeId id actor s with
  | error e t => exact .of_eq (congrArg Db.tools (startTool_error ended))
  | ok u t =>
      exact .update (startTool_eq_ok ended) (fun _ => ⟨rfl, rfl, rfl⟩) fun _ h => by cases h

theorem finishTool_ledger (scopeId : String) (id : Uuid) {status : ToolStatus}
    (ends : status ≠ .prepared) (resultRef : Option String)
    (error : Option (List (String × Json))) (actor : String) (revision : Option String)
    (s : Store) : s.db.LedgerStays
      (finalState (finishTool d scopeId id status resultRef error actor revision) s).db := by
  rw [finalState]
  cases ended : finishTool d scopeId id status resultRef error actor revision s with
  | error e t => exact .of_eq (congrArg Db.tools (finishTool_error ended))
  | ok u t => exact .update (finishTool_eq_ok ended) (fun _ => ⟨rfl, rfl, rfl⟩) fun _ => ends

theorem appendToolOutput_tools (scopeId : String) (id : Uuid) (stream text : String)
    (truncated : Bool) (actor : String) :
    Keeps Db.tools (appendToolOutput d scopeId id stream text truncated actor) :=
  .transaction (.bind .getDb fun _ => .bind (.orThrow _ _) fun _ => .bind (.now d) fun _ =>
    .bind (insertEvent_keeps .tools _ _ _ _ _ _) fun _ => .pure _)

/-- The call is one of those that write the ledger. -/
def Op.writesLedger : Op → Bool
  | .prepareTool .. | .startTool .. | .finishTool .. => true
  | _ => false

/-- All other calls leave the ledger alone. -/
theorem Op.exec_tools {op : Op} (quiet : op.writesLedger = false) (s : Store) :
    (op.exec d s).db.tools = s.db.tools := by
  cases op with
  | createSession =>
      exact createSession_keeps_of (g := Db.tools) (fun _ _ => rfl) (fun _ _ _ => rfl) _ _ _ _ _ s
  | acceptOnce =>
      exact acceptOnce_keeps .tools (fun _ _ => rfl) (fun _ _ _ _ _ _ => rfl) _ _ _ _ _ s
  | claimNextRun => exact claimNextRun_keeps .tools _ _ _ _ s
  | transitionRun => exact transitionRun_keeps .tools (fun _ _ _ _ _ _ => rfl) s
  | cancelRun => exact cancelRun_keeps .tools (fun _ _ _ _ _ _ _ => rfl) _ _ _ s
  | respondToRun =>
      exact respondToRun_keeps .tools (fun _ _ _ _ _ _ _ => rfl) (fun _ _ => rfl) _ _ _ _ _ _ _ s
  | recordWorkspaceRevision =>
      exact recordWorkspaceRevision_keeps (g := Db.tools) (fun _ _ _ _ _ _ _ => rfl)
        _ _ _ _ _ _ s
  | appendEvent => exact appendEvent_keeps .tools _ _ _ _ _ s
  | appendToolOutput => exact appendToolOutput_tools _ _ _ _ _ _ s
  | openPending p =>
      have kept : Keeps Db.tools (CodeForge.openPending p) :=
        .transaction (.bind .getDb fun _ => .bind (.orThrow _ _) fun _ =>
          .bind (.orThrow _ _) fun _ => .modifyDb fun _ => rfl)
      exact kept s
  | prepareTool | startTool | finishTool => cases quiet

/-- No tool ends as prepared. -/
def Op.Forward : Op → Prop
  | .finishTool _ _ status _ _ _ _ => status ≠ .prepared
  | _ => True

/-- No call takes a row of the ledger away, or a tool back. -/
theorem Op.exec_ledger {op : Op} (forward : op.Forward) (s : Store) :
    s.db.LedgerStays (op.exec d s).db := by
  cases op with
  | prepareTool => exact prepareTool_ledger _ _ s
  | startTool => exact startTool_ledger _ _ _ s
  | finishTool => exact finishTool_ledger _ _ forward _ _ _ _ s
  | createSession | acceptOnce | claimNextRun | transitionRun | cancelRun | respondToRun
  | recordWorkspaceRevision | appendEvent | appendToolOutput | openPending =>
      exact .of_eq (Op.exec_tools rfl s)

end CodeForge
