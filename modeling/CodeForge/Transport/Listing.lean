import Mathlib.Data.List.TakeDrop
import CodeForge.Lib.Paging
import CodeForge.Persistence.Access
import CodeForge.Persistence.Acceptance
import CodeForge.Persistence.Reading
import CodeForge.Persistence.Timestamps
import CodeForge.Persistence.Writes

/-!
# Listings

The messages of a session are listed by their numbers, and sessions by the time
they were created at and, where times are the same, by their identifiers.  The cursor of
a list of sessions is a text with both parts.

A client that follows the cursors gets everything that was there at its first request, each
once and in order, unless it asks for pages of zero entries: then it gets nothing
(`listings_enumerate_iff`).
-/

namespace CodeForge

open Lib StoreM
open Reader (RunView)

/-- `_int_query`.  What is given is what `int` makes of the text, nothing where it raises. -/
def intQuery (name : String) (raw : Option (Option Int)) (default maximum : Nat) :
    Except StoreError Nat :=
  match raw with
  | none => .ok default
  | some none => .error (.domain .invalidRequest s!"{name} must be an integer")
  | some (some value) =>
      if value < 0 then .error (.domain .invalidRequest s!"{name} must not be negative")
      else .ok (min value.toNat maximum)

/-- The limits of a request are those up to the maximum, zero among them. -/
theorem intQuery_eq_ok_iff {name : String} {default maximum limit : Nat} (h : default ≤ maximum) :
    (∃ raw, intQuery name raw default maximum = .ok limit) ↔ limit ≤ maximum := by
  constructor
  · rintro ⟨raw, ok⟩
    unfold intQuery at ok
    split at ok
    · cases ok
      exact h
    · cases ok
    · split at ok
      · cases ok
      · cases ok
        exact Nat.min_le_right _ _
  · intro le
    refine ⟨some (some (limit : Int)), ?_⟩
    rw [intQuery, if_neg (Int.not_lt.2 (Int.natCast_nonneg limit)), Int.toNat_natCast,
      Nat.min_eq_left le]

/-! ## Messages -/

/-- The runs of a session, in the order of their numbers. -/
def Db.runsOf (db : Db) (sessionId : Uuid) : List RunRow :=
  (db.runs.rows.filter fun r => r.sessionId = sessionId).insertionSort fun r s =>
    r.runSeq ≤ s.runSeq

/-- `list_messages_public` -/
def Reader.listMessagesPublic (R : Reader) (d : Deployment) (db : Db) (sessionId : Uuid)
    (cursor : Option Nat) (limit : Nat) : Except ReadError (List RunView × Option Nat) := do
  let rows := Paging.select RunRow.runSeq cursor limit
    (db.runs.rows.filter fun r => r.sessionId = sessionId)
  let items ← (rows.take limit).mapM fun r => R.decodeRun d db r
  return (items, Paging.nextCursor RunRow.runSeq limit rows)

/-- A request for messages, of the files as they are then. -/
def AsksMessages (d : Deployment) (sessionId : Uuid) (limit : Nat) (s : Store)
    (cursor : Option Nat) (answer : List RunView × Option Nat) : Prop :=
  ∃ R : Reader, R.listMessagesPublic d s.db sessionId cursor limit = .ok answer

/-- A request for runs, of the files as they are then. -/
def AsksRuns (d : Deployment) (scopeId : String) (sessionId : Uuid) (limit : Nat) (s : Store)
    (cursor : Option Nat) (answer : List RunView × Option Nat) : Prop :=
  ∃ R : Reader, R.listRuns d s.db scopeId sessionId cursor limit = .ok answer

/-- What was there is shown, each once and in order, among what came later. -/
def Enumerates (old shown : List Uuid) : Prop := shown.filter (· ∈ old) = old

section Messages

variable {d : Deployment} {π : Discipline} {s t : Store} {sessionId : Uuid} {limit : Nat}

theorem Reader.mapM_decodeRun {R : Reader} {db : Db} {rows : List RunRow} {views : List RunView}
    (h : rows.mapM (fun r => R.decodeRun d db r) = .ok views) : views.map RunView.row = rows := by
  induction rows generalizing views with
  | nil =>
      cases h
      rfl
  | cons r rows ih =>
      obtain ⟨v, rest, first, others, rfl⟩ := except_mapM_cons h
      rw [List.map_cons, Reader.decodeRun_row first, ih others]

/-- The entries of a list of runs: the runs that match, as they were accepted. -/
def Db.entries (p : Acceptance → Bool) (db : Db) : List Acceptance := db.acceptances.filter p

/-- The runs of one session are numbered in the order of their acceptance. -/
theorem Reachable.entries_increasing (h : Reachable d π s) {p : Acceptance → Bool}
    (session : ∀ a, p a = true → a.sessionId = sessionId) :
    Paging.Increasing Acceptance.runSeq (s.db.entries p) := by
  have within : s.db.entries p =
      (s.db.acceptances.filter fun a => a.sessionId = sessionId).filter p := by
    rw [Db.entries, List.filter_filter]
    refine List.filter_congr fun a _ => ?_
    cases matched : p a with
    | false => rfl
    | true => simp [session a matched]
  rw [within]
  exact List.Pairwise.filter _ (h.placed.increasing sessionId)

theorem Steps.entries (h : Steps d π s t) (p : Acceptance → Bool) :
    s.db.entries p <+: t.db.entries p := by
  obtain ⟨new, added⟩ := h.acceptances
  exact ⟨new.filter p, by rw [Db.entries, Db.entries, ← added, List.filter_append]⟩

/-- The rows of the entries. -/
theorem Db.entries_eq (db : Db) (p : Acceptance → Bool) :
    db.entries p = (db.runs.rows.filter fun r => p r.acceptance).map RunRow.acceptance := by
  rw [entries, acceptances, List.filter_map]
  rfl

theorem Db.rows_increasing {db : Db} {p : Acceptance → Bool}
    (h : Paging.Increasing Acceptance.runSeq (db.entries p)) :
    Paging.Increasing RunRow.runSeq (db.runs.rows.filter fun r => p r.acceptance) := by
  rw [entries_eq, Paging.Increasing, List.pairwise_map] at h
  exact h

/-- The runs of a session, in order, are its entries. -/
theorem Reachable.runsOf_eq (h : Reachable d π s) (sessionId : Uuid) :
    s.db.runsOf sessionId = s.db.runs.rows.filter fun r => r.sessionId = sessionId := by
  have increasing : Paging.Increasing Acceptance.runSeq
      (s.db.entries fun a => a.sessionId = sessionId) :=
    h.entries_increasing fun a => of_decide_eq_true
  exact List.Pairwise.insertionSort_eq (Db.rows_increasing increasing).sorted

/-- What is selected among rows is selected among acceptances. -/
theorem Db.select_entries {db : Db} {p : Acceptance → Bool} (cursor : Option Nat) (limit : Nat)
    (h : Paging.Increasing Acceptance.runSeq (db.entries p)) :
    (Paging.select RunRow.runSeq cursor limit
      (db.runs.rows.filter fun r => p r.acceptance)).map RunRow.acceptance =
        Paging.select Acceptance.runSeq cursor limit (db.entries p) := by
  rw [Paging.select, Paging.select, h.after_eq, (Db.rows_increasing h).after_eq, entries_eq,
    List.map_take, List.filter_map]
  rfl

/-- A list of runs is served from the runs that match. -/
theorem Db.serves_entries {ask : Store → Option Nat → List RunView × Option Nat → Prop}
    {p : Acceptance → Bool}
    (h : ∀ {s cursor answer}, ask s cursor answer →
      let rows := Paging.select RunRow.runSeq cursor limit
        (s.db.runs.rows.filter fun r => p r.acceptance)
      answer.1.map RunView.row = rows.take limit ∧
        answer.2 = Paging.nextCursor RunRow.runSeq limit rows) :
    Paging.Serves ask limit Acceptance.runSeq (fun s => s.db.entries p)
      (fun v => v.row.acceptance) id where
  page {s cursor items next} asked increasing := by
    obtain ⟨shown, following⟩ := h asked
    have selected := s.db.select_entries cursor limit increasing
    simp only [id_eq]
    constructor
    · have views : items.map (fun v => v.row.acceptance) =
          (items.map RunView.row).map RunRow.acceptance := by simp
      rw [views, shown, List.map_take, selected, Paging.select, List.take_take,
        Nat.min_eq_left (Nat.le_succ limit)]
    · dsimp only at following
      rw [following, ← selected, Paging.nextCursor, Paging.nextCursor, List.length_map]
      congr 1
      split
      · split
        · rw [List.getLast?_map, Option.map_map]
          rfl
        · rw [List.getElem?_map, Option.map_map]
          rfl
      · rfl

/-- Following the cursors of a list of runs enumerates those at the first request, unless the
limit is zero and there is one. -/
theorem Reachable.entries_enumerated {ask : Store → Option Nat → List RunView × Option Nat → Prop}
    {p : Acceptance → Bool} (reach : Reachable d π s)
    (serves : Paging.Serves ask limit Acceptance.runSeq (fun s => s.db.entries p)
      (fun v => v.row.acceptance) id)
    (session : ∀ a, p a = true → a.sessionId = sessionId) {shown : List RunView}
    (follow : Paging.Follows ask (Steps d π) s none shown t) (st : Steps d π s t) :
    Enumerates ((s.db.entries p).map Acceptance.id) (shown.map fun v => v.row.id) ↔
      0 < limit ∨ s.db.entries p = [] := by
  have grow : ∀ {s t}, Steps d π s t → s.db.entries p <+: t.db.entries p := fun st => st.entries p
  have ordered := (reach.steps st).entries_increasing session
  cases limit with
  | zero =>
      have nothing := serves.follows_zero follow grow ordered
      rw [nothing, Enumerates, List.map_nil, List.filter_nil, eq_comm, List.map_eq_nil_iff]
      simp only [Nat.lt_irrefl, false_or]
  | succ limit =>
      have all := serves.follows follow (Nat.succ_pos limit) grow ordered
      rw [id_eq, ordered.after_none] at all
      have ids : shown.map (fun v => v.row.id) = (t.db.entries p).map Acceptance.id := by
        rw [← all, List.map_map]
        rfl
      obtain ⟨new, added⟩ := grow st
      have distinct : ((t.db.entries p).map Acceptance.id).Nodup := by
        have rows : (t.db.acceptances.map Acceptance.id).Nodup := by
          rw [Db.acceptances, List.map_map]
          refine List.pairwise_map.2 (t.db.runs.distinct.imp fun {r r'} differ same => ?_)
          rw [rowClash_of_key (α := RunRow) same] at differ
          cases differ
        exact rows.sublist (List.filter_sublist.map _)
      rw [← added, List.map_append] at distinct
      have apart := (List.nodup_append.1 distinct).2.2
      simp only [Nat.succ_pos, true_or, iff_true]
      rw [ids, ← added, List.map_append, Enumerates, List.filter_append, List.filter_eq_self.2,
        List.filter_eq_nil_iff.2, List.append_nil]
      · intro id hid
        simpa using fun a ha same => apart _ (List.mem_map_of_mem ha) _ hid same
      · intro id hid
        simpa using hid

end Messages

/-! ## Sessions -/

/-- The key sessions are listed by. -/
def SessionView.key (d : Deployment) (v : SessionView) : String ×ₗ String :=
  toLex (v.session.audit.dateCreated, d.uuidText v.session.id)

/-- `f"{last['date_created']}|{last['id']}"` -/
def cursorText (k : String ×ₗ String) : String := (ofLex k).1 ++ "|" ++ (ofLex k).2

/-- `cursor.split("|", 1)`, nothing where it has one part. -/
def splitCursor (cursor : String) : Option (String ×ₗ String) :=
  match cursor.toList.span (· ≠ '|') with
  | (created, _ :: ident) => some (toLex (String.ofList created, String.ofList ident))
  | (_, []) => none

/-- A clause of the query, which an empty value leaves out. -/
def clause (value : Option String) (column : String) : Bool :=
  value.all fun v => v = "" || column = v

/-- The sessions with their workspaces that the clauses select. -/
def Db.matchingSessions (db : Db) (userRelPath projectRef : Option String) : List SessionView :=
  (db.sessions.rows.filterMap fun s =>
    (db.workspace s.scopeId s.workspaceId).map fun w => { session := s, workspace := w }).filter
      fun v => clause userRelPath v.workspace.userRelPath && clause projectRef v.workspace.projectRef

/-- The key a cursor stands for.  `if cursor:` takes an empty one for none. -/
def cursorKey : Option String → Except ReadError (Option (String ×ₗ String))
  | none => .ok none
  | some cursor =>
      if cursor = "" then .ok none
      else
        match splitCursor cursor with
        | some k => .ok (some k)
        -- the parts cannot be unpacked
        | none => .error (.uncaught .value)

/-- `list_sessions_public` -/
def Db.listSessionsPublic (db : Db) (d : Deployment) (userRelPath projectRef cursor : Option String)
    (limit : Nat) : Except ReadError (List SessionView × Option String) := do
  let start ← cursorKey cursor
  let rows := Paging.select (SessionView.key d) start limit
    (db.matchingSessions userRelPath projectRef)
  return (rows.take limit, (Paging.nextCursor (SessionView.key d) limit rows).map cursorText)

/-- A request for sessions, of tables that stay as they are. -/
def AsksSessions (d : Deployment) (db : Db) (userRelPath projectRef : Option String) (limit : Nat)
    (_ : Unit) (cursor : Option String) (answer : List SessionView × Option String) : Prop :=
  db.listSessionsPublic d userRelPath projectRef cursor limit = .ok answer

/-- The sessions that match, in the order of their times and identifiers. -/
def Db.sessionsInOrder (db : Db) (d : Deployment) (userRelPath projectRef : Option String) :
    List SessionView :=
  (db.matchingSessions userRelPath projectRef).insertionSort fun v w => v.key d ≤ w.key d

/-- A time has no `|`, so a cursor is split where its parts were joined. -/
theorem splitCursor_cursorText {k : String ×ₗ String} (plain : '|' ∉ (ofLex k).1.toList) :
    splitCursor (cursorText k) = some k := by
  have letters : (cursorText k).toList = (ofLex k).1.toList ++ '|' :: (ofLex k).2.toList := by
    simp [cursorText]
  have front : ∀ l r : List Char, '|' ∉ l → (l ++ '|' :: r).span (· ≠ '|') = (l, '|' :: r) := by
    intro l r absent
    rw [List.span_eq_takeWhile_dropWhile]
    have all : ∀ c ∈ l, decide (c ≠ '|') = true := fun c hc =>
      decide_eq_true fun same => absent (same ▸ hc)
    rw [List.takeWhile_append_of_pos all, List.dropWhile_append_of_pos all]
    simp
  rw [splitCursor, letters, front _ _ plain]
  simp only [String.ofList_toList]
  rfl

/-! ## Times of sessions -/

/-- The clock is rendered by `_iso`, and different identifiers have different texts. -/
structure Deployment.Renders (d : Deployment) : Prop where
  clock : ∀ n, ∃ instant : DateTime, d.clock n = iso instant
  uuidText : Function.Injective d.uuidText

/-- When the sessions were created. -/
def Db.births (db : Db) : List Timestamp := db.sessions.rows.map fun s => s.audit.dateCreated

section Births

variable {d : Deployment} {π : Discipline} {s : Store}

/-- Updates leave the time of a session as it is. -/
theorem Db.Apart.births : Db.Apart Db.births where
  event db events e now actor := by
    simp only [Db.births, Db.setEventSeqs]
    rw [Table.map_updateIn_same]
    intro s
    rfl
  attempts _ _ := rfl
  occupySession db a actor := by
    simp only [Db.births, Db.occupySession]
    rw [Table.map_updateIn_same]
    intro s
    rfl
  occupyWorkspace _ _ _ _ := rfl
  startRun _ _ _ _ := rfl
  release db r now actor := by
    simp only [Db.births, Db.release]
    rw [Table.map_updateWhere_same]
    intro s
    rfl
  tools _ _ := rfl

theorem Db.Aside.births : Db.Aside Db.births := Db.Apart.births.toAside

/-- A session is created at a reading of the clock. -/
theorem createSession_births (scopeId key title : String) (externalRef : Option String)
    (context : ExecutionContext) (s : Store) :
    ∀ now ∈ (finalState (createSession d scopeId key title externalRef context) s).db.births,
      now ∈ s.db.births ∨ ∃ n, now = d.clock n := by
  intro now mem
  cases ended : createSession d scopeId key title externalRef context s with
  | error e t =>
      rw [finalState_of_error ended, createSession_error_db ended] at mem
      exact .inl mem
  | ok view t =>
      rw [finalState_of_ok ended] at mem
      simp only [createSession, now_bind_eq_ok] at ended
      obtain ⟨sessionId, s₁, body, last⟩ := bind_eq_ok.1 ended
      simp only [getDb_bind_eq_ok, pure_eq_ok] at last
      obtain ⟨-, rfl⟩ := last
      simp only [transaction_eq_ok, getDb_bind_eq_ok] at body
      cases request : s.db.sessionRequests.get? (scopeId, key) with
      | some row =>
          simp only [request, ensure_bind_eq_ok, pure_eq_ok] at body
          obtain ⟨-, -, rfl⟩ := body
          exact .inl mem
      | none =>
          simp only [request, uuid4_bind_eq_ok] at body
          obtain ⟨workspaceId, s₂, placed, rest⟩ := bind_eq_ok.1 body
          obtain ⟨u, s₃, added, rest⟩ := bind_eq_ok.1 rest
          obtain ⟨-, rfl⟩ := pure_eq_ok.1 rest
          obtain ⟨sessions, requests, insert, -, rfl⟩ := insertSession_eq_ok added
          have kept := Keeps.of_ok (g := Db.births) (workspaceFor_keeps (fun _ _ => rfl) _ _ _ _)
            placed
          dsimp only [Db.births] at mem
          rw [(Table.insert?_eq_some.1 insert).2, List.map_append, List.mem_append] at mem
          cases mem with
          | inl old => exact .inl (kept ▸ old)
          | inr new => exact .inr ⟨s.ticks, List.mem_singleton.1 new⟩

/-- Times of sessions are readings of the clock. -/
theorem Op.exec_births (op : Op) (s : Store) :
    ∀ now ∈ (op.exec d s).db.births, now ∈ s.db.births ∨ ∃ n, now = d.clock n := by
  have still : ∀ {s t : Store}, t.db.births = s.db.births → ∀ now ∈ t.db.births,
      now ∈ s.db.births ∨ ∃ n, now = d.clock n := fun same now mem => .inl (same ▸ mem)
  cases op with
  | createSession scopeId key title externalRef context =>
      exact createSession_births scopeId key title externalRef context s
  | acceptOnce =>
      refine still (acceptOnce_keeps .births (fun _ _ => rfl) (fun db _ _ _ _ _ => ?_) _ _ _ _ _ s)
      simp only [Db.births, Db.setNextRunSeq]
      rw [Table.map_updateIn_same]
      intro s
      rfl
  | claimNextRun => exact still (claimNextRun_keeps .births _ _ _ _ s)
  | transitionRun =>
      exact still (transitionRun_keeps .births (fun _ _ _ _ _ _ => rfl) s)
  | cancelRun => exact still (cancelRun_keeps .births (fun _ _ _ _ _ _ _ => rfl) _ _ _ s)
  | respondToRun =>
      exact still (respondToRun_keeps .births (fun _ _ _ _ _ _ _ => rfl) (fun _ _ => rfl)
        _ _ _ _ _ _ _ s)
  | recordWorkspaceRevision =>
      exact still (recordWorkspaceRevision_keeps (fun _ _ _ _ _ _ _ => rfl) _ _ _ _ _ _ s)
  | appendEvent => exact still (appendEvent_keeps .births _ _ _ _ _ s)
  | prepareTool => exact still (prepareTool_keeps .births _ _ s)
  | startTool => exact still (startTool_keeps .births _ _ _ s)
  | appendToolOutput => exact still (appendToolOutput_keeps .births _ _ _ _ _ _ s)
  | finishTool => exact still (finishTool_keeps .births _ _ _ _ _ _ _ s)
  | openPending p =>
      have kept : Keeps Db.births (CodeForge.openPending p) :=
        .transaction (.bind .getDb fun _ => .bind (.orThrow _ _) fun _ =>
          .bind (.orThrow _ _) fun _ => .modifyDb fun _ => rfl)
      exact still (kept s)

theorem Reachable.births (h : Reachable d π s) : ∀ now ∈ s.db.births, ∃ n, now = d.clock n := by
  induction h with
  | refl => exact fun _ mem => absurd mem List.not_mem_nil
  | tail _ st ih =>
      intro now mem
      cases st with
      | call op obeys =>
          cases op.exec_births _ now mem with
          | inl old => exact ih now old
          | inr new => exact new
      | fault grown rollback =>
          rw [rollback] at mem
          exact ih now mem

end Births

/-! ## Following the cursors -/

section Following

variable {d : Deployment} {π : Discipline} {s t : Store} {limit : Nat}
  {userRelPath projectRef : Option String}

theorem cursorKey_cursorText {k : String ×ₗ String} (plain : '|' ∉ (ofLex k).1.toList) :
    cursorKey (some (cursorText k)) = .ok (some k) := by
  have some_text : cursorText k ≠ "" := by
    intro empty
    have letters := congrArg String.toList empty
    simp [cursorText] at letters
  simp only [cursorKey, if_neg some_text, splitCursor_cursorText plain]

/-- The key after which a request goes on. -/
def startOf (cursor : Option String) : Option (String ×ₗ String) :=
  match cursorKey cursor with
  | .ok start => start
  | .error _ => none

/-- Identifiers tell sessions apart. -/
theorem Db.matchingSessions_differ (renders : d.Renders) (db : Db)
    (userRelPath projectRef : Option String) :
    (db.matchingSessions userRelPath projectRef).Pairwise fun v w => v.key d ≠ w.key d := by
  refine List.Pairwise.filter _ (List.Pairwise.filterMap _ ?_ db.sessions.distinct)
  intro r r' differ v hv w hw same
  obtain ⟨_, -, rfl⟩ := Option.map_eq_some_iff.1 hv
  obtain ⟨_, -, rfl⟩ := Option.map_eq_some_iff.1 hw
  have ids : r.id = r'.id := renders.uuidText (Prod.mk.inj same).2
  rw [rowClash_of_key (α := SessionRow) ids] at differ
  cases differ

theorem Db.sessionsInOrder_increasing (renders : d.Renders) (db : Db)
    (userRelPath projectRef : Option String) :
    Paging.Increasing (SessionView.key d) (db.sessionsInOrder d userRelPath projectRef) :=
  Paging.increasing_insertionSort (db.matchingSessions_differ renders userRelPath projectRef)

/-- The time of a session has no `|`. -/
theorem Reachable.key_plain (h : Reachable d π s) (renders : d.Renders) {v : SessionView}
    (hv : v ∈ s.db.matchingSessions userRelPath projectRef) :
    '|' ∉ (ofLex (v.key d)).1.toList := by
  obtain ⟨r, hr, found⟩ := List.mem_filterMap.1 (List.mem_filter.1 hv).1
  obtain ⟨w, -, rfl⟩ := Option.map_eq_some_iff.1 found
  obtain ⟨n, time⟩ := h.births _ (List.mem_map_of_mem hr)
  obtain ⟨instant, text⟩ := renders.clock n
  change '|' ∉ r.audit.dateCreated.toList
  rw [time, text]
  exact instant.not_mem_iso

/-- What a request for sessions is answered with. -/
theorem Db.listSessionsPublic_eq_ok {db : Db} {cursor next : Option String}
    {items : List SessionView} :
    db.listSessionsPublic d userRelPath projectRef cursor limit = .ok (items, next) ↔
      ∃ start, cursorKey cursor = .ok start ∧
        let rows := Paging.select (SessionView.key d) start limit
          (db.matchingSessions userRelPath projectRef)
        items = rows.take limit ∧
          next = (Paging.nextCursor (SessionView.key d) limit rows).map cursorText := by
  rw [listSessionsPublic, except_bind_eq_ok]
  constructor
  · rintro ⟨start, key, answer⟩
    cases answer
    exact ⟨start, key, rfl, rfl⟩
  · rintro ⟨start, key, rfl, rfl⟩
    exact ⟨start, key, rfl⟩

/-- The cursor of a page is the key of a session that matches. -/
theorem Reachable.nextCursor_plain (h : Reachable d π s) (renders : d.Renders)
    {start : Option (String ×ₗ String)} {k : String ×ₗ String}
    (next : Paging.nextCursor (SessionView.key d) limit (Paging.select (SessionView.key d) start
      limit (s.db.matchingSessions userRelPath projectRef)) = some k) :
    '|' ∉ (ofLex k).1.toList := by
  obtain ⟨v, there, rfl⟩ := Paging.nextCursor_eq_some next
  have mem := (List.perm_insertionSort _ _).subset (List.mem_of_getElem? there)
  exact h.key_plain renders (List.mem_filter.1 mem).1

/-- A list of sessions is served from those that match. -/
theorem Reachable.serves_sessions (h : Reachable d π s) (renders : d.Renders)
    (userRelPath projectRef : Option String) (limit : Nat) :
    Paging.Serves (AsksSessions d s.db userRelPath projectRef limit) limit (SessionView.key d)
      (fun _ => s.db.sessionsInOrder d userRelPath projectRef) id startOf where
  page {_ cursor items next} asked _ := by
    obtain ⟨start, key, rfl, rfl⟩ := Db.listSessionsPublic_eq_ok.1 asked
    have begins : startOf cursor = start := by rw [startOf, key]
    have ordered := Paging.after_insertionSort (s.db.matchingSessions_differ renders
      userRelPath projectRef) start
    have selected : Paging.select (SessionView.key d) start limit
        (s.db.matchingSessions userRelPath projectRef) =
          Paging.select (SessionView.key d) start limit
            (s.db.sessionsInOrder d userRelPath projectRef) := by
      rw [Paging.select, ordered]
      rfl
    rw [begins, List.map_id]
    constructor
    · rw [selected, Paging.select, List.take_take, Nat.min_eq_left (Nat.le_succ limit)]
    · rw [← selected, Option.map_map]
      refine Option.map_congr fun k following => ?_
      have plain := h.nextCursor_plain renders following
      simp only [Function.comp_apply, startOf, cursorKey_cursorText plain]

/-- Following ends, as the cursor of a page is one the server can read. -/
theorem Reachable.sessions_end (h : Reachable d π s) (renders : d.Renders)
    (userRelPath projectRef : Option String) (limit : Nat) :
    ∃ shown, Paging.Follows (AsksSessions d s.db userRelPath projectRef limit) (fun _ _ => True) ()
      none shown () := by
  have increasing := s.db.sessionsInOrder_increasing renders userRelPath projectRef
  refine (h.serves_sessions renders userRelPath projectRef limit).ends trivial increasing ?_ ?_
  · intro cursor items next asked
    obtain ⟨start, key, -, following⟩ := Db.listSessionsPublic_eq_ok.1 asked
    obtain ⟨k, cursors, rfl⟩ := Option.map_eq_some_iff.1 following.symm
    exact ⟨_, Db.listSessionsPublic_eq_ok.2
      ⟨_, cursorKey_cursorText (h.nextCursor_plain renders cursors), rfl, rfl⟩⟩
  · exact ⟨_, Db.listSessionsPublic_eq_ok.2 ⟨none, rfl, rfl, rfl⟩⟩

/-- All sessions that match are shown in their order, unless the limit is zero and there is
one. -/
theorem Reachable.sessions_enumerated (h : Reachable d π s) (renders : d.Renders)
    {shown : List SessionView}
    (follow : Paging.Follows (AsksSessions d s.db userRelPath projectRef limit) (fun _ _ => True) ()
      none shown ()) :
    shown = s.db.sessionsInOrder d userRelPath projectRef ↔
      0 < limit ∨ s.db.sessionsInOrder d userRelPath projectRef = [] := by
  have increasing := s.db.sessionsInOrder_increasing renders userRelPath projectRef
  have serves := h.serves_sessions renders userRelPath projectRef limit
  cases limit with
  | zero =>
      rw [serves.follows_zero follow (fun _ => List.prefix_refl _) increasing, eq_comm]
      simp only [Nat.lt_irrefl, false_or]
  | succ limit =>
      have all := serves.follows follow (Nat.succ_pos limit) (fun _ => List.prefix_refl _)
        increasing
      have start : startOf none = none := rfl
      rw [List.map_id, start, increasing.after_none] at all
      simp only [Nat.succ_pos, true_or, iff_true]
      exact all

theorem Reader.listMessagesPublic_eq_ok {R : Reader} {db : Db} {sessionId : Uuid}
    {cursor : Option Nat} {answer : List RunView × Option Nat}
    (h : R.listMessagesPublic d db sessionId cursor limit = .ok answer) :
    let rows := Paging.select RunRow.runSeq cursor limit
      (db.runs.rows.filter fun r => r.sessionId = sessionId)
    answer.1.map RunView.row = rows.take limit ∧
      answer.2 = Paging.nextCursor RunRow.runSeq limit rows := by
  obtain ⟨items, read, h⟩ := except_bind_eq_ok.1 h
  cases h
  exact ⟨Reader.mapM_decodeRun read, rfl⟩

theorem Reader.listRuns_eq_ok {R : Reader} {db : Db} {scopeId : String} {sessionId : Uuid}
    {cursor : Option Nat} {answer : List RunView × Option Nat}
    (h : R.listRuns d db scopeId sessionId cursor limit = .ok answer) :
    let rows := Paging.select RunRow.runSeq cursor limit
      (db.runs.rows.filter fun r => r.scopeId = scopeId && r.sessionId = sessionId)
    answer.1.map RunView.row = rows.take limit ∧
      answer.2 = Paging.nextCursor RunRow.runSeq limit rows := by
  have selected : runPage db scopeId sessionId cursor limit =
      Paging.select RunRow.runSeq cursor limit
        (db.runs.rows.filter fun r => r.scopeId = scopeId && r.sessionId = sessionId) := by
    rw [Paging.select, Paging.after, List.filter_filter]
    simp only [runPage, Bool.and_comm]
  obtain ⟨items, read, h⟩ := except_bind_eq_ok.1 h
  cases h
  rw [selected] at read ⊢
  exact ⟨Reader.mapM_decodeRun read, rfl⟩

/-- A client that follows the cursors from the start until there is none gets every run of a
session that was there at its first request, each once and in order, and every session that
matches, if and only if its limit is not zero or there is nothing to get. -/
theorem listings_enumerate_iff (renders : d.Renders) (reach : Reachable d π s) (limit : Nat) :
    (∀ sessionId shown t,
      Paging.Follows (AsksMessages d sessionId limit) (Steps d π) s none shown t →
        (Enumerates ((s.db.runsOf sessionId).map RunRow.id) (shown.map fun v => v.row.id) ↔
          0 < limit ∨ s.db.runsOf sessionId = [])) ∧
    (∀ scopeId sessionId shown t,
      Paging.Follows (AsksRuns d scopeId sessionId limit) (Steps d π) s none shown t →
        let old := (s.db.runsOf sessionId).filter fun r => r.scopeId = scopeId
        Enumerates (old.map RunRow.id) (shown.map fun v => v.row.id) ↔ 0 < limit ∨ old = []) ∧
    ∀ userRelPath projectRef,
      (∃ shown, Paging.Follows (AsksSessions d s.db userRelPath projectRef limit) (fun _ _ => True)
        () none shown ()) ∧
      ∀ shown, Paging.Follows (AsksSessions d s.db userRelPath projectRef limit) (fun _ _ => True)
          () none shown () →
        (shown = s.db.sessionsInOrder d userRelPath projectRef ↔
          0 < limit ∨ s.db.sessionsInOrder d userRelPath projectRef = []) := by
  have later : ∀ {ask : Store → Option Nat → List RunView × Option Nat → Prop} {shown t},
      Paging.Follows ask (Steps d π) s none shown t → Steps d π s t := fun follow =>
    follow.change (fun _ => .refl) fun st st' => st.trans st'
  refine ⟨fun sessionId shown t follow => ?_, fun scopeId sessionId shown t follow => ?_,
    fun userRelPath projectRef => ⟨reach.sessions_end renders userRelPath projectRef limit,
      fun shown follow => reach.sessions_enumerated renders follow⟩⟩
  · have serves : Paging.Serves (AsksMessages d sessionId limit) limit Acceptance.runSeq
        (fun s => s.db.entries fun a => a.sessionId = sessionId) (fun v => v.row.acceptance) id :=
      Db.serves_entries fun ⟨R, ok⟩ => Reader.listMessagesPublic_eq_ok ok
    have same := reach.entries_enumerated serves (fun a => of_decide_eq_true) follow (later follow)
    rw [Db.entries_eq, List.map_map, List.map_eq_nil_iff] at same
    rw [reach.runsOf_eq]
    exact same
  · have serves : Paging.Serves (AsksRuns d scopeId sessionId limit) limit Acceptance.runSeq
        (fun s => s.db.entries fun a => a.scopeId = scopeId && a.sessionId = sessionId)
        (fun v => v.row.acceptance) id :=
      Db.serves_entries fun ⟨R, ok⟩ => Reader.listRuns_eq_ok ok
    have session : ∀ a : Acceptance,
        (decide (a.scopeId = scopeId) && decide (a.sessionId = sessionId)) = true →
          a.sessionId = sessionId := fun a both => of_decide_eq_true (Bool.and_eq_true_iff.1 both).2
    have same := reach.entries_enumerated serves session follow (later follow)
    rw [Db.entries_eq, List.map_map, List.map_eq_nil_iff] at same
    rw [reach.runsOf_eq, List.filter_filter]
    exact same

/-- A deployment whose clock and identifiers are rendered. -/
def Deployment.rendered : Deployment where
  host := .withoutLinks fun _ => none
  sha256 := Sha256.hexdigest
  uuidText u := toString u.draw
  clock n := iso
    { year := 2026, month := 1, day := 1, microsecond := n % 1000000
      time_valid := ⟨by decide, by decide, by decide, Nat.mod_lt n (by decide)⟩ }
  legacyRoot := "/var/lib/code-forge"

theorem Deployment.rendered_renders : Deployment.rendered.Renders where
  clock _ := ⟨_, rfl⟩
  uuidText u v same := by
    have draws : u.draw = v.draw := Json.nat_injective (congrArg Json.num same)
    cases u
    cases v
    exact congrArg _ draws

/-- The only message of a session is got with a limit of one. -/
theorem listings_enumerate_firstSend :
    let s := Op.execAll .rendered Op.firstSend {}
    ∃ shown, Paging.Follows (AsksSessions .rendered s.db none none 1) (fun _ _ => True) () none
      shown () ∧ shown = s.db.sessionsInOrder .rendered none none := by
  have reach : Reachable .rendered {} (Op.execAll .rendered Op.firstSend {}) :=
    .execAll fun op _ => op.obeys_default
  obtain ⟨-, -, sessions⟩ := listings_enumerate_iff Deployment.rendered_renders reach 1
  obtain ⟨⟨shown, follow⟩, all⟩ := sessions none none
  exact ⟨shown, follow, (all shown follow).2 (.inl Nat.one_pos)⟩

/-- A client may ask for pages of zero messages, and then does not get the only one. -/
theorem listings_skip_firstSend :
    let s := Op.execAll .rendered Op.firstSend {}
    Reachable .rendered {} s ∧ intQuery "limit" (some (some 0)) 50 100 = .ok 0 ∧
      ∃ shown, Paging.Follows (AsksMessages .rendered ⟨0⟩ 0) (Steps .rendered {}) s none shown s ∧
        ¬ Enumerates ((s.db.runsOf ⟨0⟩).map RunRow.id) (shown.map fun v => v.row.id) := by
  have reach : Reachable .rendered {} (Op.execAll .rendered Op.firstSend {}) :=
    .execAll fun op _ => op.obeys_default
  have found : let rows := (Op.execAll .rendered Op.firstSend {}).db.runs.rows.filter fun r =>
      r.sessionId = ⟨0⟩
      Paging.nextCursor RunRow.runSeq 0 (Paging.select RunRow.runSeq none 0 rows) = some 1 ∧
        Paging.nextCursor RunRow.runSeq 0 (Paging.select RunRow.runSeq (some 1) 0 rows) = none ∧
        rows.length = 1 := by decide +kernel
  generalize Op.execAll .rendered Op.firstSend {} = s at reach found
  obtain ⟨first, second, one⟩ := found
  have empty : ∀ cursor, AsksMessages .rendered ⟨0⟩ 0 s cursor
      ([], Paging.nextCursor RunRow.runSeq 0 (Paging.select RunRow.runSeq cursor 0
        (s.db.runs.rows.filter fun r => r.sessionId = ⟨0⟩))) := fun cursor =>
    ⟨Access.plain.reader ∅, rfl⟩
  have page := empty none
  have last := empty (some 1)
  rw [first] at page
  rw [second] at last
  refine ⟨reach, rfl, [] ++ [], .more page .refl (.last last), ?_⟩
  intro all
  rw [reach.runsOf_eq] at all
  have none_there := congrArg List.length all
  rw [List.length_map, one] at none_there
  cases none_there

end Following

end CodeForge
