import CodeForge.Lib.Ranking
import CodeForge.Persistence.Store
import Mathlib.Data.Prod.Lex

/-!
# Migrations to version 4

Up to version 3 only runs numbered their events.  Version 4 numbers the events
of a session, in the order of its runs.  From version 1 the numbers come from a
`ROW_NUMBER` over a join (`eventsV1`), from versions 2 and 3 from a `COUNT` for
every event (`eventsV2`).  They are the same, and every session goes on after its
last event (`migrations_number_events`).
-/

namespace CodeForge

open Lib
open StoreM

/-! ## Tables up to version 3 -/

/-- A row of `sessions`, as far as the migrations read it. -/
structure OldSessionRow where
  id : Uuid
  scopeId : String
  workspaceId : Uuid
deriving DecidableEq

/-- A row of `runs`, as far as the migrations read it. -/
structure OldRunRow where
  id : Uuid
  scopeId : String
  sessionId : Uuid
  runSeq : Int
deriving DecidableEq

/-- A row of `run_events`. -/
structure OldEventRow where
  eventId : Uuid
  scopeId : String
  runId : Uuid
  seq : Int
  schemaVersion : String
  type : String
  data : String
  occurredAt : Timestamp
  audit : Audit
deriving DecidableEq

theorem oldSession_symm (i j : String × Uuid) : decide (i.2 = j.2) = decide (j.2 = i.2) := by
  simp only [eq_comm]

theorem oldSession_of_key (i j : String × Uuid) (h : i.2 = j.2) : decide (i.2 = j.2) = true := by
  simp [h]

/-- `PRIMARY KEY(id)`. -/
instance : Entity OldSessionRow (String × Uuid) String Uuid where
  ident s := (s.scopeId, s.id)
  scope i := i.1
  key i := i.2
  clash i j := i.2 = j.2
  clash_symm := oldSession_symm
  clash_of_key := oldSession_of_key

/-- `PRIMARY KEY(id)`, `UNIQUE(scope_id,session_id,run_seq)`. -/
instance : Entity OldRunRow OldRunRow String Uuid where
  ident r := r
  scope r := r.scopeId
  key r := r.id
  clash r r' := r.id = r'.id ||
    (r.scopeId = r'.scopeId && r.sessionId = r'.sessionId && r.runSeq = r'.runSeq)
  clash_symm r r' := by simp only [eq_comm]
  clash_of_key r r' h := by simp [h]

/-- `PRIMARY KEY(event_id)`, `UNIQUE(scope_id,run_id,seq)`. -/
instance : Entity OldEventRow OldEventRow String Uuid where
  ident e := e
  scope e := e.scopeId
  key e := e.eventId
  clash e f := e.eventId = f.eventId ||
    (e.scopeId = f.scopeId && e.runId = f.runId && e.seq = f.seq)
  clash_symm e f := by simp only [eq_comm]
  clash_of_key e f h := by simp [h]

theorem rowClash_oldRun {r r' : OldRunRow} :
    rowClash r r' = true ↔ r.id = r'.id ∨
      r.scopeId = r'.scopeId ∧ r.sessionId = r'.sessionId ∧ r.runSeq = r'.runSeq := by
  simp [rowClash, Entity.clash, Entity.ident, and_assoc]

theorem rowClash_oldEvent {e f : OldEventRow} :
    rowClash e f = true ↔ e.eventId = f.eventId ∨
      e.scopeId = f.scopeId ∧ e.runId = f.runId ∧ e.seq = f.seq := by
  simp [rowClash, Entity.clash, Entity.ident, and_assoc]

/-- The run of an event, by both columns of the join. -/
def OldEventRow.of (e : OldEventRow) (r : OldRunRow) : Bool :=
  r.scopeId = e.scopeId && r.id = e.runId

/-- The event log up to version 3: the run of every event is there. -/
structure OldLog where
  sessions : Table OldSessionRow
  runs : Table OldRunRow
  events : Table OldEventRow
  present : ∀ e ∈ events, ∃ r ∈ runs, e.of r

/-- A row of `run_events` of version 4. -/
structure NumberedEventRow extends OldEventRow where
  sessionId : Uuid
  sessionSeq : Nat
deriving DecidableEq

/-! ## Constraints of recording -/

/-- Where recording an event violates a constraint, the event clashes with another one. -/
theorem insertEventLocked_clash {d : Deployment} {scopeId : String} {runId : Uuid}
    {type : EventType} {data : Json} {actor : String} {occurredAt : Timestamp} {s s' : Store}
    {table : String}
    (h : insertEventLocked d scopeId runId type data actor occurredAt s =
      .error (.integrity table) s') :
    ∃ r ss f, s.db.run scopeId runId = some r ∧ s.db.session r.scopeId r.sessionId = some ss ∧
      f ∈ s.db.events ∧ (f.eventId = ⟨s.drawn⟩ ∨
        (f.scopeId = scopeId ∧ f.runId = runId ∧ f.seq = r.nextEventSeq) ∨
        (f.scopeId = scopeId ∧ f.sessionId = r.sessionId ∧ f.sessionSeq = ss.nextEventSeq)) := by
  cases run : s.db.run scopeId runId with
  | none =>
      have stopped : insertEventLocked d scopeId runId type data actor occurredAt s =
          .error (.domain .runNotFound "Run not found") s := by
        show (orThrow (s.db.run scopeId runId) _ >>= _) s = _
        rw [run]
        rfl
      rw [stopped] at h
      cases h
  | some r =>
      cases session : s.db.session r.scopeId r.sessionId with
      | none =>
          have stopped : insertEventLocked d scopeId runId type data actor occurredAt s =
              .error (.domain .runNotFound "Run not found") s := by
            show (orThrow (s.db.run scopeId runId) _ >>= _) s = _
            rw [run]
            show (orThrow (s.db.session r.scopeId r.sessionId) _ >>= _) s = _
            rw [session]
            rfl
          rw [stopped] at h
          cases h
      | some ss =>
          by_contra free
          have room : ∀ e : EventRow, e.eventId = ⟨s.drawn⟩ → e.scopeId = scopeId →
              e.runId = runId → e.sessionId = r.sessionId → e.seq = r.nextEventSeq →
              e.sessionSeq = ss.nextEventSeq → ∃ events, s.db.events.insert? e = some events := by
            intro e event scope run' session' seq sessionSeq
            refine Table.insert?_isSome fun f hf => ?_
            by_contra clash
            refine free ⟨r, ss, f, rfl, session, hf, ?_⟩
            rw [← event, ← scope, ← run', ← session', ← seq, ← sessionSeq]
            exact rowClash_event.1 (Bool.eq_true_of_not_eq_false clash)
          have ends : Ends (insertEventLocked d scopeId runId type data actor occurredAt) s := by
            refine .bind rfl (.orThrow_bind run (.orThrow_bind session ?_))
            refine .bind rfl (.bind rfl (.bind rfl ?_))
            exact .orThrow_bind (room _ rfl rfl rfl rfl rfl rfl).choose_spec
              (.bind rfl (.pure _ _))
          obtain ⟨e, s', recorded⟩ := ends
          rw [recorded] at h
          cases h

/-! ## Joins -/

/-- A join that finds at most one row for each counts the rows that it finds. -/
theorem length_flatMap_once {α β : Type} {f : α → List β} {c : α → Bool} {l : List α}
    (once : ∀ a ∈ l, (f a).length = if c a then 1 else 0) : (l.flatMap f).length = l.countP c := by
  induction l with
  | nil => rfl
  | cons a l ih =>
      have rest := ih fun b hb => once b (List.mem_cons_of_mem a hb)
      rw [List.flatMap_cons, List.length_append, rest, once a List.mem_cons_self,
        List.countP_cons, Nat.add_comm]

/-- A join that finds the row itself, or nothing, filters. -/
theorem flatMap_eq_filter {α : Type} {f : α → List α} {c : α → Bool} {l : List α}
    (once : ∀ a ∈ l, f a = if c a then [a] else []) : l.flatMap f = l.filter c := by
  induction l with
  | nil => rfl
  | cons a l ih =>
      rw [List.flatMap_cons, once a List.mem_cons_self,
        ih fun b hb => once b (List.mem_cons_of_mem a hb), List.filter_cons]
      cases c a <;> rfl

namespace OldLog

variable (log : OldLog)

/-! ## Numbering the events of sessions -/

/-- `run_events e JOIN runs r ON r.scope_id=e.scope_id AND r.id=e.run_id` -/
def joined : List (OldEventRow × OldRunRow) :=
  log.events.rows.flatMap fun e => (log.runs.rows.filter e.of).map (e, ·)

/-- `PARTITION BY e.scope_id,r.session_id` -/
def partition (j : OldEventRow × OldRunRow) : List (OldEventRow × OldRunRow) :=
  log.joined.filter fun k => k.1.scopeId = j.1.scopeId && k.2.sessionId = j.2.sessionId

/-- `ORDER BY r.run_seq,e.seq` -/
def order (j : OldEventRow × OldRunRow) : Int ×ₗ Int := toLex (j.2.runSeq, j.1.seq)

/-- The events of `_migrate_v1_to_v4`: their `ROW_NUMBER`. -/
def eventsV1 : List NumberedEventRow :=
  log.joined.map fun j =>
    { j.1 with sessionId := j.2.sessionId, sessionSeq := place order (log.partition j) j }

/-- The rows that `_migrate_v2_to_v4` and `_migrate_v3_to_v4` count for an event: earlier events
with their runs, and the run of the event. -/
def prior (e : OldEventRow) : List ((OldEventRow × OldRunRow) × OldRunRow) :=
  log.joined.flatMap fun p => ((log.runs.rows.filter e.of).filter fun r =>
    p.1.scopeId = e.scopeId && p.2.sessionId = r.sessionId &&
      (p.2.runSeq < r.runSeq || (p.2.runSeq = r.runSeq && p.1.seq ≤ e.seq))).map (p, ·)

/-- The events of `_migrate_v2_to_v4` and `_migrate_v3_to_v4`.  Without a run, an event would have
no session. -/
def eventsV2 : Option (List NumberedEventRow) :=
  log.events.rows.mapM fun e => (log.runs.rows.find? e.of).map fun r =>
    { e with sessionId := r.sessionId, sessionSeq := (log.prior e).length }

/-- The events of a session. -/
def sessionEvents (scopeId : String) (sessionId : Uuid) : List NumberedEventRow :=
  log.eventsV1.filter fun e => e.scopeId = scopeId && e.sessionId = sessionId

/-- The runs of version 4: `_migrate_v1_to_v4` joins them with their sessions. -/
def runsV1 : List OldRunRow :=
  log.runs.rows.flatMap fun r => (log.sessions.rows.filter fun s =>
    s.scopeId = r.scopeId && s.id = r.sessionId).map fun _ => r

/-- `next_event_seq`, as `_migrate_v1_to_v4` sets it. -/
def nextEventSeqV1 (s : OldSessionRow) : Nat :=
  1 + (log.eventsV1.flatMap fun e =>
    log.runsV1.filter fun r => e.of r && r.sessionId = s.id).length

/-- `next_event_seq`, as `_migrate_v2_to_v4` and `_migrate_v3_to_v4` set it. -/
def nextEventSeqV2 (events : List NumberedEventRow) (s : OldSessionRow) : Nat :=
  1 + (events.filter fun e => e.sessionId = s.id).length

/-- `FOREIGN KEY(scope_id,session_id) REFERENCES sessions(scope_id,id)` of `runs`. -/
def Owned : Prop := ∀ r ∈ log.runs, ∃ s ∈ log.sessions, s.scopeId = r.scopeId ∧ s.id = r.sessionId

variable {log} {e f : OldEventRow} {r r' : OldRunRow} {j k : OldEventRow × OldRunRow}

theorem of_iff : e.of r = true ↔ r.scopeId = e.scopeId ∧ r.id = e.runId := by
  simp [OldEventRow.of]

variable (log) in
/-- The run of an event. -/
def runOf (e : OldEventRow) : OldRunRow :=
  (log.runs.rows.find? e.of).getD ⟨⟨0⟩, "", ⟨0⟩, 0⟩

theorem find_of (he : e ∈ log.events) : log.runs.rows.find? e.of = some (log.runOf e) := by
  obtain ⟨r, hr, h⟩ := log.present e he
  cases found : log.runs.rows.find? e.of with
  | none => exact absurd h (List.find?_eq_none.1 found r hr)
  | some r' => rw [runOf, found, Option.getD_some]

theorem runOf_mem (he : e ∈ log.events) : log.runOf e ∈ log.runs :=
  List.mem_of_find?_eq_some (find_of he)

theorem of_runOf (he : e ∈ log.events) : e.of (log.runOf e) = true := List.find?_some (find_of he)

/-- An event has one run. -/
theorem filter_of (he : e ∈ log.events) : log.runs.rows.filter e.of = [log.runOf e] := by
  refine Table.filter_eq_singleton (runOf_mem he) (of_runOf he) fun r hr h => ?_
  exact Table.eq_of_key hr (runOf_mem he) ((of_iff.1 h).2.trans (of_iff.1 (of_runOf he)).2.symm)

theorem joined_eq : log.joined = log.events.rows.map fun e => (e, log.runOf e) := by
  rw [joined, List.map_eq_flatMap]
  refine List.flatMap_congr fun e he => ?_
  rw [filter_of he, List.map_singleton]

theorem mem_joined : j ∈ log.joined ↔ j.1 ∈ log.events ∧ j.2 = log.runOf j.1 := by
  rw [joined_eq, List.mem_map]
  constructor
  · rintro ⟨e, he, rfl⟩
    exact ⟨he, rfl⟩
  · rintro ⟨he, same⟩
    exact ⟨j.1, he, Prod.ext rfl same.symm⟩

theorem joined_nodup : log.joined.Nodup := by
  rw [joined_eq]
  exact log.events.rows_nodup.map fun e f same => congrArg Prod.fst same

/-- Within a session, run numbers and the numbers of the runs tell the events apart. -/
theorem order_inj (hj : j ∈ log.joined) (hk : k ∈ log.joined) (scope : j.1.scopeId = k.1.scopeId)
    (session : j.2.sessionId = k.2.sessionId) (same : order j = order k) : j = k := by
  obtain ⟨he, hr⟩ := mem_joined.1 hj
  obtain ⟨hf, hr'⟩ := mem_joined.1 hk
  have runs := of_iff.1 (of_runOf he)
  have runs' := of_iff.1 (of_runOf hf)
  rw [← hr] at runs
  rw [← hr'] at runs'
  have numbers : j.2.runSeq = k.2.runSeq ∧ j.1.seq = k.1.seq :=
    ⟨congrArg (fun p : Int ×ₗ Int => (ofLex p).1) same,
      congrArg (fun p : Int ×ₗ Int => (ofLex p).2) same⟩
  have one : j.2 = k.2 := by
    refine Table.eq_of_clash (hr ▸ runOf_mem he) (hr' ▸ runOf_mem hf) (rowClash_oldRun.2 (.inr ?_))
    exact ⟨runs.1.trans (scope.trans runs'.1.symm), session, numbers.1⟩
  have event : j.1 = k.1 := by
    refine Table.eq_of_clash he hf (rowClash_oldEvent.2 (.inr ⟨scope, ?_, numbers.2⟩))
    rw [← runs.2, ← runs'.2, one]
  exact Prod.ext event one

/-! ## Both projections -/

variable {scopeId : String} {sessionId : Uuid}

variable (log) in
/-- The events of a session, with their runs. -/
def members (scopeId : String) (sessionId : Uuid) : List (OldEventRow × OldRunRow) :=
  log.joined.filter fun k => k.1.scopeId = scopeId && k.2.sessionId = sessionId

theorem mem_members :
    j ∈ log.members scopeId sessionId ↔
      j ∈ log.joined ∧ j.1.scopeId = scopeId ∧ j.2.sessionId = sessionId := by
  simp [members]

theorem order_nodup : ((log.members scopeId sessionId).map order).Nodup := by
  refine List.Nodup.map_on (fun j hj k hk same => ?_) (joined_nodup.filter _)
  obtain ⟨hj, scope, session⟩ := mem_members.1 hj
  obtain ⟨hk, scope', session'⟩ := mem_members.1 hk
  exact order_inj hj hk (scope.trans scope'.symm) (session.trans session'.symm) same

/-- The row number of an event is its rank. -/
theorem place_partition (hj : j ∈ log.members scopeId sessionId) :
    place order (log.partition j) j = rank order (log.members scopeId sessionId) j := by
  obtain ⟨-, rfl, rfl⟩ := mem_members.1 hj
  exact place_eq_rank order_nodup hj

/-- The count of an event is its rank. -/
theorem length_prior (he : e ∈ log.events) :
    (log.prior e).length =
      rank order (log.members e.scopeId (log.runOf e).sessionId) (e, log.runOf e) := by
  have once : ∀ (c : OldEventRow × OldRunRow → OldRunRow → Bool) (r : OldRunRow), ∀ p ∈ log.joined,
      (([r].filter (c p)).map (p, ·)).length = if c p r then 1 else 0 := by
    intro c r p _
    rw [List.filter_singleton]
    cases c p r <;> rfl
  rw [prior, filter_of he, length_flatMap_once (once _ _), rank, members, List.countP_filter]
  refine List.countP_congr fun p hp => ?_
  simp only [order, Prod.Lex.toLex_le_toLex, Bool.and_eq_true, Bool.or_eq_true, decide_eq_true_eq]
  tauto

variable (log) in
/-- An event with its session and its number there. -/
def numbered (j : OldEventRow × OldRunRow) : NumberedEventRow :=
  { j.1 with sessionId := j.2.sessionId, sessionSeq := place order (log.partition j) j }

theorem eventsV1_eq :
    log.eventsV1 = log.events.rows.map fun e => log.numbered (e, log.runOf e) := by
  rw [eventsV1, joined_eq, List.map_map]
  rfl

/-- **Both projections number the events alike.** -/
theorem eventsV2_eq : log.eventsV2 = some log.eventsV1 := by
  rw [eventsV1_eq, eventsV2, mapM_eq_some, List.forall₂_map_right_iff, List.forall₂_same]
  intro e he
  have member : (e, log.runOf e) ∈ log.members e.scopeId (log.runOf e).sessionId :=
    mem_members.2 ⟨mem_joined.2 ⟨he, rfl⟩, rfl, rfl⟩
  rw [find_of he, Option.map_some, length_prior he, numbered, place_partition member]

theorem sessionEvents_eq :
    log.sessionEvents scopeId sessionId = (log.members scopeId sessionId).map log.numbered := by
  rw [sessionEvents, eventsV1, List.filter_map]
  rfl

theorem mem_sessionEvents {e : NumberedEventRow} :
    e ∈ log.sessionEvents scopeId sessionId ↔
      ∃ j ∈ log.members scopeId sessionId, log.numbered j = e := by
  rw [sessionEvents_eq, List.mem_map]

theorem eventsV1_old : log.eventsV1.map (·.toOldEventRow) = log.events.rows := by
  rw [eventsV1_eq, List.map_map]
  exact List.map_id _

/-- The run of a joined event is the one it names. -/
theorem eq_of_joined (hj : j ∈ log.joined) (hr : r ∈ log.runs) (of : j.1.of r = true) :
    r = j.2 := by
  obtain ⟨he, same⟩ := mem_joined.1 hj
  have only := List.mem_filter.2 ⟨hr, of⟩
  rw [filter_of he, List.mem_singleton] at only
  exact only.trans same.symm

theorem eventsV1_session :
    ∀ e ∈ log.eventsV1, ∀ r ∈ log.runs, e.of r = true → e.sessionId = r.sessionId := by
  intro e he r hr of
  obtain ⟨j, hj, rfl⟩ := List.mem_map.1 he
  rw [eq_of_joined hj hr of]

/-- **Events of a session are numbered from one.** -/
theorem sessionSeqs_perm :
    ((log.sessionEvents scopeId sessionId).map (·.sessionSeq)).Perm
      (List.range' 1 (log.sessionEvents scopeId sessionId).length) := by
  have ranks : (log.sessionEvents scopeId sessionId).map (·.sessionSeq) =
      (log.members scopeId sessionId).map (rank order (log.members scopeId sessionId)) := by
    rw [sessionEvents_eq, List.map_map]
    exact List.map_congr_left fun j hj => place_partition hj
  rw [ranks, sessionEvents_eq, List.length_map]
  exact ranks_perm order_nodup

/-- **The numbers follow the runs** and the numbers in the runs. -/
theorem sessionSeq_lt_iff {e f : NumberedEventRow} (he : e ∈ log.sessionEvents scopeId sessionId)
    (hf : f ∈ log.sessionEvents scopeId sessionId) (hr : r ∈ log.runs) (hr' : r' ∈ log.runs)
    (of : e.of r = true) (of' : f.of r' = true) :
    e.sessionSeq < f.sessionSeq ↔
      r.runSeq < r'.runSeq ∨ r.runSeq = r'.runSeq ∧ e.seq < f.seq := by
  obtain ⟨j, hj, rfl⟩ := mem_sessionEvents.1 he
  obtain ⟨k, hk, rfl⟩ := mem_sessionEvents.1 hf
  have run := eq_of_joined (mem_members.1 hj).1 hr of
  have run' := eq_of_joined (mem_members.1 hk).1 hr' of'
  subst run run'
  show place _ _ _ < place _ _ _ ↔ _
  rw [place_partition hj, place_partition hk, rank_lt_iff order_nodup hj hk]
  exact Prod.Lex.toLex_lt_toLex

/-! ## Where the sessions go on -/

variable {s : OldSessionRow}

variable (log) in
/-- The session of a run is there. -/
def hosted (r : OldRunRow) : Bool :=
  log.sessions.rows.any fun s => s.scopeId = r.scopeId && s.id = r.sessionId

theorem hosted_iff :
    log.hosted r = true ↔ ∃ s ∈ log.sessions, s.scopeId = r.scopeId ∧ s.id = r.sessionId := by
  simp [hosted, Table.mem_def]

theorem runsV1_eq : log.runsV1 = log.runs.rows.filter log.hosted := by
  rw [runsV1]
  refine flatMap_eq_filter fun r _ => ?_
  cases host : log.hosted r with
  | false =>
      rw [List.filter_eq_nil_iff.2]
      · rfl
      · intro s hs here
        simp only [Bool.and_eq_true, decide_eq_true_eq] at here
        rw [hosted_iff.2 ⟨s, hs, here⟩] at host
        cases host
  | true =>
      obtain ⟨s, hs, scope, id⟩ := hosted_iff.1 host
      rw [Table.filter_eq_singleton hs (by simp [scope, id])]
      · rfl
      · intro s' hs' same
        simp only [Bool.and_eq_true, decide_eq_true_eq] at same
        exact Table.eq_of_key hs' hs (same.2.trans id.symm)

/-- Runs of a session are runs of its scope. -/
theorem scope_of_hosted (hs : s ∈ log.sessions) (host : log.hosted r = true)
    (session : r.sessionId = s.id) : r.scopeId = s.scopeId := by
  obtain ⟨s', hs', scope, id⟩ := hosted_iff.1 host
  rw [← scope, Table.eq_of_key hs' hs (id.trans session)]

theorem length_sessionEvents :
    (log.sessionEvents scopeId sessionId).length =
      log.events.rows.countP fun e =>
        e.scopeId = scopeId && (log.runOf e).sessionId = sessionId := by
  rw [sessionEvents, ← List.countP_eq_length_filter, eventsV1_eq, List.countP_map]
  rfl

/-- **`next_event_seq` is next.** -/
theorem nextEventSeqV1_eq (hs : s ∈ log.sessions) :
    log.nextEventSeqV1 s = (log.sessionEvents s.scopeId s.id).length + 1 := by
  rw [nextEventSeqV1, eventsV1_eq, List.flatMap_map, runsV1_eq, length_sessionEvents, Nat.add_comm]
  refine congrArg (· + 1) (length_flatMap_once fun e he => ?_)
  have scope := (of_iff.1 (of_runOf he)).1
  have theirs : (log.runs.rows.filter log.hosted).filter
      (fun r => (log.numbered (e, log.runOf e)).of r && r.sessionId = s.id) =
      [log.runOf e].filter fun r => log.hosted r && r.sessionId = s.id := by
    rw [← filter_of he, List.filter_filter, List.filter_filter]
    refine List.filter_congr fun r _ => ?_
    show ((e.of r && _) && _) = _
    cases e.of r <;> cases log.hosted r <;> simp
  rw [theirs, List.filter_singleton]
  have same : (log.hosted (log.runOf e) && decide ((log.runOf e).sessionId = s.id)) =
      (decide (e.scopeId = s.scopeId) && decide ((log.runOf e).sessionId = s.id)) := by
    rw [Bool.eq_iff_iff]
    simp only [Bool.and_eq_true, decide_eq_true_eq]
    constructor
    · intro ⟨host, session⟩
      exact ⟨scope.symm.trans (scope_of_hosted hs host session), session⟩
    · intro ⟨here, session⟩
      exact ⟨hosted_iff.2 ⟨s, hs, (scope.trans here).symm, session.symm⟩, session⟩
  rw [same]
  cases decide (e.scopeId = s.scopeId) && decide ((log.runOf e).sessionId = s.id) <;> rfl

theorem nextEventSeqV2_eq (owned : log.Owned) (hs : s ∈ log.sessions) :
    nextEventSeqV2 log.eventsV1 s = (log.sessionEvents s.scopeId s.id).length + 1 := by
  rw [nextEventSeqV2, Nat.add_comm, ← List.countP_eq_length_filter, eventsV1_eq, List.countP_map,
    length_sessionEvents]
  refine congrArg (· + 1) (List.countP_congr fun e he => ?_)
  have scope := (of_iff.1 (of_runOf he)).1
  show decide ((log.runOf e).sessionId = s.id) = true ↔ _
  simp only [Bool.and_eq_true, decide_eq_true_eq]
  constructor
  · intro session
    have host := hosted_iff.2 (owned _ (runOf_mem he))
    exact ⟨scope.symm.trans (scope_of_hosted hs host session), session⟩
  · intro both
    exact both.2

/-- The tables of a migrated database: its sessions go on at `next`, its events have the numbers
of the migration. -/
structure Carried (log : OldLog) (next : OldSessionRow → Nat) (db : Db) : Prop where
  sessions : ∀ s ∈ db.sessions, ∃ old ∈ log.sessions,
    old.scopeId = s.scopeId ∧ old.id = s.id ∧ next old = s.nextEventSeq
  events : ∀ e ∈ db.events, ∃ old ∈ log.eventsV1,
    old.scopeId = e.scopeId ∧ old.sessionId = e.sessionId ∧ old.sessionSeq = e.sessionSeq

/-- What recording an event makes of a store: the event follows all events of its session, and
only its identifier or its number in the run can be taken. -/
def GoesOn (log : OldLog) (s : Store) : Prop :=
  ∀ d scopeId runId type data actor occurredAt,
    match insertEventLocked d scopeId runId type data actor occurredAt s with
    | .ok e _ =>
        e.sessionSeq = (log.sessionEvents e.scopeId e.sessionId).length + 1 ∧
          ∀ f ∈ s.db.events, f.scopeId = e.scopeId → f.sessionId = e.sessionId →
            f.sessionSeq < e.sessionSeq
    | .error error _ =>
        error = .integrity "run_events" → ∃ f ∈ s.db.events,
          f.eventId = ⟨s.drawn⟩ ∨
            ∃ r, s.db.run scopeId runId = some r ∧
              f.scopeId = scopeId ∧ f.runId = runId ∧ f.seq = r.nextEventSeq

/-- Events of a session have the numbers up to their count. -/
theorem sessionSeq_le {e : NumberedEventRow} (he : e ∈ log.sessionEvents scopeId sessionId) :
    e.sessionSeq ≤ (log.sessionEvents scopeId sessionId).length := by
  have inside := sessionSeqs_perm.subset (List.mem_map_of_mem (f := (·.sessionSeq)) he)
  have bounds := List.mem_range'_1.1 inside
  omega

theorem goesOn {next : OldSessionRow → Nat} {s : Store}
    (dense : ∀ old ∈ log.sessions, next old = (log.sessionEvents old.scopeId old.id).length + 1)
    (carried : log.Carried next s.db) : log.GoesOn s := by
  have ahead : ∀ {ss : SessionRow} {f : EventRow}, ss ∈ s.db.sessions → f ∈ s.db.events →
      f.scopeId = ss.scopeId → f.sessionId = ss.id → f.sessionSeq < ss.nextEventSeq := by
    intro ss f hss hf scope session
    obtain ⟨old, hold, scope', id', next'⟩ := carried.sessions ss hss
    obtain ⟨e, he, scope'', session'', seq⟩ := carried.events f hf
    have member : e ∈ log.sessionEvents old.scopeId old.id := by
      refine List.mem_filter.2 ⟨he, ?_⟩
      simp [scope'', scope, scope', session'', session, id']
    have bound := sessionSeq_le member
    rw [← seq, ← next', dense old hold]
    omega
  intro d scopeId runId type data actor occurredAt
  cases result : insertEventLocked d scopeId runId type data actor occurredAt s with
  | ok e s' =>
      simp only [insertEventLocked, getDb_bind_eq_ok, orThrow_bind_eq_ok, uuid4_bind_eq_ok,
        now_bind_eq_ok, appendRecord_bind_eq_ok, modifyDb_bind_eq_ok, pure_eq_ok] at result
      obtain ⟨r, hr, ss, hss, events, -, rfl, -⟩ := result
      obtain ⟨hmem, scope, id⟩ := Db.session_eq_some.1 hss
      obtain ⟨-, same, -⟩ := Db.run_eq_some.1 hr
      obtain ⟨old, hold, scope', id', next'⟩ := carried.sessions ss hmem
      constructor
      · show ss.nextEventSeq = (log.sessionEvents scopeId r.sessionId).length + 1
        rw [← next', dense old hold, scope', id', scope, id, same]
      · intro f hf fscope fsession
        exact ahead hmem hf (fscope.trans (same.symm.trans scope.symm)) (fsession.trans id.symm)
  | error error s' =>
      rintro rfl
      obtain ⟨r, ss, f, run, session, hf, clash⟩ := insertEventLocked_clash result
      obtain ⟨hmem, scope, id⟩ := Db.session_eq_some.1 session
      obtain ⟨-, same, -⟩ := Db.run_eq_some.1 run
      rcases clash with drawn | ⟨fscope, frun, seq⟩ | ⟨fscope, fsession, seq⟩
      · exact ⟨f, hf, .inl drawn⟩
      · exact ⟨f, hf, .inr ⟨r, run, fscope, frun, seq⟩⟩
      · have before := ahead hmem hf (fscope.trans (same.symm.trans scope.symm))
          (fsession.trans id.symm)
        omega

/-- **Migrated events are in order.**  Both projections keep the events, number the events of
every session from one, in the order of the runs and of the events of a run, and let the session
go on after the last of them. -/
theorem migrations_number_events (log : OldLog) :
    log.eventsV2 = some log.eventsV1 ∧
      log.eventsV1.map (·.toOldEventRow) = log.events.rows ∧
      (∀ e ∈ log.eventsV1, ∀ r ∈ log.runs, e.of r = true → e.sessionId = r.sessionId) ∧
      (∀ scopeId sessionId,
        ((log.sessionEvents scopeId sessionId).map (·.sessionSeq)).Perm
            (List.range' 1 (log.sessionEvents scopeId sessionId).length) ∧
          ∀ e ∈ log.sessionEvents scopeId sessionId, ∀ f ∈ log.sessionEvents scopeId sessionId,
            ∀ r ∈ log.runs, ∀ r' ∈ log.runs, e.of r = true → f.of r' = true →
              (e.sessionSeq < f.sessionSeq ↔
                r.runSeq < r'.runSeq ∨ r.runSeq = r'.runSeq ∧ e.seq < f.seq)) ∧
      (∀ s ∈ log.sessions,
        log.nextEventSeqV1 s = (log.sessionEvents s.scopeId s.id).length + 1 ∧
          (log.Owned →
            nextEventSeqV2 log.eventsV1 s = (log.sessionEvents s.scopeId s.id).length + 1)) ∧
      (∀ s, log.Carried log.nextEventSeqV1 s.db ∨
          log.Owned ∧ log.Carried (nextEventSeqV2 log.eventsV1) s.db →
        log.GoesOn s) := by
  refine ⟨eventsV2_eq, eventsV1_old, eventsV1_session, ?_, ?_, ?_⟩
  · intro scopeId sessionId
    refine ⟨sessionSeqs_perm, fun e he f hf r hr r' hr' of of' => ?_⟩
    exact sessionSeq_lt_iff he hf hr hr' of of'
  · intro s hs
    exact ⟨nextEventSeqV1_eq hs, fun owned => nextEventSeqV2_eq owned hs⟩
  · rintro s (carried | ⟨owned, carried⟩)
    · exact goesOn (fun old hold => nextEventSeqV1_eq hold) carried
    · exact goesOn (fun old hold => nextEventSeqV2_eq owned hold) carried

end OldLog

end CodeForge
