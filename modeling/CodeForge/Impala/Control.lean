import CodeForge.Impala.Budgets

/-!
# Query control

What `_control` tells about a query is put together from its record, which is
written when a query is reserved and when it ends, and from the queries that are
active in the process, which are forgotten when it ends.

`Filed` says how the two fit together in every run: an active query has a record
that says it is running, and a record that says anything else holds the result
of a query that has ended.  With that a call by the owner is `Honest`, and a
call by anybody else learns no more than that there is nothing.
-/

namespace CodeForge.Impala

open Lib

variable {sha256 : List UInt8 → String} {policy : QueryPolicy}

/-! ## Members -/

theorem lookup_setMember (ms : List (String × Json)) (key : String) (v : Json) :
    (setMember ms key v).lookup key = some v := by
  have replaced : ∀ ms : List (String × Json), ms.any (·.1 = key) = true →
      (ms.map fun m => if m.1 = key then (key, v) else m).lookup key = some v := by
    intro ms there
    induction ms with
    | nil => cases there
    | cons m ms ih =>
        by_cases same : m.1 = key
        · simp [same]
        · have later : ms.any (·.1 = key) = true := by simpa [same] using there
          have other : (key == m.1) = false := beq_eq_false_iff_ne.2 (Ne.symm same)
          rw [List.map_cons, if_neg same, List.lookup_cons, other]
          exact ih later
  unfold setMember
  split
  next there => exact replaced ms there
  next absent =>
    have missing : ms.lookup key = none := by
      refine List.lookup_eq_none_iff.2 fun m hm => ?_
      simp only [List.any_eq_true, decide_eq_true_eq, not_exists, not_and] at absent
      exact bne_iff_ne.2 (Ne.symm (absent m hm))
    simp [List.lookup_append, missing]

theorem lookup_setMember_ne (ms : List (String × Json)) {key key' : String} (v : Json)
    (ne : key' ≠ key) : (setMember ms key v).lookup key' = ms.lookup key' := by
  have other : (key' == key) = false := beq_eq_false_iff_ne.2 ne
  have replaced : (ms.map fun m => if m.1 = key then (key, v) else m).lookup key' =
      ms.lookup key' := by
    induction ms with
    | nil => rfl
    | cons m ms ih =>
        rw [List.map_cons, List.lookup_cons, List.lookup_cons]
        by_cases same : m.1 = key
        · rw [if_pos same, same, other]
          exact ih
        · rw [if_neg same, ih]
  unfold setMember
  split
  · exact replaced
  · simp [List.lookup_append, List.lookup_cons, other]

@[simp] theorem statusOf_setMember (ms : List (String × Json)) (status : String) :
    statusOf (setMember ms "status" (.str status)) = some status := by
  rw [statusOf, lookup_setMember]

@[simp] theorem statusOf_setMember_reason (ms : List (String × Json)) (v : Json) :
    statusOf (setMember ms "reason" v) = statusOf ms := by
  rw [statusOf, statusOf, lookup_setMember_ne ms v (by decide)]

/-- The members that are shown. -/
def shownMembers (ms : List (String × Json)) : List (String × Json) :=
  ms.filter fun m => m.1 ∉ ["rows", "columns"]

@[simp] theorem statusOf_shownMembers (ms : List (String × Json)) :
    statusOf (shownMembers ms) = statusOf ms := by
  have same : (shownMembers ms).lookup "status" = ms.lookup "status" := by
    induction ms with
    | nil => rfl
    | cons m ms ih =>
        rw [shownMembers, List.filter_cons]
        split
        · rw [List.lookup_cons, List.lookup_cons]
          exact congrArg (fun r => cond ("status" == m.1) (some m.2) r) ih
        next hidden =>
          have other : ("status" == m.1) = false := by
            refine beq_eq_false_iff_ne.2 fun status => hidden ?_
            rw [← status]
            decide
          rw [List.lookup_cons, other]
          exact ih
  rw [statusOf, statusOf, same]

theorem mem_setMember {ms : List (String × Json)} {key : String} {v : Json} {m : String × Json}
    (h : m ∈ setMember ms key v) : m.1 = key ∨ m ∈ ms := by
  unfold setMember at h
  split at h
  · obtain ⟨m', hm, rfl⟩ := List.mem_map.1 h
    split
    · exact .inl rfl
    · exact .inr hm
  · rcases List.mem_append.1 h with old | new
    · exact .inr old
    · exact .inl (List.mem_singleton.1 new ▸ rfl)

/-- The status of a result. -/
theorem statusOf_result (q : QueryResult) : statusOf (q.fixed ++ q.late) = some q.status.value :=
  rfl

theorem QueryStatus.value_ne_cancelling (status : QueryStatus) : status.value ≠ "CANCELLING" := by
  cases status with
  | running | succeeded | failed | cancelled | unknown => decide

/-! ## Records and active queries -/

/-- What a record says, against what happened. -/
def QueryRecord.Told (record : QueryRecord) (ref : String) (past : List Reservation) : Prop :=
  statusOf record.result = some "RUNNING" ∨
    ∃ r ∈ past, r.job.ref = ref ∧
      ∃ q, r.result = some q ∧ Concluded r.job q ∧ record.result = q.fixed ++ q.late

/-- A record belongs to the run that reserved its query. -/
def QueryRecord.BelongsTo (record : QueryRecord) (caller : Caller) : Prop :=
  record.scopeId = caller.scopeId ∧ record.sessionId = caller.sessionId

instance (record : QueryRecord) (caller : Caller) : Decidable (record.BelongsTo caller) :=
  inferInstanceAs (Decidable (_ ∧ _))

/-- How records, active queries and reservations fit together. -/
structure Filed (s : System) : Prop where
  valid : ∀ ref record, s.adapter.records ref = some record → isQueryRef ref = true
  told : ∀ ref record, s.adapter.records ref = some record → record.Told ref s.past
  active : ∀ e ∈ s.adapter.active, ∃ record, s.adapter.records e.ref = some record ∧
    statusOf record.result = some "RUNNING"
  refs : (s.adapter.active.map (·.ref)).Nodup
  owned : ∀ r ∈ s.all, r.complete = true → ∃ record, s.adapter.records r.job.ref = some record ∧
    record.BelongsTo r.caller

theorem QueryRecord.Told.mono {record : QueryRecord} {ref : String} {past past' : List Reservation}
    (h : record.Told ref past) (sub : ∀ r ∈ past, r ∈ past') : record.Told ref past' := by
  rcases h with running | ⟨r, hr, same, ended⟩
  · exact .inl running
  · exact .inr ⟨r, sub r hr, same, ended⟩

/-- The record of a query is replaced by one of the same owner. -/
theorem Adapter.records_save {a a' : Adapter} {ref : String} {q : QueryResult}
    (h : a.save ref q = some a') : ∃ record, a.records ref = some record ∧
      a'.active = a.active ∧ a'.records = Function.update a.records ref
        (some { record with result := q.fixed ++ q.late }) := by
  obtain ⟨record, found, rfl⟩ := Option.map_eq_some_iff.1 h
  exact ⟨record, found, rfl, rfl⟩

/-- Each record is kept, or replaced by one of the same owner that is told of as well. -/
theorem Filed.save {s t : System} {ref : String} {q : QueryResult} {a : Adapter}
    (h : Filed s) (saved : s.adapter.save ref q = some a) (records : t.adapter.records = a.records)
    (past : ∀ r ∈ s.past, r ∈ t.past)
    (told : ∀ record : QueryRecord,
      ({ record with result := q.fixed ++ q.late } : QueryRecord).Told ref t.past)
    (active : ∀ e ∈ t.adapter.active, e ∈ s.adapter.active ∧
      (e.ref = ref → q.status = .running))
    (refs : (t.adapter.active.map (·.ref)).Nodup)
    (owned : ∀ r ∈ t.all, ∃ r' ∈ s.all, r'.job = r.job ∧ r'.caller = r.caller ∧
      r'.complete = r.complete) : Filed t := by
  obtain ⟨record, found, -, update⟩ := Adapter.records_save saved
  have known : ∀ ref' record', s.adapter.records ref' = some record' →
      ∃ record'', t.adapter.records ref' = some record'' ∧
        record''.scopeId = record'.scopeId ∧ record''.sessionId = record'.sessionId ∧
        (ref' ≠ ref → record'' = record') ∧
        (ref' = ref → record''.result = q.fixed ++ q.late) := by
    intro ref' record' there
    rw [records, update]
    by_cases same : ref' = ref
    · subst same
      cases found.symm.trans there
      exact ⟨_, Function.update_self .., rfl, rfl, fun ne => absurd rfl ne, fun _ => rfl⟩
    · exact ⟨record', (Function.update_of_ne same ..).trans there, rfl, rfl, fun _ => rfl,
        fun eq => absurd eq same⟩
  refine ⟨fun ref' record' there => ?_, fun ref' record' there => ?_, fun e he => ?_, refs,
    fun r hr complete => ?_⟩
  · rw [records, update] at there
    by_cases same : ref' = ref
    · rw [same]
      exact h.valid ref record found
    · rw [Function.update_of_ne same] at there
      exact h.valid ref' record' there
  · rw [records, update] at there
    by_cases same : ref' = ref
    · subst same
      rw [Function.update_self] at there
      cases there
      exact told record
    · rw [Function.update_of_ne same] at there
      exact (h.told ref' record' there).mono past
  · obtain ⟨old, running⟩ := active e he
    obtain ⟨record', there, status⟩ := h.active e old
    obtain ⟨record'', there', -, -, kept, new⟩ := known e.ref record' there
    refine ⟨record'', there', ?_⟩
    by_cases same : e.ref = ref
    · rw [new same, statusOf_result, running same]
      rfl
    · rw [kept same]
      exact status
  · obtain ⟨r', hr', job, caller, complete'⟩ := owned r hr
    obtain ⟨record', there, scope, session⟩ := h.owned r' hr' (complete'.trans complete)
    rw [job] at there
    obtain ⟨record'', there', scope', session', -, -⟩ := known r.job.ref record' there
    exact ⟨record'', there', caller ▸ scope'.trans scope, caller ▸ session'.trans session⟩

/-- Records stay as they are, and active queries stay active or do not. -/
theorem Filed.same {s t : System} (h : Filed s) (records : t.adapter.records = s.adapter.records)
    (past : ∀ r ∈ s.past, r ∈ t.past)
    (active : ∀ e ∈ t.adapter.active, ∃ e' ∈ s.adapter.active, e'.ref = e.ref)
    (refs : (t.adapter.active.map (·.ref)).Nodup)
    (owned : ∀ r ∈ t.all, r.complete = true → r ∈ s.all) : Filed t := by
  refine ⟨fun ref record there => ?_, fun ref record there => ?_, fun e he => ?_, refs,
    fun r hr complete => ?_⟩
  · rw [records] at there
    exact h.valid ref record there
  · rw [records] at there
    exact (h.told ref record there).mono past
  · obtain ⟨e', he', same⟩ := active e he
    rw [records, ← same]
    exact h.active e' he'
  · rw [records]
    exact h.owned r (owned r hr complete) complete

/-- A query gets its record. -/
theorem Filed.record {s t : System} {job : Job} (h : Filed s) (caller : Caller)
    (valid : isQueryRef job.ref = true) (fresh : s.adapter.records job.ref = none)
    (records : t.adapter.records = (s.adapter.record caller job).records)
    (past : ∀ r ∈ s.past, r ∈ t.past)
    (active : ∀ e ∈ t.adapter.active, e ∈ s.adapter.active ∨ e.ref = job.ref)
    (refs : (t.adapter.active.map (·.ref)).Nodup)
    (owned : ∀ r ∈ t.all, r.complete = true → r ∈ s.all ∨ r.job = job ∧ r.caller = caller) :
    Filed t := by
  have new : ∃ record, t.adapter.records job.ref = some record ∧
      statusOf record.result = some "RUNNING" ∧ record.BelongsTo caller := by
    rw [records]
    exact ⟨_, Function.update_self .., rfl, rfl, rfl⟩
  have old : ∀ ref, ref ≠ job.ref → t.adapter.records ref = s.adapter.records ref := by
    intro ref ne
    rw [records]
    exact Function.update_of_ne ne ..
  have other : ∀ ref record, s.adapter.records ref = some record → ref ≠ job.ref := by
    intro ref record there same
    rw [same, fresh] at there
    cases there
  obtain ⟨made, there, running, belongs⟩ := new
  refine ⟨fun ref record found => ?_, fun ref record found => ?_, fun e he => ?_, refs,
    fun r hr complete => ?_⟩
  · by_cases same : ref = job.ref
    · exact same ▸ valid
    · rw [old ref same] at found
      exact h.valid ref record found
  · by_cases same : ref = job.ref
    · rw [same, there] at found
      cases found
      exact .inl running
    · rw [old ref same] at found
      exact (h.told ref record found).mono past
  · rcases active e he with before | same
    · obtain ⟨record, found, status⟩ := h.active e before
      exact ⟨record, (old _ (other _ _ found)).trans found, status⟩
    · exact ⟨made, same ▸ there, running⟩
  · rcases owned r hr complete with before | ⟨rfl, rfl⟩
    · obtain ⟨record, found, belongs'⟩ := h.owned r before complete
      exact ⟨record, (old _ (other _ _ found)).trans found, belongs'⟩
    · exact ⟨made, there, belongs⟩

theorem refs_filter {l : List Active} (h : (l.map (·.ref)).Nodup) (ref : String) :
    ((l.filter (·.ref ≠ ref)).map (·.ref)).Nodup :=
  h.sublist (List.filter_sublist.map _)

/-- Setting flags does not change references. -/
theorem refs_map {l : List Active} {f : Active → Active} (same : ∀ e, (f e).ref = e.ref) :
    (l.map f).map (·.ref) = l.map (·.ref) := by
  rw [List.map_map]
  exact List.map_congr_left fun e _ => same e

theorem Filed.setFlag {s : System} (h : Filed s) (ref : String) :
    Filed { s with adapter := s.adapter.setFlag ref } := by
  have same : ∀ e : Active, (if e.ref = ref then { e with flag := true } else e).ref = e.ref := by
    intro e
    split <;> rfl
  refine h.same rfl (fun r hr => hr) (fun e he => ?_) ?_ fun r hr _ => hr
  · obtain ⟨e', he', rfl⟩ := List.mem_map.1 he
    exact ⟨e', he', (same e').symm⟩
  · exact (refs_map same).symm ▸ h.refs

theorem Adapter.mem_register {a : Adapter} {caller : Caller} {job : Job} {e : Active}
    (h : e ∈ (a.register caller job).active) : e ∈ a.active ∨ e.ref = job.ref := by
  rcases List.mem_append.1 h with old | new
  · exact .inl (List.mem_filter.1 old).1
  · exact .inr (List.mem_singleton.1 new ▸ rfl)

theorem Adapter.register_refs {a : Adapter} (caller : Caller) (job : Job)
    (h : (a.active.map (·.ref)).Nodup) : ((a.register caller job).active.map (·.ref)).Nodup := by
  rw [register, List.map_append, List.nodup_append]
  refine ⟨refs_filter h _, List.nodup_singleton _, fun ref old ref' new eq => ?_⟩
  obtain ⟨e, he, rfl⟩ := List.mem_map.1 old
  have ne := of_decide_eq_true (List.mem_filter.1 he).2
  exact ne (eq.trans (List.mem_singleton.1 new))

/-- A running reservation ends, and becomes another that is complete where it is. -/
theorem mem_all_end {s : System} {before after : List Reservation} {r r' r'' : Reservation}
    (running : s.running = before ++ r :: after)
    (h : r'' ∈ before ++ after ++ (s.past ++ [r'])) : r'' = r' ∨ r'' ∈ s.all := by
  rw [← List.append_assoc] at h
  rcases List.mem_append.1 h with old | new
  · exact .inr ((System.all_running running).mem_iff.2 (List.mem_cons_of_mem _ old))
  · exact .inl (List.mem_singleton.1 new)

/-- A reservation ends without its result. -/
theorem Filed.drop {s : System} {before after : List Reservation} {r : Reservation} {a : Adapter}
    (h : Filed s) (running : s.running = before ++ r :: after)
    (records : a.records = s.adapter.records) (active : a.active.Sublist s.adapter.active) :
    Filed ⟨a, before ++ after, s.past ++ [r]⟩ := by
  refine h.same records (fun r' hr => List.mem_append_left _ hr)
    (fun e he => ⟨e, active.subset he, rfl⟩) (h.refs.sublist (active.map _)) fun r' hr _ => ?_
  rcases mem_all_end running hr with rfl | old
  · exact List.mem_append_left _ (running ▸ List.mem_append_right _ List.mem_cons_self)
  · exact old

theorem Filed.step {s t : System} (h : Filed s) (st : Step sha256 policy s t) : Filed t := by
  cases st with
  | @reserve caller job hour tool maxRows plan same rows admitted =>
      have checks := Adapter.plan_eq_ok same admitted
      have records : (s.adapter.writeAll sha256 plan).records = s.adapter.records :=
          Adapter.writeAll_records _ _
      have active : (s.adapter.writeAll sha256 plan).active = s.adapter.active :=
          Adapter.writeAll_active _ _
      refine h.record caller checks.ref checks.fresh ?_ (fun r hr => hr) (fun e he => ?_) ?_
        fun r hr _ => ?_
      · change Function.update (s.adapter.writeAll sha256 plan).records _ _ = _
        rw [records]
        rfl
      · rw [← active]
        exact Adapter.mem_register he
      · refine Adapter.register_refs caller job ?_
        change ((s.adapter.writeAll sha256 plan).active.map (·.ref)).Nodup
        rw [active]
        exact h.refs
      · rcases List.mem_append.1 hr with running | past
        · rcases List.mem_append.1 running with old | new
          · exact .inl (List.mem_append_left _ old)
          · cases List.mem_singleton.1 new
            exact .inr ⟨rfl, rfl⟩
        · exact .inl (List.mem_append_right _ past)
  | @reserveCut caller job hour tool maxRows plan same rows admitted writes =>
      have checks := Adapter.plan_eq_ok same admitted
      have owned : ∀ r ∈ s.running ++ (s.past ++
          [⟨caller, job, (plan.take writes).map Prod.fst, false, none, []⟩]),
          r.complete = true → r ∈ s.all := by
        intro r hr complete
        rw [← List.append_assoc] at hr
        rcases List.mem_append.1 hr with old | new
        · exact old
        · cases List.mem_singleton.1 new
          cases complete
      by_cases all : plan.length < writes
      · have records : (s.adapter.writeAll sha256 plan).records = s.adapter.records :=
          Adapter.writeAll_records _ _
        have active : (s.adapter.writeAll sha256 plan).active = s.adapter.active :=
          Adapter.writeAll_active _ _
        refine h.record caller checks.ref checks.fresh ?_
          (fun r hr => List.mem_append_left _ hr) (fun e he => ?_) ?_
          fun r hr complete => .inl (owned r hr complete)
        · dsimp only
          rw [if_pos all]
          change Function.update (s.adapter.writeAll sha256 plan).records _ _ = _
          rw [records]
          rfl
        · dsimp only at he
          rw [if_pos all] at he
          exact .inl (active ▸ he)
        · dsimp only
          rw [if_pos all]
          exact active.symm ▸ h.refs
      · have records : (s.adapter.writeAll sha256 (plan.take writes)).records = s.adapter.records :=
          Adapter.writeAll_records _ _
        have active : (s.adapter.writeAll sha256 (plan.take writes)).active = s.adapter.active :=
          Adapter.writeAll_active _ _
        refine h.same ?_ (fun r hr => List.mem_append_left _ hr) (fun e he => ⟨e, ?_, rfl⟩) ?_ owned
        · dsimp only
          rw [if_neg all]
          exact records
        · dsimp only at he
          rw [if_neg all] at he
          exact active ▸ he
        · dsimp only
          rw [if_neg all]
          exact active.symm ▸ h.refs
  | @note before after r result a running is saved =>
      refine h.save saved rfl (fun r hr => hr) (fun record => ?_) (fun e he => ?_) ?_
        fun r hr => ⟨r, hr, rfl, rfl, rfl⟩
      · refine .inl ((statusOf_result result).trans ?_)
        rw [is]
        rfl
      · exact ⟨Adapter.save_active saved ▸ he, fun _ => is⟩
      · exact (Adapter.save_active saved).symm ▸ h.refs
  | @settle before after r result a b running concluded saved refunds refunded =>
      obtain ⟨active, records⟩ := Adapter.refunds_active refunded
      have kept := active.trans (Adapter.save_active saved)
      refine h.save saved records (fun r hr => List.mem_append_left _ hr) (fun record => ?_)
        (fun e he => ?_) ?_ fun r' hr => ?_
      · exact .inr ⟨_, List.mem_append_right _ (List.mem_singleton_self _), rfl, result, rfl,
          concluded, rfl⟩
      · obtain ⟨old, other⟩ := List.mem_filter.1 he
        exact ⟨kept ▸ old, fun same => absurd same (of_decide_eq_true other)⟩
      · refine refs_filter ?_ _
        rw [kept]
        exact h.refs
      · rcases mem_all_end running hr with rfl | old
        · exact ⟨r, List.mem_append_left _ (running ▸ List.mem_append_right _ List.mem_cons_self),
            rfl, rfl, rfl⟩
        · exact ⟨r', old, rfl, rfl, rfl⟩
  | @lose before after r running => exact h.drop running rfl List.filter_sublist
  | @abandon before after r running => exact h.drop running rfl (.refl _)
  | control caller ref cancel =>
      rcases s.adapter.control_active caller ref cancel with same | flagged
      · rw [same]
        exact h
      · rw [flagged]
        exact h.setFlag ref
  | flag ref => exact h.setFlag ref
  | stop =>
      refine h.same rfl (fun r hr => hr) (fun e he => ?_) ?_ fun r hr _ => hr
      · obtain ⟨e', he', rfl⟩ := List.mem_map.1 he
        exact ⟨e', he', rfl⟩
      · change ((s.adapter.active.map fun e => { e with flag := true }).map (·.ref)).Nodup
        rw [refs_map (f := fun e : Active => { e with flag := true }) fun e => rfl]
        exact h.refs
  | crash =>
      refine h.same rfl (fun r hr => List.mem_append_left _ hr)
        (fun e he => absurd he List.not_mem_nil) List.nodup_nil fun r hr _ => ?_
      rcases List.mem_append.1 hr with gone | kept
      · exact absurd gone List.not_mem_nil
      · exact (List.perm_append_comm.mem_iff).1 kept

theorem Reachable.filed {s : System} (h : Reachable sha256 policy s) : Filed s := by
  induction h with
  | refl =>
      exact ⟨fun ref record there => (by cases there), fun ref record there => (by cases there),
        fun e he => absurd he List.not_mem_nil, List.nodup_nil,
        fun r hr => absurd hr List.not_mem_nil⟩
  | tail _ st ih => exact ih.step st

/-! ## What a call is told -/

/-- What the owner of a query is told, and what the call does. -/
structure Honest (s : System) (ref : String) (record : QueryRecord) (cancel : Bool)
    (shown : List (String × Json)) (after : Adapter) : Prop where
  hidden : ∀ m ∈ shown, m.1 ∉ ["rows", "columns"]
  /-- Only of an active query it is said that it runs or is being cancelled. -/
  live : statusOf shown = some "RUNNING" ∨ statusOf shown = some "CANCELLING" →
    ∃ e ∈ s.adapter.active, e.ref = ref
  active : (∃ e ∈ s.adapter.active, e.ref = ref) →
    statusOf shown = some (if cancel then "CANCELLING" else "RUNNING")
  lost : (∀ e ∈ s.adapter.active, e.ref ≠ ref) → statusOf record.result = some "RUNNING" →
    statusOf shown = some "UNKNOWN"
  /-- Everything else is the result the query ended with. -/
  final : statusOf record.result ≠ some "RUNNING" →
    ∃ r ∈ s.past, r.job.ref = ref ∧ ∃ q, r.result = some q ∧ Concluded r.job q ∧
      shown = (q.fixed ++ q.late).filter fun m => m.1 ∉ ["rows", "columns"]
  /-- The flag of that query is set, if it is to be cancelled, and nothing else is done. -/
  flag : after = if cancel then s.adapter.setFlag ref else s.adapter

/-- A query that is not active has no flag to set. -/
theorem Adapter.setFlag_inactive {a : Adapter} {ref : String}
    (inactive : ∀ e ∈ a.active, e.ref ≠ ref) : a.setFlag ref = a := by
  have same : (a.active.map fun e => if e.ref = ref then { e with flag := true } else e) =
      a.active := by
    refine (List.map_congr_left fun e he => ?_).trans (List.map_id _)
    rw [if_neg (inactive e he)]
    rfl
  rw [setFlag, same]

theorem Adapter.control_unowned (a : Adapter) (caller : Caller) (ref : String) (cancel : Bool)
    (unowned : ∀ record, a.records ref = some record → ¬record.BelongsTo caller) :
    a.control caller ref cancel = (.error (if isQueryRef ref then
      .domain .capabilityDenied "Query is unavailable" else
      .domain .invalidRequest "Invalid query_ref"), a) := by
  unfold Adapter.control
  by_cases valid : isQueryRef ref = true
  · rw [valid]
    cases found : a.records ref with
    | none => rfl
    | some record =>
        have other := unowned record found
        rw [QueryRecord.BelongsTo, not_and_or] at other
        exact if_pos other
  · rw [Bool.not_eq_true] at valid
    rw [valid]
    rfl

theorem mem_shownMembers {ms : List (String × Json)} {m : String × Json}
    (h : m ∈ shownMembers ms) : m.1 ∉ ["rows", "columns"] :=
  of_decide_eq_true (List.mem_filter.1 h).2

/-- Members that are set are not among the hidden ones. -/
theorem hidden_setMember {ms : List (String × Json)} {key : String} {v : Json}
    (h : ∀ m ∈ ms, m.1 ∉ ["rows", "columns"]) (set : key ∉ ["rows", "columns"]) :
    ∀ m ∈ setMember ms key v, m.1 ∉ ["rows", "columns"] := by
  intro m hm
  rcases mem_setMember hm with new | old
  · exact new ▸ set
  · exact h m old

theorem Filed.control {s : System} (h : Filed s) {caller : Caller} {ref : String} (cancel : Bool)
    {record : QueryRecord} (found : s.adapter.records ref = some record)
    (belongs : record.BelongsTo caller) :
    ∃ shown after, s.adapter.control caller ref cancel = (.ok shown, after) ∧
      Honest s ref record cancel shown after := by
  have owner : ¬(record.scopeId ≠ caller.scopeId ∨ record.sessionId ≠ caller.sessionId) := by
    rw [not_or, not_not, not_not]
    exact belongs
  have hidden : ∀ m ∈ shownMembers record.result, m.1 ∉ ["rows", "columns"] :=
    fun m hm => mem_shownMembers hm
  unfold Adapter.control
  rw [h.valid ref record found, found]
  dsimp only
  rw [if_neg (by decide : ¬(!true) = true), if_neg owner]
  by_cases active : ∃ e ∈ s.adapter.active, e.ref = ref
  · obtain ⟨e, he, rfl⟩ := active
    obtain ⟨record', found', running⟩ := h.active e he
    cases found.symm.trans found'
    have any : s.adapter.active.any (·.ref = e.ref) = true :=
      List.any_eq_true.2 ⟨e, he, decide_eq_true rfl⟩
    rw [any]
    cases cancel with
    | true =>
        refine ⟨_, _, rfl, hidden_setMember hidden (by decide), fun _ => ⟨e, he, rfl⟩,
          fun _ => statusOf_setMember _ _, fun none => absurd rfl (none e he),
          fun ended => absurd running ended, rfl⟩
    | false =>
        refine ⟨_, _, rfl, hidden, fun _ => ⟨e, he, rfl⟩,
          fun _ => (statusOf_shownMembers _).trans running, fun none => absurd rfl (none e he),
          fun ended => absurd running ended, rfl⟩
  · have inactive : ∀ e ∈ s.adapter.active, e.ref ≠ ref := fun e he same => active ⟨e, he, same⟩
    have any : s.adapter.active.any (·.ref = ref) = false := by
      refine List.any_eq_false.2 fun e he => ?_
      rw [decide_eq_true_eq]
      exact inactive e he
    have unflagged : s.adapter = if cancel then s.adapter.setFlag ref else s.adapter := by
      rw [Adapter.setFlag_inactive inactive, ite_self]
    rw [any]
    by_cases running : statusOf record.result = some "RUNNING"
    · have lost : statusOf (shownMembers record.result) = some "RUNNING" :=
        (statusOf_shownMembers _).trans running
      rw [if_neg fun h => Bool.false_ne_true h.1, if_pos ⟨rfl, lost⟩]
      have unknown : ∀ reason, statusOf (setMember (setMember (shownMembers record.result) "status"
          (.str "UNKNOWN")) "reason" (.str reason)) = some "UNKNOWN" := fun reason =>
        (statusOf_setMember_reason _ _).trans (statusOf_setMember _ _)
      refine ⟨_, _, rfl, hidden_setMember (hidden_setMember hidden (by decide)) (by decide),
        fun live => ?_, fun there => absurd there active, fun _ _ => unknown _,
        fun ended => absurd running ended, unflagged⟩
      rcases live with run | cancelling
      · exact absurd ((unknown _).symm.trans run) (by decide)
      · exact absurd ((unknown _).symm.trans cancelling) (by decide)
    · have other : statusOf (shownMembers record.result) ≠ some "RUNNING" := fun same =>
        running ((statusOf_shownMembers _).symm.trans same)
      rw [if_neg fun h => Bool.false_ne_true h.1, if_neg fun h => other h.2]
      obtain ⟨r, hr, same, q, ended, concluded, result⟩ :=
        (h.told ref record found).resolve_left running
      have told : statusOf record.result = some q.status.value := by
        rw [result, statusOf_result]
      refine ⟨_, _, rfl, hidden, fun live => ?_, fun there => absurd there active,
        fun _ run => absurd run running,
        fun _ => ⟨r, hr, same, q, ended, concluded, by rw [result]⟩, unflagged⟩
      rcases live with run | cancelling
      · exact absurd run other
      · have said := (statusOf_shownMembers record.result).symm.trans cancelling
        rw [told, Option.some.injEq] at said
        exact absurd said (QueryStatus.value_ne_cancelling _)

/-- In every run: a call by a run of another scope or session is answered like one about a query
that does not exist, and changes nothing; the owner is told what is so; the flag of no other query
is set; and the owner is the run that reserved the query. -/
theorem Reachable.control_honest {s : System} (h : Reachable sha256 policy s) (caller : Caller)
    (ref : String) (cancel : Bool) :
    ((∀ record, s.adapter.records ref = some record → ¬record.BelongsTo caller) →
      ∃ e, s.adapter.control caller ref cancel = (.error e, s.adapter) ∧
        ∀ ref', isQueryRef ref' = isQueryRef ref → s.adapter.records ref' = none →
          s.adapter.control caller ref' cancel = (.error e, s.adapter)) ∧
    (∀ record, s.adapter.records ref = some record → record.BelongsTo caller →
      ∃ shown after, s.adapter.control caller ref cancel = (.ok shown, after) ∧
        Honest s ref record cancel shown after) ∧
    (∀ r ∈ s.all, r.complete = true → ∃ record, s.adapter.records r.job.ref = some record ∧
      record.BelongsTo r.caller) ∧
    (s.adapter.active.map (·.ref)).Nodup := by
  have filed := h.filed
  refine ⟨fun unowned => ?_, fun record found belongs => ?_, filed.owned, filed.refs⟩
  · refine ⟨_, s.adapter.control_unowned caller ref cancel unowned, fun ref' same none => ?_⟩
    rw [← same]
    refine s.adapter.control_unowned caller ref' cancel fun record found => ?_
    rw [none] at found
    cases found
  · exact filed.control cancel found belongs

/-- The query that was reserved first is cancelled. -/
theorem Reachable.control_honest_settled :
    ∃ (s : System) (shown : List (String × Json)), Reachable plainDigest {} s ∧
      s.adapter.control .plain Job.settled.ref true =
        (.ok shown, s.adapter.setFlag Job.settled.ref) ∧
      statusOf shown = some "CANCELLING" := by
  obtain ⟨plan, reserved⟩ := Job.settled_reserved
  have reached : Reachable plainDigest {} _ := .single reserved
  obtain ⟨-, owner, owned, -⟩ := Reachable.control_honest reached .plain Job.settled.ref true
  obtain ⟨record, found, belongs⟩ := owned _ List.mem_cons_self rfl
  obtain ⟨shown, after, called, honest⟩ := owner record found belongs
  obtain rfl := honest.flag
  exact ⟨_, shown, reached, called, honest.active ⟨_, List.mem_append_right _
    List.mem_cons_self, rfl⟩⟩

end CodeForge.Impala
