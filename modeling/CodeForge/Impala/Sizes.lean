import Mathlib.Data.List.Induction
import CodeForge.Lib.TextSize
import CodeForge.Impala.Outcomes

/-!
# How large results are

A result never has more rows than its query asked for, nor more bytes than the
policy allows (`conclude_bounded`).  A result with rows was measured when its
last row was added, and the fields that are filled in afterwards fit into the
space left for them.  A result without rows has nothing of any length in it but
names, and those are bounded by the configuration.

The errors a result carries are those of the adapter.  `World.Foreign` says
that the driver knows nothing of them.
-/

namespace CodeForge.Impala

open Lib QueryM

variable {V α : Type} {W : World V} {job : Job} {deadline fuel : Nat} {s t : Query V}

/-! ## What can be raised -/

/-- What the world raises. -/
inductive World.Raises (W : World V) : Raised → Prop where
  | call {n : Nat} {c : DriverCall} {e : Raised} (h : W.call n c = .error e) : W.Raises e
  | guid {n : Nat} {e : Raised} (h : W.guid n = .error e) : W.Raises e
  | resolve {n : Nat} {e : Raised} (h : W.resolve n = .failed e) : W.Raises e
  | save {n : Nat} {e : Raised} (h : W.save n = some e) : W.Raises e
  | truthy {v : V} {e : Raised} (h : W.truthy v = .error e) : W.Raises e
  | equals {v : V} {name : String} {e : Raised} (h : W.equals v name = .error e) : W.Raises e
  | hash {v : V} {e : Raised} (h : W.hash v = .error e) : W.Raises e
  | length {v : V} {e : Raised} (h : W.length v = .error e) : W.Raises e
  | first {v : V} {e : Raised} (h : W.first v = .error e) : W.Raises e
  | items {v : V} {e : Raised} (h : W.items v = .error e) : W.Raises e
  | text {v : V} {e : Raised} (h : W.text v = .error e) : W.Raises e
  | cell {v : V} {e : Raised} (h : W.cell v = .other (.error e)) : W.Raises e

/-- The only `DomainError` that comes from outside is that of `connect`. -/
def World.Foreign (W : World V) : Prop :=
  ∀ code message, W.Raises (.domain code message) →
    code = .dependencyUnavailable ∧ message = "Impala credential is unavailable"

/-- A message of the adapter is short. -/
def Raised.Short : Raised → Prop
  | .domain _ message => message.length ≤ 90
  | _ => True

theorem World.Raises.short (foreign : W.Foreign) {e : Raised} (h : W.Raises e) : e.Short := by
  cases e with
  | domain code message =>
      obtain ⟨-, rfl⟩ := foreign code message h
      change "Impala credential is unavailable".length ≤ 90
      decide
  | error | exit => trivial

/-- A member of a set of strings is one of them. -/
theorem World.find_mem {v : V} {names : List String} {name : String}
    (h : W.find v names = .ok (some name)) : name ∈ names := by
  induction names with
  | nil => cases h
  | cons first names ih =>
      obtain ⟨same, -, h⟩ := except_bind_eq_ok.1 h
      cases same with
      | true =>
          cases h
          exact .head _
      | false => exact .tail _ (ih h)

theorem World.oneOf_mem {v : V} {names : List String} {name : String}
    (h : W.oneOf v names = .ok (some name)) : name ∈ names := by
  obtain ⟨_, -, h⟩ := except_bind_eq_ok.1 h
  exact World.find_mem h

namespace RaisesOnly

variable {P : Raised → Prop}

theorem raise {e : Raised} (h : P e) : RaisesOnly P (QueryM.raise e : QueryM V α) := by
  intro s t e' failed
  cases failed
  exact h

theorem ofExcept {x : Except Raised α} (h : ∀ e, x = .error e → P e) :
    RaisesOnly P (QueryM.ofExcept x : QueryM V α) := by
  cases x with
  | ok a => exact .pure a
  | error e => exact .raise (h e rfl)

theorem ofExcept_bind {β : Type} {x : Except Raised α} {f : α → QueryM V β}
    (h : ∀ e, x = .error e → P e) (hf : ∀ a, x = .ok a → RaisesOnly P (f a)) :
    RaisesOnly P (QueryM.ofExcept x >>= f) := by
  cases x with
  | ok a => exact hf a rfl
  | error e =>
      intro s t e' failed
      rcases bind_eq_error.1 failed with raised | ⟨a, s₁, ended, -⟩
      · exact RaisesOnly.raise (h e rfl) _ _ _ raised
      · exact (raise_ne_ok ended).elim

theorem ask_bind {β : Type} {question : Nat → α} {f : α → QueryM V β}
    (hf : ∀ n, RaisesOnly P (f (question n))) : RaisesOnly P (QueryM.ask question >>= f) :=
  fun s t e h => hf s.asks { s with asks := s.asks + 1 } t e h

theorem raiseIf {b : Bool} {e : Raised} (h : P e) :
    RaisesOnly P (QueryM.raiseIf b e : QueryM V Unit) := by
  cases b with
  | true => exact .raise h
  | false => exact .pure _

theorem update (f : Query V → Query V) : RaisesOnly P (modify f : QueryM V Unit) := by
  intro s t e h
  cases h

end RaisesOnly

section Short

variable (foreign : W.Foreign)

include foreign

theorem World.find_error {v : V} {names : List String} {e : Raised}
    (h : W.find v names = .error e) : e.Short := by
  induction names with
  | nil => cases h
  | cons name names ih =>
      rcases except_bind_eq_error.1 h with failed | ⟨same, -, h⟩
      · exact World.Raises.short foreign (.equals failed)
      · cases same with
        | true => cases h
        | false => exact ih h

theorem World.oneOf_error {v : V} {names : List String} {e : Raised}
    (h : W.oneOf v names = .error e) : e.Short := by
  rcases except_bind_eq_error.1 h with failed | ⟨_, -, failed⟩
  · exact World.Raises.short foreign (.hash failed)
  · exact World.find_error foreign failed

theorem World.isAccount_error {v : V} {user : String} {e : Raised}
    (h : W.isAccount v user = .error e) : e.Short := by
  rcases except_bind_eq_error.1 h with failed | ⟨known, -, h⟩
  · exact World.Raises.short foreign (.truthy failed)
  · cases known with
    | false => cases h
    | true =>
        rcases except_bind_eq_error.1 h with failed | ⟨row, -, h⟩
        · exact World.Raises.short foreign (.first failed)
        · rcases except_bind_eq_error.1 h with failed | ⟨cell, -, failed⟩
          · exact World.Raises.short foreign (.first failed)
          · exact World.Raises.short foreign (.equals failed)

theorem World.columnNames_error {vs : List V} {e : Raised}
    (h : W.columnNames vs = .error e) : e.Short := by
  induction vs with
  | nil => cases h
  | cons v vs ih =>
      rcases except_bind_eq_error.1 h with failed | ⟨name, -, h⟩
      · rcases except_bind_eq_error.1 failed with failed | ⟨cell, -, failed⟩
        · exact World.Raises.short foreign (.first failed)
        · exact World.Raises.short foreign (.text failed)
      · rcases except_bind_eq_error.1 h with failed | ⟨names, -, h⟩
        · exact ih failed
        · cases h

theorem row_error {limit : Nat} {vs : List V} {e : Raised}
    (h : row limit (vs.map W.cell) = .error e) : e.Short := by
  induction vs with
  | nil => cases h
  | cons v vs ih =>
      rcases except_bind_eq_error.1 h with failed | ⟨cell, -, h⟩
      · cases known : W.cell v with
        | other text =>
            rw [known] at failed
            cases text with
            | ok text => cases failed
            | error e' =>
                cases failed
                exact World.Raises.short foreign (.cell known)
        | null | bool | int | float | bytes =>
            rw [known] at failed
            cases failed
      · rcases except_bind_eq_error.1 h with failed | ⟨cells, -, h⟩
        · exact ih failed
        · cases h

theorem callDriver_short (c : DriverCall) : RaisesOnly Raised.Short (callDriver W c) := by
  intro s t e h
  unfold callDriver at h
  cases answer : W.call s.asks c with
  | ok v => rw [answer] at h; cases h
  | error e' =>
      rw [answer] at h
      cases h
      exact World.Raises.short foreign (.call answer)

theorem onCursor_short (c : DriverCall) : RaisesOnly Raised.Short (onCursor W c) := by
  intro s t e h
  rw [onCursor_apply] at h
  split at h
  · exact callDriver_short foreign c s t e h
  · cases h
    trivial

theorem onConnection_short (c : DriverCall) : RaisesOnly Raised.Short (onConnection W c) := by
  intro s t e h
  rw [onConnection_apply] at h
  split at h
  · exact callDriver_short foreign c s t e h
  · cases h
    trivial

theorem checkpoint_short : RaisesOnly Raised.Short (checkpoint W job deadline) := by
  refine .bind (.ask _) fun _ => .bind (.raiseIf ?_) fun _ => .bind (.ask _) fun _ =>
    .bind (.raiseIf ?_) fun _ => ?_
  · change "Query cancellation requested".length ≤ 90
    decide
  · change "Impala query deadline exceeded".length ≤ 90
    decide
  intro s t e h
  rcases bind_eq_error.1 h with failed | ⟨resolution, s₁, asked, failed⟩
  · cases failed
  obtain ⟨known, -⟩ := ask_eq_ok.1 asked
  cases resolution with
  | invalid =>
      cases failed
      change
        "Invalid or unavailable server Impala configuration; check operator settings".length ≤ 90
      decide
  | missing =>
      cases failed
      change "Impala binding is disabled or missing".length ≤ 90
      decide
  | bound digest =>
      rw [require] at failed
      split at failed
      · cases failed
      · cases failed
        change "Impala binding changed since message acceptance; submit a new message".length ≤ 90
        decide
  | failed e' =>
      cases failed
      exact World.Raises.short foreign (.resolve known.symm)

theorem waitFinished_short : RaisesOnly Raised.Short (waitFinished W job deadline fuel) := by
  induction fuel with
  | zero => intro s t e h; cases h
  | succ fuel ih =>
      refine .bind (checkpoint_short foreign) fun _ => .bind (onCursor_short foreign _)
        fun state => ?_
      refine .bind (.ofExcept fun e h => World.Raises.short foreign (.equals h)) fun finished => ?_
      cases finished with
      | true => exact .pure _
      | false =>
          intro s t e h
          rcases bind_eq_error.1 h with failed | ⟨name, s₁, compared, failed⟩
          · exact RaisesOnly.ofExcept (fun e h => World.oneOf_error foreign h) _ _ _ failed
          · cases name with
            | none => exact ih _ _ _ failed
            | some name =>
                cases failed
                have known := World.oneOf_mem (ofExcept_eq_ok.1 compared).1
                have short : ∀ name ∈ ["ERROR_STATE", "CANCELED_STATE", "CLOSED_STATE"],
                    s!"Impala returned {name}".length ≤ 90 := by decide
                exact short name known

theorem runQuery_short : RaisesOnly Raised.Short (runQuery W job deadline fuel) := by
  have opened : RaisesOnly Raised.Short (openCursor W) :=
    .bind (callDriver_short foreign _) fun _ => .bind (.update _) fun _ =>
      .bind (onConnection_short foreign _) fun _ => .bind (.update _) fun _ =>
        .bind (onCursor_short foreign _) fun _ => .pure _
  have verified : RaisesOnly Raised.Short (verifyAccount W job deadline fuel) := by
    refine .bind (.update _) fun _ => .bind (onCursor_short foreign _) fun _ =>
      .bind (waitFinished_short foreign) fun _ => .bind (onCursor_short foreign _) fun identity =>
        .bind (.ofExcept fun e h => World.isAccount_error foreign h) fun same => .raiseIf ?_
    change "Impala effective account mismatch".length ≤ 90
    decide
  have submitted : RaisesOnly Raised.Short (submit W job deadline fuel) := by
    refine .bind (onCursor_short foreign _) fun _ => .ask_bind fun n => .bind (.ofExcept ?_)
      fun _ => .bind (.setResult _) fun _ => .ask_bind fun m => .bind (.ofExcept ?_) fun _ =>
        waitFinished_short foreign
    · intro e h
      cases known : W.guid n with
      | ok guid => rw [known] at h; cases h
      | error e' =>
          rw [known] at h
          cases h
          exact World.Raises.short foreign (.guid known)
    · intro e h
      cases known : W.save m with
      | none => rw [known] at h; cases h
      | some e' =>
          rw [known] at h
          cases h
          exact World.Raises.short foreign (.save known)
  have described : RaisesOnly Raised.Short (describe W job) := by
    refine .bind (onCursor_short foreign _) fun description => .ofExcept_bind (fun e h => ?_)
      fun (count, names) h => .bind (.raiseIf ?_) fun _ => .bind (.ofExcept fun e h' => ?_) fun _ =>
        .bind (.setResult _) fun _ => .bind .get fun _ => .raiseIf ?_
    · rcases except_bind_eq_error.1 h with failed | ⟨known, -, h⟩
      · exact World.Raises.short foreign (.truthy failed)
      · cases known with
        | false => cases h
        | true =>
            rcases except_bind_eq_error.1 h with failed | ⟨count, -, h⟩
            · exact World.Raises.short foreign (.length failed)
            · cases h
    · change "Result has too many columns".length ≤ 90
      decide
    · obtain ⟨known, -, h⟩ := except_bind_eq_ok.1 h
      cases known with
      | false =>
          cases h
          cases h'
      | true =>
          obtain ⟨count', -, h⟩ := except_bind_eq_ok.1 h
          cases h
          rcases except_bind_eq_error.1 h' with failed | ⟨items, -, failed⟩
          · exact World.Raises.short foreign (.items failed)
          · exact World.columnNames_error foreign failed
    · change "Result column metadata exceeds byte limit".length ≤ 90
      decide
  have fetched : ∀ fuel, RaisesOnly Raised.Short (fetchRows W job deadline fuel) := by
    intro fuel
    induction fuel with
    | zero => intro s t e h; cases h
    | succ fuel ih =>
        refine .bind (checkpoint_short foreign) fun _ => .bind (onCursor_short foreign _)
          fun batch => .bind (.ofExcept fun e h => World.Raises.short foreign (.truthy h))
          fun more => ?_
        cases more with
        | false => exact .pure _
        | true =>
            refine .bind .get fun q => ?_
            dsimp only
            split
            · exact .setResult _
            · refine .bind (.ofExcept fun e h => ?_) fun values =>
                .bind (.ofExcept fun e h => row_error foreign h) fun cells => ?_
              · rcases except_bind_eq_error.1 h with failed | ⟨row, -, failed⟩
                · exact World.Raises.short foreign (.first failed)
                · exact World.Raises.short foreign (.items failed)
              · obtain ⟨cells, cut⟩ := cells
                dsimp only
                split
                · exact .setResult _
                · exact .bind (.setResult _) fun _ => ih
  exact .bind (checkpoint_short foreign) fun _ => .bind opened fun _ => .bind verified fun _ =>
    .bind (checkpoint_short foreign) fun _ => .bind submitted fun _ => .bind described fun _ =>
      .bind (fetched fuel) fun _ => .bind (checkpoint_short foreign) fun _ => .setResult _

end Short

/-! ## Fields -/

/-- The fields of a result that are filled in by name are short. -/
structure QueryResult.Light (r : QueryResult) : Prop where
  ref : r.queryRef.length ≤ 36
  id : ∀ i, r.queryId = some i → i.length ≤ 33
  department : r.department.length ≤ 100
  account : r.account.length ≤ 200
  reasons : r.truncationReasons.length ≤ 2
  error : ∀ e, r.error = some e → e.message.length ≤ 90

/-- A member of the result counts with its comma. -/
theorem QueryResult.size_eq (r : QueryResult) :
    r.size = 1 + ((r.fixed ++ r.late).map fun m => Json.memberSize m + 1).sum :=
  Json.size_obj (List.append_ne_nil_of_left_ne_nil (List.cons_ne_nil _ _) _)

theorem ErrorCode.value_length (code : ErrorCode) : code.value.length ≤ 22 := by
  cases code <;> decide

theorem QueryStatus.value_size (status : QueryStatus) : (Json.str status.value).size ≤ 11 := by
  cases status <;> decide

theorem Truncation.value_size (reason : Truncation) : (Json.str reason.value).size ≤ 12 := by
  cases reason <;> decide

theorem QueryError.size_le {e : QueryError} (short : e.message.length ≤ 90) :
    e.toJson.size ≤ 700 := by
  have code := Json.size_str_le e.code.value
  have codeLength := ErrorCode.value_length e.code
  have message := Json.size_str_le e.message
  have keys : bytes (Json.quote "code") = 6 ∧ bytes (Json.quote "message") = 9 := by decide
  rw [QueryError.toJson, Json.size_obj (List.cons_ne_nil _ _)]
  simp only [List.map_cons, List.map_nil, List.sum_cons, List.sum_nil, Json.memberSize, keys]
  omega

/-- The reasons take a few bytes. -/
theorem reasons_size_le (reasons : List Truncation) :
    (Json.arr (reasons.map fun t => .str t.value)).size ≤ 2 + 13 * reasons.length := by
  induction reasons using List.reverseRecOn with
  | nil => exact Nat.le_refl 2
  | append_singleton reasons reason ih =>
      have appended :=
        Json.size_arr_append (reasons.map fun t => Json.str t.value) (.str reason.value)
      have := Truncation.value_size reason
      rw [List.map_append, List.length_append]
      simp only [List.map_cons, List.map_nil, List.length_singleton]
      omega

/-- Fewer reasons take less. -/
theorem reasons_size_nil (reasons : List Truncation) :
    2 ≤ (Json.arr (reasons.map fun t => .str t.value)).size := by
  cases reasons with
  | nil => exact Nat.le_refl 2
  | cons reason reasons =>
      rw [List.map_cons, Json.size_arr (List.cons_ne_nil _ _), List.map_cons, List.sum_cons]
      omega

/-! ## The sizes of results -/

theorem bytes_keys : (["query_ref", "query_id", "status", "department", "account", "columns",
    "rows", "row_count", "truncated", "truncation_reasons", "error", "elapsed_ms"].map fun k =>
      bytes (Json.quote k)) = [11, 10, 8, 12, 9, 9, 6, 11, 11, 20, 7, 12] := by decide

/-- The parts of the size of a result. -/
theorem QueryResult.size_parts (r : QueryResult) :
    r.size = 128 + (Json.str r.queryRef).size + (Json.optStr r.queryId).size +
      (Json.str r.status.value).size + (Json.str r.department).size + (Json.str r.account).size +
      (Json.arr (r.columns.map .str)).size + (Json.arr (r.rows.map .arr)).size +
      (Json.nat r.rowCount).size + (Json.bool r.truncated).size +
      (Json.arr (r.truncationReasons.map fun t => .str t.value)).size +
      (r.error.elim 0 fun e => 9 + e.toJson.size) +
      (r.elapsedMs.elim 0 fun ms => 14 + (Json.num (toString ms)).size) := by
  have keys := bytes_keys
  simp only [List.map_cons, List.map_nil, List.cons.injEq, and_true] at keys
  obtain ⟨k₁, k₂, k₃, k₄, k₅, k₆, k₇, k₈, k₉, k₁₀, k₁₁, k₁₂⟩ := keys
  rw [size_eq, fixed, late]
  cases r.error with
  | none =>
      cases r.elapsedMs with
      | none =>
          simp only [List.map_cons, List.map_nil, List.sum_cons, List.sum_nil, Json.memberSize,
            Option.map_none, Option.toList_none, List.append_nil, Option.elim_none, k₁, k₂, k₃, k₄,
            k₅, k₆, k₇, k₈, k₉, k₁₀]
          omega
      | some ms =>
          simp only [List.map_append, List.sum_append, List.map_cons, List.map_nil, List.sum_cons,
            List.sum_nil, Json.memberSize, Option.map_none, Option.toList_none, List.nil_append,
            Option.map_some, Option.toList_some, Option.elim_none, Option.elim_some, k₁, k₂, k₃, k₄,
            k₅, k₆, k₇, k₈, k₉, k₁₀, k₁₂]
          omega
  | some e =>
      cases r.elapsedMs with
      | none =>
          simp only [List.map_append, List.sum_append, List.map_cons, List.map_nil, List.sum_cons,
            List.sum_nil, Json.memberSize, Option.map_none, Option.toList_none, List.append_nil,
            Option.map_some, Option.toList_some, Option.elim_none, Option.elim_some, k₁, k₂, k₃, k₄,
            k₅, k₆, k₇, k₈, k₉, k₁₀, k₁₁]
          omega
      | some ms =>
          simp only [List.map_append, List.sum_append, List.map_cons, List.map_nil, List.sum_cons,
            List.sum_nil, Json.memberSize, Option.map_some, Option.toList_some, Option.elim_some,
            k₁, k₂, k₃, k₄, k₅, k₆, k₇, k₈, k₉, k₁₀, k₁₁, k₁₂]
          omega

/-- A result without rows is small. -/
theorem QueryResult.finish_size_bare {r : QueryResult} {ms : Int} (light : r.Light)
    (bare : r.status ≠ .succeeded) (clock : ms.natAbs < 10 ^ 14) : (r.finish ms).size ≤ 4096 := by
  have ref := Json.size_str_le r.queryRef
  have := light.ref
  have department := Json.size_str_le r.department
  have := light.department
  have account := Json.size_str_le r.account
  have := light.account
  have status := QueryStatus.value_size r.status
  have reasons := reasons_size_le r.truncationReasons
  have := light.reasons
  have elapsed := Json.size_int_le (by decide) clock
  have id : (Json.optStr r.queryId).size ≤ 200 := by
    cases known : r.queryId with
    | none => decide
    | some i =>
        have := light.id i known
        have := Json.size_str_le i
        rw [Json.optStr]
        omega
  have error : (r.error.elim 0 fun e => 9 + e.toJson.size) ≤ 709 := by
    cases known : r.error with
    | none => exact Nat.zero_le _
    | some e =>
        have := QueryError.size_le (light.error e known)
        rw [Option.elim_some]
        omega
  have truncated : (Json.bool (!r.truncationReasons.isEmpty)).size ≤ 5 := by
    cases !r.truncationReasons.isEmpty <;> decide
  have zero : (Json.nat 0).size = 1 := by decide
  rw [size_parts]
  simp only [finish, bare, if_false, List.map_nil, Json.size_arr_nil, List.length_nil,
    Option.elim_some, zero]
  omega

/-- The result as it was measured while the query ran, without reasons. -/
def QueryResult.measured (r : QueryResult) : QueryResult :=
  { r with status := .running, truncationReasons := [] }

/-- The fields that are filled in at the end take little space. -/
theorem QueryResult.finish_size {r : QueryResult} {ms : Int}
    (reasons : r.truncationReasons.length ≤ 2)
    (count : r.rows.length ≤ 10000) (clock : ms.natAbs < 10 ^ 14) :
    (({ r with status := .succeeded }).finish ms).size ≤ r.measured.size + 1024 := by
  have status := QueryStatus.value_size .succeeded
  have few := reasons_size_le r.truncationReasons
  have elapsed := Json.size_int_le (by decide) clock
  have counted : (Json.nat r.rows.length).size ≤ 20 :=
    Json.size_nat_le (k := 5) (by decide) (by omega)
  have truncated : (Json.bool (!r.truncationReasons.isEmpty)).size ≤ 5 := by
    cases !r.truncationReasons.isEmpty <;> decide
  rw [size_parts, size_parts]
  simp only [finish, measured, if_true, Option.elim_some]
  omega

/-- Reasons only add to the size. -/
theorem QueryResult.measured_size_le {r : QueryResult} (running : r.status = .running) :
    r.measured.size ≤ r.size := by
  have := reasons_size_nil r.truncationReasons
  rw [size_parts, size_parts]
  simp only [measured, running, List.map_nil, Json.size_arr_nil]
  omega

/-! ## Queries in progress -/

/-- The result as it is throughout the query.  Once the query has succeeded, its rows fit. -/
structure QueryResult.Bounded (job : Job) (r : QueryResult) : Prop where
  light : r.Light
  rows : r.rows.length ≤ job.rows
  fits : r.status = .succeeded → r.measured.size ≤ job.profile.policy.maxBytes - 1024

/-- The result while there may be more rows to come. -/
structure QueryResult.Growing (job : Job) (r : QueryResult) : Prop where
  bounded : r.Bounded job
  running : r.status = .running
  reasons : r.truncationReasons = [] ∨ r.truncationReasons = [.cellLimit]

/-- A property of the result is not touched by questions and calls. -/
theorem Steady.ofResult (P : QueryResult → Prop) : Steady fun s : Query V => P s.result :=
  ⟨fun _ h => h, fun _ _ _ h => h, fun _ h => h⟩

theorem hexDigits_length (n : Nat) : (hex16 n).length = 16 := by
  rw [hex16, String.length_ofList, List.length_map, List.length_range]

theorem queryIdOf_length {guid : Option (List UInt8)} {i : String} (h : queryIdOf guid = some i) :
    i.length ≤ 33 := by
  obtain ⟨b, -, h⟩ := Option.bind_eq_some_iff.1 h
  split at h
  · cases h
    have colon : ":".length = 1 := rfl
    rw [String.length_append, String.length_append, hexDigits_length, hexDigits_length, colon]
  · cases h

section Keeps

variable {P : QueryResult → Prop}

theorem openCursor_keeps : Preserves (fun s : Query V => P s.result) (openCursor W) := by
  have steady := Steady.ofResult (V := V) P
  have called : ∀ c, Preserves (fun s : Query V => P s.result) (callDriver W c) :=
    fun c s hs => callDriver_preserves (I := fun s => P s.result) fun _ => hs
  have connected : ∀ c, Preserves (fun s : Query V => P s.result) (onConnection W c) :=
    fun c => onConnection_preserves (fun _ _ _ h => h) c
  exact .bind (called _) fun _ => .bind (.modify fun _ h => h) fun _ => .bind (connected _) fun _ =>
    .bind (.modify fun _ h => h) fun _ => .bind (steady.onCursor _) fun _ => .pure _

theorem setResult_keeps {f : QueryResult → QueryResult} (h : ∀ r, P r → P (f r)) :
    Preserves (fun s : Query V => P s.result) (QueryM.setResult f) := .modify fun _ hs => h _ hs

/-- What follows a pure computation has to keep the property for its value only. -/
theorem preserves_ofExcept_bind {β : Type} {I : Query V → Prop} {x : Except Raised α}
    {f : α → QueryM V β} (h : ∀ a, x = .ok a → Preserves I (f a)) :
    Preserves I (QueryM.ofExcept x >>= f) := by
  cases x with
  | ok a => exact h a rfl
  | error e => exact fun _ hs => hs

theorem submit_keeps (h : ∀ r guid, P r → P { r with queryId := queryIdOf guid }) :
    Preserves (fun s : Query V => P s.result) (submit W job deadline fuel) := by
  have steady := Steady.ofResult (V := V) P
  refine .bind (steady.onCursor _) fun _ => .bind (steady.askWorld _) fun guid =>
    preserves_ofExcept_bind fun queryId read => ?_
  obtain ⟨guid, -, rfl⟩ := except_map_eq_ok.1 read
  exact .bind (setResult_keeps fun r hr => h r guid hr) fun _ => .bind (steady.askWorld _) fun _ =>
    .bind (preserves_ofExcept _) fun _ => steady.waitFinished fuel

theorem describe_keeps (h : ∀ r columns, P r → P { r with columns }) :
    Preserves (fun s : Query V => P s.result) (describe W job) := by
  have steady := Steady.ofResult (V := V) P
  exact .bind (steady.onCursor _) fun _ => .bind (preserves_ofExcept _) fun _ =>
    .bind (preserves_raiseIf _ _) fun _ => .bind (preserves_ofExcept _) fun _ =>
      .bind (setResult_keeps fun r hr => h r _ hr) fun _ => .bind .get fun _ =>
        preserves_raiseIf _ _

end Keeps

/-- A result with names only leaves the space that was asked for. -/
theorem describe_fits {u : Unit} (h : describe W job s = .ok u t) :
    t.result.size ≤ job.profile.policy.maxBytes - 1024 := by
  obtain ⟨_, _, -, h⟩ := bind_eq_ok.1 h
  obtain ⟨_, _, -, h⟩ := bind_eq_ok.1 h
  obtain ⟨_, _, -, h⟩ := bind_eq_ok.1 h
  obtain ⟨_, _, -, h⟩ := bind_eq_ok.1 h
  obtain ⟨_, _, -, h⟩ := bind_eq_ok.1 h
  obtain ⟨q, s₁, got, checked⟩ := bind_eq_ok.1 h
  obtain ⟨rfl, rfl⟩ := get_eq_ok.1 got
  obtain ⟨fits, rfl⟩ := raiseIf_eq_ok.1 checked
  rw [Job.overflows, decide_eq_false_iff_not] at fits
  exact Nat.not_lt.1 fits

theorem QueryResult.Growing.addRow {r : QueryResult} {cells : List Json} (h : r.Growing job)
    (space : ¬ job.rows ≤ r.rows.length) : (r.addRow cells).Growing job where
  bounded :=
    { light := ⟨h.bounded.light.ref, h.bounded.light.id, h.bounded.light.department,
        h.bounded.light.account, h.bounded.light.reasons, h.bounded.light.error⟩
      rows := by
        rw [QueryResult.addRow, List.length_append, List.length_singleton]
        omega
      fits := fun succeeded => by
        rw [QueryResult.addRow, h.running] at succeeded
        cases succeeded }
  running := h.running
  reasons := h.reasons

/-- A reason can be noted once more. -/
theorem QueryResult.Growing.truncate {r : QueryResult} (h : r.Growing job) (reason : Truncation) :
    (r.truncate reason).Bounded job where
  light :=
    { ref := h.bounded.light.ref
      id := h.bounded.light.id
      department := h.bounded.light.department
      account := h.bounded.light.account
      reasons := by
        rw [QueryResult.truncate, List.length_append]
        rcases h.reasons with none_ | one
        · rw [none_]
          exact Nat.le_succ 1
        · rw [one]
          exact Nat.le_refl 2
      error := h.bounded.light.error }
  rows := h.bounded.rows
  fits succeeded := by
    rw [QueryResult.truncate, h.running] at succeeded
    cases succeeded

/-- The rows fetched are not more than were asked for, and fit. -/
structure QueryResult.Fetched (job : Job) (r : QueryResult) : Prop where
  bounded : r.Bounded job
  running : r.status = .running
  fits : r.measured.size ≤ job.profile.policy.maxBytes - 1024

theorem fetchRows_fetched (growing : s.result.Growing job)
    (fits : s.result.measured.size ≤ job.profile.policy.maxBytes - 1024) :
    (finalState (fetchRows W job deadline fuel) s).result.Fetched job := by
  induction fuel generalizing s with
  | zero => exact ⟨growing.bounded, growing.running, fits⟩
  | succ fuel ih =>
      let I : Query V → Prop := fun s =>
        s.result.Growing job ∧ s.result.measured.size ≤ job.profile.policy.maxBytes - 1024
      let J : Query V → Prop := fun s => s.result.Fetched job
      have weaken : ∀ s, I s → J s := fun s h => ⟨h.1.bounded, h.1.running, h.2⟩
      have steady : Steady I := Steady.ofResult fun r =>
        r.Growing job ∧ r.measured.size ≤ job.profile.policy.maxBytes - 1024
      refine steady.checkpoint.follow (J := J) weaken (fun _ s₁ _ h₁ => ?_) ⟨growing, fits⟩
      refine (steady.onCursor _).follow (J := J) weaken (fun batch s₂ _ h₂ => ?_) h₁
      refine (preserves_ofExcept _).follow (J := J) weaken (fun more s₃ _ h₃ => ?_) h₂
      cases more with
      | false => exact weaken _ h₃
      | true =>
          refine Preserves.get.follow (J := J) weaken (fun q s₄ got h₄ => ?_) h₃
          obtain ⟨rfl, rfl⟩ := get_eq_ok.1 got
          obtain ⟨growing, fits⟩ := h₄
          dsimp only
          split
          · exact ⟨growing.truncate _, growing.running, fits⟩
          next space =>
            refine (preserves_ofExcept _).follow (J := J) weaken (fun values s₅ unpacked _ => ?_)
              ⟨growing, fits⟩
            obtain ⟨-, rfl⟩ := ofExcept_eq_ok.1 unpacked
            refine (preserves_ofExcept _).follow (J := J) weaken (fun cells s₆ read _ => ?_)
              ⟨growing, fits⟩
            obtain ⟨-, rfl⟩ := ofExcept_eq_ok.1 read
            obtain ⟨cells, cut⟩ := cells
            dsimp only
            split
            · exact ⟨growing.truncate _, growing.running, fits⟩
            next small =>
              have growing' : (s₆.result.addRow cells).Growing job := growing.addRow space
              have fits' := QueryResult.measured_size_le growing'.running
              rw [Job.overflows, decide_eq_true_eq] at small
              refine finalState_bind (I := J) (fun _ s₇ added => ?_) fun e s₇ failed => by
                cases failed
              rw [setResult_eq_ok] at added
              subst added
              split
              next noted =>
                have fresh : (s₆.result.addRow cells).truncationReasons = [] := by
                  rcases growing'.reasons with none_ | one
                  · exact none_
                  · rw [one] at noted
                    simp at noted
                have one : ((s₆.result.addRow cells).truncate .cellLimit).truncationReasons =
                    [.cellLimit] := by
                  rw [QueryResult.truncate, fresh]
                  rfl
                exact ih ⟨growing'.truncate _, growing'.running, .inr one⟩
                  (fits'.trans (Nat.not_lt.1 small))
              · exact ih growing' (fits'.trans (Nat.not_lt.1 small))

/-- The loop over the rows, and what comes after it. -/
theorem fetched_bounded (growing : s.result.Growing job)
    (fits : s.result.measured.size ≤ job.profile.policy.maxBytes - 1024) :
    (finalState (do
      fetchRows W job deadline fuel
      checkpoint W job deadline
      setResult fun r => { r with status := .succeeded }) s).result.Bounded job := by
  let I : Query V → Prop := fun s => s.result.Fetched job
  let J : Query V → Prop := fun s => s.result.Bounded job
  have fetched : (finalState (fetchRows W job deadline fuel) s).result.Fetched job :=
    fetchRows_fetched growing fits
  have steady : Steady I := Steady.ofResult _
  refine finalState_bind (I := J) (fun _ s₁ done => ?_) fun _ _ failed => by
    rw [finalState_of_error failed] at fetched
    exact fetched.bounded
  rw [finalState_of_ok done] at fetched
  refine steady.checkpoint.follow (J := J) (fun s h => h.bounded) (fun _ s₂ _ h => ?_) fetched
  exact ⟨⟨h.bounded.light.ref, h.bounded.light.id, h.bounded.light.department,
    h.bounded.light.account, h.bounded.light.reasons, h.bounded.light.error⟩, h.bounded.rows,
    fun _ => h.fits⟩

/-- Whatever happens in the `try` block, the result stays within its bounds. -/
theorem runQuery_bounded (growing : s.result.Growing job) :
    (finalState (runQuery W job deadline fuel) s).result.Bounded job := by
  let I : Query V → Prop := fun s => s.result.Growing job
  let J : Query V → Prop := fun s => s.result.Bounded job
  have steady : Steady I := Steady.ofResult fun r => r.Growing job
  have opened : Preserves I (openCursor W) := openCursor_keeps
  have submitted : Preserves I (submit W job deadline fuel) := submit_keeps fun r guid h =>
    { bounded :=
        { light :=
            { ref := h.bounded.light.ref
              id := fun i => queryIdOf_length
              department := h.bounded.light.department
              account := h.bounded.light.account
              reasons := h.bounded.light.reasons
              error := h.bounded.light.error }
          rows := h.bounded.rows
          fits := fun succeeded => by cases h.running.symm.trans succeeded }
      running := h.running
      reasons := h.reasons }
  have described : Preserves I (describe W job) := describe_keeps fun r columns h =>
    { bounded :=
        { light := ⟨h.bounded.light.ref, h.bounded.light.id, h.bounded.light.department,
            h.bounded.light.account, h.bounded.light.reasons, h.bounded.light.error⟩
          rows := h.bounded.rows
          fits := fun succeeded => by cases h.running.symm.trans succeeded }
      running := h.running
      reasons := h.reasons }
  have weaken : ∀ s, I s → J s := fun s h => h.bounded
  -- Up to the description of the columns there are no rows to measure.
  refine steady.checkpoint.follow (J := J) weaken (fun _ s₁ _ h₁ => ?_) growing
  refine opened.follow (J := J) weaken (fun _ s₂ _ h₂ => ?_) h₁
  refine (steady.verifyAccount fuel).follow (J := J) weaken (fun _ s₃ _ h₃ => ?_) h₂
  refine steady.checkpoint.follow (J := J) weaken (fun _ s₄ _ h₄ => ?_) h₃
  refine submitted.follow (J := J) weaken (fun _ s₅ _ h₅ => ?_) h₄
  refine described.follow (J := J) weaken (fun _ s₆ done h₆ => ?_) h₅
  exact fetched_bounded h₆ ((QueryResult.measured_size_le h₆.running).trans (describe_fits done))

/-! ## The end of a query -/

/-- A result that reports no success needs no space for rows. -/
theorem QueryResult.Bounded.unsuccessful {r : QueryResult} {status : QueryStatus}
    {error : Option QueryError} (h : r.Bounded job) (other : status ≠ .succeeded)
    (short : ∀ e, error = some e → e.message.length ≤ 90) :
    QueryResult.Bounded job { r with status, error } where
  light := ⟨h.light.ref, h.light.id, h.light.department, h.light.account, h.light.reasons, short⟩
  rows := h.rows
  fits succeeded := absurd succeeded other

theorem handleFailure_bounded {outcome : Except Raised Unit}
    (short : ∀ e, outcome = .error e → e.Short) :
    Preserves (fun s : Query V => s.result.Bounded job) (handleFailure W outcome) := by
  have steady := Steady.ofResult (V := V) fun r => r.Bounded job
  cases outcome with
  | ok _ => exact .pure _
  | error e =>
      cases e with
      | domain code message =>
          refine .bind (setResult_keeps fun r h => ?_) fun _ => .bind (steady.askWorld _)
            fun cancelled => .bind (setResult_keeps fun r h => ?_) fun _ => .pure _
          · refine h.unsuccessful (by decide) fun e known => ?_
            cases known
            exact short _ rfl
          · cases cancelled with
            | true => exact h.unsuccessful (by decide) h.light.error
            | false => exact h
      | error =>
          refine .bind .get fun q => .bind (setResult_keeps fun r h => ?_) fun _ => .pure _
          refine h.unsuccessful ?_ fun e known => ?_
          · cases q.dispatched <;> decide
          · cases known
            decide
      | exit => exact .pure _

theorem orUnknown_bounded {body : QueryM V Unit} {f : QueryResult → QueryResult}
    (kept : Preserves (fun s : Query V => s.result.Bounded job) body)
    (unknown : ∀ r : QueryResult, r.Bounded job → (f { r with status := .unknown }).Bounded job) :
    Preserves (fun s : Query V => s.result.Bounded job) (orUnknown body f) := by
  refine .bind (preserves_attempt kept) fun outcome => ?_
  cases outcome with
  | ok _ => exact .pure _
  | error e =>
      cases e with
      | exit => exact .throw _
      | domain | error => exact setResult_keeps unknown

theorem closeCursor_bounded :
    Preserves (fun s : Query V => s.result.Bounded job) (closeCursor W) := by
  have steady := Steady.ofResult (V := V) fun r => r.Bounded job
  refine .bind .get fun s => .ite (orUnknown_bounded ?_ fun r h => ?_) (.pure _)
  · refine .bind (.bind .get fun s => .ite (.pure _) ?_) fun _ => .bind (steady.onCursor _)
      fun _ => .pure _
    refine .bind (steady.onCursor _) fun _ => .bind (steady.onCursor _) fun _ =>
      .bind (preserves_ofExcept _) fun terminal => setResult_keeps fun r h => ?_
    cases terminal with
    | some _ => exact h
    | none => exact h.unsuccessful (by decide) h.light.error
  · have other : QueryStatus.unknown ≠ .succeeded := by decide
    refine h.unsuccessful other fun e known => ?_
    cases known
    decide

theorem closeConnection_bounded :
    Preserves (fun s : Query V => s.result.Bounded job) (closeConnection W) := by
  refine .bind .get fun s => .ite (orUnknown_bounded ?_ fun r h => ?_) (.pure _)
  · exact .bind (onConnection_preserves (fun _ _ _ h => h) _) fun _ => .pure _
  · exact h.unsuccessful (by decide) h.light.error

/-- Nanoseconds of the clock in milliseconds. -/
theorem roundMs_lt (start stop : Fin (2 ^ 63)) :
    (roundMs (stop.val - start.val)).natAbs < 10 ^ 14 := by
  have := start.isLt
  have := stop.isLt
  have close : ∀ ns : Int, -(2 ^ 63) ≤ ns → ns ≤ 2 ^ 63 → (roundMs ns).natAbs < 10 ^ 14 := by
    intro ns low high
    dsimp only [roundMs]
    split <;> omega
  exact close _ (by omega) (by omega)

/-- A result has no more rows than its query asked for, and no more bytes than the policy allows. -/
structure QueryResult.Moderate (job : Job) (r : QueryResult) : Prop where
  rows : r.rowCount ≤ job.rows
  bytes : r.size ≤ job.profile.policy.maxBytes

theorem QueryResult.Bounded.finish {r : QueryResult} {ms : Int} (h : r.Bounded job)
    (rows : job.rows ≤ job.profile.policy.maxRows) (clock : ms.natAbs < 10 ^ 14) :
    (r.finish ms).Moderate job := by
  have least := job.profile.policy.byteBounds.1
  by_cases succeeded : r.status = .succeeded
  · have count : r.rows.length ≤ 10000 :=
      h.rows.trans (rows.trans job.profile.policy.rowBounds.2)
    have size := QueryResult.finish_size h.light.reasons count clock
    have fits := h.fits succeeded
    rw [← succeeded] at size
    refine ⟨?_, by change (r.finish ms).size ≤ _ at size; omega⟩
    simpa [QueryResult.finish, succeeded] using h.rows
  · have size := QueryResult.finish_size_bare h.light succeeded clock
    refine ⟨?_, by omega⟩
    simp [QueryResult.finish, succeeded]

theorem attempt_bounded {outcome : Except Raised Unit} (foreign : W.Foreign)
    (tried : attempt (runQuery W job deadline fuel) s = .ok outcome t)
    (growing : s.result.Growing job) :
    t.result.Bounded job ∧ ∀ e, outcome = .error e → e.Short := by
  have bounded : (finalState (runQuery W job deadline fuel) s).result.Bounded job :=
    runQuery_bounded growing
  rcases attempt_eq_ok.1 tried with ⟨u, rfl, ended⟩ | ⟨e, rfl, failed⟩
  · rw [finalState_of_ok ended] at bounded
    exact ⟨bounded, nofun⟩
  · rw [finalState_of_error failed] at bounded
    refine ⟨bounded, fun e' same => ?_⟩
    cases same
    exact runQuery_short foreign _ _ _ failed

/-- Whatever the driver returns, the result that is saved stays within its bounds. -/
theorem conclude_moderate {pending : Option Raised} (foreign : W.Foreign)
    (ref : job.ref.length ≤ 36) (rows : job.rows ≤ job.profile.policy.maxRows)
    (h : conclude W job fuel (Query.start job) = .ok pending t) : t.result.Moderate job := by
  have started : (Query.start (V := V) job).result.Growing job :=
    { bounded :=
        { light :=
            { ref
              id := nofun
              department := job.profile.department_reference.2.1
              account := job.profile.user_length.2
              reasons := Nat.zero_le _
              error := nofun }
          rows := Nat.zero_le _
          fits := nofun }
      running := rfl
      reasons := .inl rfl }
  obtain ⟨start, s₁, asked, h₁⟩ := bind_eq_ok.1 h
  obtain ⟨outcome, s₂, tried, h₂⟩ := bind_eq_ok.1 h₁
  obtain ⟨pending', s₃, handled, h₃⟩ := bind_eq_ok.1 h₂
  obtain ⟨_, s₄, cursor, h₄⟩ := bind_eq_ok.1 h₃
  obtain ⟨_, s₅, connection, h₅⟩ := bind_eq_ok.1 h₄
  obtain ⟨stop, s₆, stopped, h₆⟩ := bind_eq_ok.1 h₅
  obtain ⟨_, s₇, finished, h₇⟩ := bind_eq_ok.1 h₆
  obtain ⟨rfl, rfl⟩ := ask_eq_ok.1 asked
  have b₂ := attempt_bounded foreign tried started
  have b₃ := (handleFailure_bounded b₂.2).of_ok handled b₂.1
  have b₄ := closeCursor_bounded.of_ok cursor b₃
  have b₅ := closeConnection_bounded.of_ok connection b₄
  obtain ⟨rfl, rfl⟩ := ask_eq_ok.1 stopped
  rw [setResult_eq_ok] at finished
  subst finished
  obtain ⟨-, rfl⟩ := pure_eq_ok.1 h₇
  exact QueryResult.Bounded.finish b₅ rows (roundMs_lt _ _)

end CodeForge.Impala
