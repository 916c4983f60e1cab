import CodeForge.Impala.Cells
import CodeForge.Impala.Sizes

/-!
# What a result says about the rows

A result that reports success has as many rows as it says, and not more than
were asked for.  Its texts, its columns and the whole of it are within the
limits of the policy.  It shows the rows the driver produced in their order, as
far as it goes, and says so truthfully: it is truncated just when a row is
missing or a cell was cut (`Evident`).

`fetchmany(1)` returns a batch with one row, or an empty one at the end.  The
invariant of the loop is `Kept`: one row is shown for each batch so far, and a
reason is noted when a cell of one was cut.
-/

namespace CodeForge.Impala

open Lib QueryM

variable {V : Type} {W : World V} {job : Job} {deadline fuel : Nat} {s t : Query V}

/-! ## Rows -/

/-- The cells of the row in a batch. -/
def World.cells (W : World V) (batch : V) : Except Raised (List Cell) := do
  let values ← W.first batch >>= W.items
  return values.map W.cell

/-- What is shown of some batches, and whether a cell was cut. -/
inductive RowsShown (W : World V) : List V → List (List Json) → Bool → Prop where
  | nil : RowsShown W [] [] false
  | snoc {batches : List V} {rows : List (List Json)} {before cut : Bool} {batch : V}
      {cells : List Cell} {js : List Json} (others : RowsShown W batches rows before)
      (read : W.cells batch = .ok cells) (last : RowShown cells js cut) :
      RowsShown W (batches ++ [batch]) (rows ++ [js]) (before || cut)

theorem RowsShown.length {batches : List V} {rows : List (List Json)} {cut : Bool}
    (h : RowsShown W batches rows cut) : batches.length = rows.length := by
  induction h with
  | nil => rfl
  | snoc others read last ih => simp [ih]

/-- All rows are shown whole. -/
theorem RowsShown.whole {batches : List V} {rows : List (List Json)} {cut : Bool}
    (h : RowsShown W batches rows cut) (uncut : cut = false) :
    List.Forall₂ (fun batch js => ∃ cells, W.cells batch = .ok cells ∧
      List.Forall₂ (fun c j => Cell.whole c = .ok j) cells js) batches rows := by
  induction h with
  | nil => exact .nil
  | snoc others read last ih =>
      obtain ⟨before, cut⟩ := Bool.or_eq_false_iff.1 uncut
      exact List.rel_append (ih before) (.cons ⟨_, read, last.whole cut⟩ .nil)

/-- A cell that was shown is not whole. -/
def HasCut (W : World V) (batches : List V) (rows : List (List Json)) : Prop :=
  ∃ (i k : Nat) (batch : V) (cells : List Cell) (js : List Json) (c : Cell) (w j : Json),
    batches[i]? = some batch ∧ rows[i]? = some js ∧ W.cells batch = .ok cells ∧
      cells[k]? = some c ∧ js[k]? = some j ∧ c.whole = .ok w ∧ Shortened w j

theorem HasCut.append {batches batches' : List V} {rows rows' : List (List Json)}
    (h : HasCut W batches rows) : HasCut W (batches ++ batches') (rows ++ rows') := by
  obtain ⟨i, k, batch, cells, js, c, w, j, here, there, rest⟩ := h
  refine ⟨i, k, batch, cells, js, c, w, j, ?_, ?_, rest⟩
  · rw [List.getElem?_append_left (List.getElem?_eq_some_iff.1 here).1, here]
  · rw [List.getElem?_append_left (List.getElem?_eq_some_iff.1 there).1, there]

theorem RowsShown.hasCut {batches : List V} {rows : List (List Json)} {cut : Bool}
    (h : RowsShown W batches rows cut) (is_cut : cut = true) : HasCut W batches rows := by
  induction h with
  | nil => cases is_cut
  | @snoc batches rows before cut batch cells js others read last ih =>
      cases before with
      | true => exact (ih rfl).append
      | false =>
          obtain ⟨k, c, w, j, rest⟩ := last.exists_cut is_cut
          refine ⟨batches.length, k, batch, cells, js, c, w, j, ?_, ?_, read, rest⟩
          · exact List.getElem?_concat_length
          · rw [others.length]
            exact List.getElem?_concat_length

/-! ## The loop -/

/-- The result after some batches, while there may be more. -/
structure Kept (W : World V) (job : Job) (r : QueryResult) (batches : List V) : Prop where
  running : r.status = .running
  count : r.rows.length ≤ job.rows
  fits : r.measured.size ≤ job.profile.policy.maxBytes - 1024
  texts : ∀ js ∈ r.rows, ∀ s, .str s ∈ js → bytes s ≤ job.profile.policy.cellBytes
  shown : ∃ cut, RowsShown W batches r.rows cut ∧
    r.truncationReasons = if cut then [.cellLimit] else []

/-- The loop ended: the driver has no more rows, or the last batch was dropped. -/
inductive Ended (W : World V) (job : Job) (r : QueryResult) :
    List V → List (Reply V) → Prop where
  | exhausted {batches : List V} {v : V} (kept : Kept W job r batches)
      (empty : W.truthy v = .ok false) : Ended W job r batches [⟨.fetchmany, .ok v⟩]
  | dropped {batches : List V} {v : V} {r' : QueryResult} {reason : Truncation}
      (kept : Kept W job r' batches) (same : r = r'.truncate reason) :
      Ended W job r (batches ++ [v]) []

/-- One more row. -/
theorem Kept.addRow {r : QueryResult} {batches : List V} {batch : V} {cells : List Cell}
    {js : List Json} {cut : Bool} (h : Kept W job r batches)
    (space : ¬ job.rows ≤ r.rows.length) (small : ¬ job.overflows (r.addRow js) = true)
    (read : W.cells batch = .ok cells)
    (shown : row job.profile.policy.cellBytes cells = .ok (js, cut)) :
    Kept W job
      (let r := r.addRow js
       if cut && !r.truncationReasons.contains .cellLimit then r.truncate .cellLimit else r)
      (batches ++ [batch]) := by
  have pos : 0 < job.profile.policy.cellBytes :=
    job.profile.policy.positive _ (by simp)
  obtain ⟨last, texts⟩ := row_eq_ok pos shown
  obtain ⟨before, others, reasons⟩ := h.shown
  have rows : RowsShown W (batches ++ [batch]) (r.rows ++ [js]) (before || cut) :=
    .snoc others read last
  have count : (r.rows ++ [js]).length ≤ job.rows := by
    rw [List.length_append, List.length_singleton]
    omega
  have all : ∀ js' ∈ r.rows ++ [js], ∀ s, .str s ∈ js' →
      bytes s ≤ job.profile.policy.cellBytes := by
    intro js' hjs
    rcases List.mem_append.1 hjs with old | new
    · exact h.texts js' old
    · rw [List.mem_singleton.1 new]
      exact texts
  have running : (r.addRow js).status = .running := h.running
  have fits : (r.addRow js).measured.size ≤ job.profile.policy.maxBytes - 1024 := by
    rw [Job.overflows, decide_eq_true_eq] at small
    exact (QueryResult.measured_size_le running).trans (Nat.not_lt.1 small)
  have noted : (r.addRow js).truncationReasons = if before then [.cellLimit] else [] := reasons
  dsimp only
  rw [noted]
  cases before with
  | true =>
      have skip : (cut && !([Truncation.cellLimit].contains .cellLimit)) = false := by
        cases cut <;> rfl
      rw [if_pos rfl, skip]
      exact ⟨running, count, fits, all, _, rows, noted⟩
  | false =>
      cases cut with
      | false => exact ⟨running, count, fits, all, _, rows, noted⟩
      | true =>
          refine ⟨running, count, fits, all, _, rows, ?_⟩
          change (r.addRow js).truncationReasons ++ [.cellLimit] = _
          rw [noted]
          rfl

theorem fetchRows_ended {u : Unit} {batches : List V}
    (h : fetchRows W job deadline fuel s = .ok u t) (kept : Kept W job s.result batches) :
    ∃ more rest, t.trace = s.trace ++ more.map (fun v => ⟨.fetchmany, .ok v⟩) ++ rest ∧
      (∀ v ∈ more, W.truthy v = .ok true) ∧ t.result.columns = s.result.columns ∧
      Ended W job t.result (batches ++ more) rest := by
  induction fuel generalizing s batches with
  | zero => cases h
  | succ fuel ih =>
      obtain ⟨_, s₁, passed, h₁⟩ := bind_eq_ok.1 h
      obtain ⟨batch, s₂, answered, h₂⟩ := bind_eq_ok.1 h₁
      obtain ⟨more, s₃, asked, h₃⟩ := bind_eq_ok.1 h₂
      obtain ⟨rfl, -⟩ := checkpoint_eq_ok passed
      obtain ⟨-, -, rfl⟩ := onCursor_eq_ok.1 answered
      obtain ⟨truthy, rfl⟩ := ofExcept_eq_ok.1 asked
      cases more with
      | false =>
          obtain ⟨-, rfl⟩ := pure_eq_ok.1 h₃
          refine ⟨[], [⟨.fetchmany, .ok batch⟩], by simp, fun v hv => absurd hv List.not_mem_nil,
            rfl, ?_⟩
          rw [List.append_nil]
          exact .exhausted kept truthy
      | true =>
          have once : ∀ v ∈ [batch], W.truthy v = .ok true := by
            intro v hv
            rw [List.mem_singleton.1 hv]
            exact truthy
          obtain ⟨now_, s₄, got, h₄⟩ := bind_eq_ok.1 h₃
          obtain ⟨rfl, rfl⟩ := get_eq_ok.1 got
          split at h₄
          · rw [setResult_eq_ok] at h₄
            subst h₄
            exact ⟨[batch], [], by simp, once, rfl, .dropped kept rfl⟩
          next space =>
            obtain ⟨values, s₅, unpacked, h₅⟩ := bind_eq_ok.1 h₄
            obtain ⟨⟨cells, cut⟩, s₆, read, h₆⟩ := bind_eq_ok.1 h₅
            obtain ⟨values_ok, rfl⟩ := ofExcept_eq_ok.1 unpacked
            obtain ⟨row_ok, rfl⟩ := ofExcept_eq_ok.1 read
            dsimp only at h₆
            split at h₆
            · rw [setResult_eq_ok] at h₆
              subst h₆
              exact ⟨[batch], [], by simp, once, rfl, .dropped kept rfl⟩
            next small =>
              obtain ⟨_, s₇, added, h₇⟩ := bind_eq_ok.1 h₆
              rw [setResult_eq_ok] at added
              subst added
              have known : W.cells batch = .ok (values.map W.cell) := by
                rw [World.cells, values_ok]
                rfl
              have kept' := kept.addRow space small known row_ok
              obtain ⟨more, rest, trace, truthy', columns, ended⟩ := ih h₇ kept'
              refine ⟨batch :: more, rest, ?_, ?_, ?_, ?_⟩
              · rw [trace]
                simp
              · intro v hv
                rcases List.mem_cons.1 hv with rfl | later
                · exact truthy
                · exact truthy' v later
              · have same : ∀ b : Bool,
                    (if b = true then (s.result.addRow cells).truncate .cellLimit
                    else s.result.addRow cells).columns = s.result.columns := by
                  intro b
                  cases b <;> rfl
                exact columns.trans (same _)
              · rw [List.append_cons]
                exact ended

/-! ## Before the loop -/

/-- Where the length of a value is the number of its items, there are not too many columns. -/
theorem describe_columns {u : Unit}
    (sized : ∀ v n l, W.length v = .ok n → W.items v = .ok l → l.length = n)
    (h : describe W job s = .ok u t) :
    t.result.columns.length ≤ job.profile.policy.maxColumns := by
  obtain ⟨v, s₁, answered, h₁⟩ := bind_eq_ok.1 h
  obtain ⟨columns, s₂, read, h₂⟩ := bind_eq_ok.1 h₁
  obtain ⟨_, s₃, few, h₃⟩ := bind_eq_ok.1 h₂
  obtain ⟨names, s₄, named, h₄⟩ := bind_eq_ok.1 h₃
  obtain ⟨_, s₅, noted, h₅⟩ := bind_eq_ok.1 h₄
  obtain ⟨q, s₆, got, h₆⟩ := bind_eq_ok.1 h₅
  obtain ⟨counted, -⟩ := ofExcept_eq_ok.1 read
  obtain ⟨enough, -⟩ := raiseIf_eq_ok.1 few
  obtain ⟨listed, -⟩ := ofExcept_eq_ok.1 named
  rw [setResult_eq_ok] at noted
  subst noted
  obtain ⟨-, rfl⟩ := get_eq_ok.1 got
  obtain ⟨-, rfl⟩ := raiseIf_eq_ok.1 h₆
  have lengths : ∀ (l : List V) names, W.columnNames l = .ok names → names.length = l.length := by
    intro l
    induction l with
    | nil =>
        intro names h
        cases h
        rfl
    | cons v l ih =>
        intro names h
        obtain ⟨name, -, h⟩ := except_bind_eq_ok.1 h
        obtain ⟨rest, others, h⟩ := except_bind_eq_ok.1 h
        cases h
        rw [List.length_cons, List.length_cons, ih rest others]
  have count : names.length ≤ columns.1 := by
    obtain ⟨known, -, counted⟩ := except_bind_eq_ok.1 counted
    cases known with
    | false =>
        cases counted
        cases listed
        exact Nat.le_refl 0
    | true =>
        obtain ⟨n, length, counted⟩ := except_bind_eq_ok.1 counted
        cases counted
        obtain ⟨l, items, listed⟩ := except_bind_eq_ok.1 listed
        rw [lengths l names listed, sized v n l length items]
  exact count.trans (Nat.le_of_not_lt (of_decide_eq_false enough))

/-- A query that gets to the end of its rows. -/
structure Shown (W : World V) (job : Job) (r : QueryResult) (l : List (Reply V)) : Prop where
  columns : r.columns.length ≤ job.profile.policy.maxColumns
  rows : ∃ before d batches rest,
    l = before ++ ⟨.description, .ok d⟩ :: batches.map (fun v => ⟨.fetchmany, .ok v⟩) ++ rest ∧
      (∀ v ∈ batches, W.truthy v = .ok true) ∧
      Ended W job { r with status := .running } batches rest

theorem runQuery_shown {u : Unit}
    (sized : ∀ v n l, W.length v = .ok n → W.items v = .ok l → l.length = n)
    (start : s.result = (Query.start (V := V) job).result)
    (h : runQuery W job deadline fuel s = .ok u t) :
    t.result.status = .succeeded ∧ Shown W job t.result t.trace := by
  let P : QueryResult → Prop := fun r =>
    r.status = .running ∧ r.rows = [] ∧ r.truncationReasons = []
  have steady := Steady.ofResult (V := V) P
  have opened : Preserves (fun s : Query V => P s.result) (openCursor W) := openCursor_keeps
  have submits : Preserves (fun s : Query V => P s.result) (submit W job deadline fuel) :=
    submit_keeps fun r guid h => h
  have describes : Preserves (fun s : Query V => P s.result) (describe W job) :=
    describe_keeps fun r columns h => h
  obtain ⟨_, s₁, checked, h₁⟩ := bind_eq_ok.1 h
  obtain ⟨_, s₂, cursor, h₂⟩ := bind_eq_ok.1 h₁
  obtain ⟨_, s₃, verified, h₃⟩ := bind_eq_ok.1 h₂
  obtain ⟨_, s₄, passed, h₄⟩ := bind_eq_ok.1 h₃
  obtain ⟨_, s₅, submitted, h₅⟩ := bind_eq_ok.1 h₄
  obtain ⟨_, s₆, described, h₆⟩ := bind_eq_ok.1 h₅
  obtain ⟨_, s₇, fetched, h₇⟩ := bind_eq_ok.1 h₆
  obtain ⟨_, s₈, last, h₈⟩ := bind_eq_ok.1 h₇
  rw [setResult_eq_ok] at h₈
  subst h₈
  obtain ⟨rfl, -⟩ := checkpoint_eq_ok last
  have p₀ : P s.result := by
    rw [start]
    exact ⟨rfl, rfl, rfl⟩
  have p₅ := submits.of_ok submitted (steady.checkpoint.of_ok passed
    ((steady.verifyAccount fuel).of_ok verified (opened.of_ok cursor
      (steady.checkpoint.of_ok checked p₀))))
  obtain ⟨running, rows, reasons⟩ := describes.of_ok described p₅
  have kept : Kept W job s₆.result [] := by
    refine ⟨running, ?_, ?_, ?_, false, ?_, reasons⟩
    · rw [rows]
      exact Nat.zero_le _
    · exact (QueryResult.measured_size_le running).trans (describe_fits described)
    · rw [rows]
      exact fun js hjs => absurd hjs List.not_mem_nil
    · rw [rows]
      exact .nil
  obtain ⟨batches, rest, trace, truthy, columns, ended⟩ := fetchRows_ended fetched kept
  obtain ⟨-, d, trace₆⟩ := describe_eq_ok described
  refine ⟨rfl, ?_, s₅.trace, d, batches, rest, ?_, truthy, ?_⟩
  · change s₇.result.columns.length ≤ _
    rw [columns]
    exact describe_columns sized described
  · change s₇.trace = _
    rw [trace, trace₆]
    simp
  · have still : s₇.result.status = .running := by
      cases ended with
      | exhausted kept' empty => exact kept'.running
      | dropped kept' same =>
          rw [same]
          exact kept'.running
    have same : ({ s₇.result with status := .running } : QueryResult) = s₇.result := by
      rw [← still]
    rw [List.nil_append] at ended
    change Ended W job { s₇.result with status := .running } batches rest
    rw [same]
    exact ended

/-! ## The result -/

/-- A query that reports success came to the end of its rows, and then everything was closed. -/
theorem conclude_succeeded (h : conclude W job fuel (Query.start job) = .ok none t)
    (succeeded : t.result.status = .succeeded) :
    ∃ (deadline : Nat) (s₁ s₂ : Query V) (start stop : Fin (2 ^ 63)) (c k : V),
      s₁.result = (Query.start (V := V) job).result ∧
      runQuery W job deadline fuel s₁ = .ok () s₂ ∧
      t.result = s₂.result.finish (roundMs (stop.val - start.val)) ∧
      t.trace = s₂.trace ++ [⟨.closeCursor, .ok c⟩, ⟨.closeConnection, .ok k⟩] := by
  obtain ⟨start, s₁, started, h₁⟩ := bind_eq_ok.1 h
  obtain ⟨outcome, s₂, tried, h₂⟩ := bind_eq_ok.1 h₁
  obtain ⟨pending, s₃, handled, h₃⟩ := bind_eq_ok.1 h₂
  obtain ⟨_, s₄, cursor, h₄⟩ := bind_eq_ok.1 h₃
  obtain ⟨_, s₅, connection, h₅⟩ := bind_eq_ok.1 h₄
  obtain ⟨stop, s₆, stopped, h₆⟩ := bind_eq_ok.1 h₅
  obtain ⟨_, s₇, finished, h₇⟩ := bind_eq_ok.1 h₆
  obtain ⟨rfl, rfl⟩ := pure_eq_ok.1 h₇
  obtain ⟨-, rfl⟩ := ask_eq_ok.1 started
  obtain ⟨-, rfl⟩ := ask_eq_ok.1 stopped
  rw [setResult_eq_ok] at finished
  subst finished
  have success : s₅.result.status = .succeeded := succeeded
  have orderly : s₂.Orderly :=
    attempt_orderly ⟨fun some_ => (by cases some_), fun _ r hr => absurd hr List.not_mem_nil⟩ rfl
      tried
  rcases handleFailure_eq_ok handled with ⟨rfl, rfl⟩ | ⟨-, trace, hcursor, hconnection, status⟩
  · rcases attempt_eq_ok.1 tried with ⟨u, -, ended⟩ | ⟨e, wrong, -⟩
    swap
    · cases wrong
    obtain ⟨succeeded₂, open_, -⟩ := runQuery_eq_ok ended
    rcases close_eq_ok cursor connection orderly with unknown | ⟨result, closed⟩
    · cases unknown.symm.trans success
    · rcases closed with ⟨none_, -⟩ | ⟨-, l, k, done, trace⟩
      · rw [none_] at open_
        cases open_
      · rcases done with ⟨-, c, rfl⟩ | ⟨other, -⟩
        · refine ⟨_, { Query.start job with asks := 1 }, s₃, start, stop, c, k, rfl, ended, ?_, ?_⟩
          · change s₅.result.finish _ = _
            rw [result]
          · exact trace.trans (List.append_assoc _ _ _)
        · exact absurd succeeded₂ other
  · have orderly₃ : s₃.Orderly :=
      ⟨by rw [hcursor, hconnection]; exact orderly.connected,
        by rw [hcursor, trace]; exact orderly.unsubmitted⟩
    rcases close_eq_ok cursor connection orderly₃ with unknown | ⟨result, -⟩
    · cases unknown.symm.trans success
    · rw [result] at success
      rcases status with is | is | ⟨is, -⟩ <;> cases is.symm.trans success

/-- What a result says is so.  The driver produced a row in each of the batches, and then said
that there are no more, unless nothing more was asked of it. -/
structure Evident (W : World V) (job : Job) (r : QueryResult) (batches : List V)
    (rest : List (Reply V)) : Prop where
  size : r.size ≤ job.profile.policy.maxBytes
  count : r.rowCount = r.rows.length ∧ r.rowCount ≤ job.rows
  columns : r.columns.length ≤ job.profile.policy.maxColumns
  texts : ∀ js ∈ r.rows, ∀ s, .str s ∈ js → bytes s ≤ job.profile.policy.cellBytes
  start : ∃ cut, RowsShown W (batches.take r.rows.length) r.rows cut
  whole : r.truncated = false →
    (∃ v, rest = [⟨.fetchmany, .ok v⟩] ∧ W.truthy v = .ok false) ∧
      List.Forall₂ (fun batch js => ∃ cells, W.cells batch = .ok cells ∧
        List.Forall₂ (fun c j => Cell.whole c = .ok j) cells js) batches r.rows
  less : r.truncated = true → r.rows.length < batches.length ∨ HasCut W batches r.rows

theorem Ended.evident {r : QueryResult} {ms : Int} {batches : List V} {rest : List (Reply V)}
    (succeeded : r.status = .succeeded)
    (columns : r.columns.length ≤ job.profile.policy.maxColumns)
    (rows : job.rows ≤ job.profile.policy.maxRows) (clock : ms.natAbs < 10 ^ 14)
    (h : Ended W job { r with status := .running } batches rest) :
    Evident W job (r.finish ms) batches rest := by
  have least := job.profile.policy.byteBounds.1
  have most := job.profile.policy.rowBounds.2
  have shown : (r.finish ms).rows = r.rows := by rw [QueryResult.finish, succeeded]; rfl
  have listed : (r.finish ms).columns = r.columns := by rw [QueryResult.finish, succeeded]; rfl
  have counted : (r.finish ms).rowCount = r.rows.length := by
    rw [QueryResult.finish, succeeded]
    rfl
  -- The final fields fit into the space that was left for them.
  have sized : r.truncationReasons.length ≤ 2 → r.rows.length ≤ job.rows →
      r.measured.size ≤ job.profile.policy.maxBytes - 1024 →
      (r.finish ms).size ≤ job.profile.policy.maxBytes := by
    intro reasons count fits
    have size := QueryResult.finish_size (r := r) reasons (by omega) clock
    rw [← succeeded] at size
    change (r.finish ms).size ≤ _ at size
    omega
  cases h with
  | @exhausted _ v kept empty =>
      obtain ⟨cut, rows', reasons⟩ := kept.shown
      have noted : r.truncationReasons = if cut then [.cellLimit] else [] := reasons
      have all : batches.length = r.rows.length := rows'.length
      have few : r.truncationReasons.length ≤ 2 := by
        rw [noted]
        cases cut <;> decide
      have truncated : (r.finish ms).truncated = cut := by
        change (!r.truncationReasons.isEmpty) = cut
        rw [noted]
        cases cut <;> rfl
      refine ⟨sized few kept.count kept.fits, ?_, listed ▸ columns, shown ▸ kept.texts, ?_, ?_, ?_⟩
      · rw [counted, shown]
        exact ⟨rfl, kept.count⟩
      · rw [shown, ← all, List.take_length]
        exact ⟨cut, rows'⟩
      · intro uncut
        rw [shown]
        exact ⟨⟨v, rfl, empty⟩, rows'.whole (truncated.symm.trans uncut)⟩
      · intro is_cut
        rw [shown]
        exact .inr (rows'.hasCut (truncated.symm.trans is_cut))
  | @dropped before v r' reason kept same =>
      obtain ⟨cut, rows', reasons⟩ := kept.shown
      have same_rows : r.rows = r'.rows := by
        have := congrArg QueryResult.rows same
        exact this
      have noted : r.truncationReasons = r'.truncationReasons ++ [reason] := by
        have := congrArg QueryResult.truncationReasons same
        exact this
      have fits : r.measured.size ≤ job.profile.policy.maxBytes - 1024 := by
        have measured : r.measured = r'.measured := by
          have := congrArg QueryResult.measured same
          exact this
        rw [measured]
        exact kept.fits
      have few : r.truncationReasons.length ≤ 2 := by
        rw [noted, reasons, List.length_append, List.length_singleton]
        cases cut <;> decide
      have truncated : (r.finish ms).truncated = true := by
        change (!r.truncationReasons.isEmpty) = true
        rw [noted]
        simp
      have count : r.rows.length ≤ job.rows := by
        rw [same_rows]
        exact kept.count
      refine ⟨sized few count fits, ?_, listed ▸ columns, ?_, ?_, ?_, ?_⟩
      · rw [counted, shown]
        exact ⟨rfl, count⟩
      · rw [shown, same_rows]
        exact kept.texts
      · rw [shown, same_rows, ← rows'.length, List.take_left]
        exact ⟨cut, rows'⟩
      · intro uncut
        rw [truncated] at uncut
        cases uncut
      · intro _
        rw [shown, same_rows, ← rows'.length, List.length_append]
        exact .inl (Nat.lt_succ_self _)

/-- A result that reports success is within its limits, and what it says of its rows is so. -/
theorem execute_evident {V : Type} (W : World V)
    (sized : ∀ v n l, W.length v = .ok n → W.items v = .ok l → l.length = n) (job : Job)
    (rows : job.rows ≤ job.profile.policy.maxRows) (settle : Query V → Option Raised) (fuel : Nat)
    (r : QueryResult) (t : Query V)
    (h : execute W job settle fuel (Query.start job) = .ok r t)
    (succeeded : r.status = .succeeded) :
    ∃ before d batches rest c k,
      t.trace = before ++ ⟨.description, .ok d⟩ :: batches.map (fun v => ⟨.fetchmany, .ok v⟩) ++
        rest ++ [⟨.closeCursor, .ok c⟩, ⟨.closeConnection, .ok k⟩] ∧
      (∀ v ∈ batches, W.truthy v = .ok true) ∧ Evident W job r batches rest := by
  obtain ⟨pending, s₁, ended, final⟩ := bind_eq_ok.1 h
  obtain ⟨q, s₂, got, final'⟩ := bind_eq_ok.1 final
  obtain ⟨rfl, rfl⟩ := get_eq_ok.1 got
  cases settled : settle s₂ with
  | some e =>
      rw [settled] at final'
      exact (raise_ne_ok final').elim
  | none =>
      rw [settled] at final'
      cases pending with
      | some e => exact (raise_ne_ok final').elim
      | none =>
          obtain ⟨q', s₃, got', returned⟩ := bind_eq_ok.1 final'
          obtain ⟨rfl, rfl⟩ := get_eq_ok.1 got'
          obtain ⟨rfl, rfl⟩ := pure_eq_ok.1 returned
          obtain ⟨deadline, s₄, s₅, start, stop, c, k, started, ran, result, trace⟩ :=
            conclude_succeeded ended succeeded
          obtain ⟨success, columns, before, d, batches, rest, trace', truthy, all⟩ :=
            runQuery_shown sized started ran
          refine ⟨before, d, batches, rest, c, k, by rw [trace, trace'], truthy, ?_⟩
          rw [result]
          exact all.evident success columns rows (roundMs_lt start stop)

/-- The query of the plain world shows its row. -/
theorem execute_evident_plain :
    ∃ r t, execute World.plain .plain (fun _ => none) 5 (Query.start .plain) = .ok r t ∧
      r.rowCount = 1 ∧ ∃ batches rest, Evident World.plain .plain r batches rest := by
  have report : reportOf (execute World.plain .plain (fun _ => none) 5 (Query.start .plain)) =
      some (.succeeded, 1) := by decide +kernel
  obtain ⟨r, t, ended, same⟩ := reportOf_eq_some report
  obtain ⟨succeeded, one⟩ := Prod.mk.inj same
  have sized : ∀ (v : PlainValue) (n : Nat) (l : List PlainValue), World.plain.length v = .ok n →
      World.plain.items v = .ok l → l.length = n := by
    intro v n l length items
    cases v with
    | text => cases items
    | list vs =>
        cases length
        cases items
        rfl
  obtain ⟨_, _, batches, rest, _, _, _, _, evident⟩ :=
    execute_evident World.plain sized .plain (by decide) (fun _ => none) 5 r t ended succeeded
  exact ⟨r, t, ended, one, batches, rest, evident⟩

end CodeForge.Impala
