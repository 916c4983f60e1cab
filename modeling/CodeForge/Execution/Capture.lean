import CodeForge.Lib.Utf8

/-!
# Capturing the output of a process

The output of a process arrives in chunks.  Its first bytes, up to a limit, are
written to a file, and their text is told to a sink as it arrives.  What is
behind the limit is read and dropped, and the sink is told once that the output
is truncated.

How the output is cut into chunks does not matter (`readBounded_chunks`).
-/

namespace CodeForge.Execution

open Lib

/-- What a read gives before the end of the stream. -/
abbrev Chunk := { bytes : List UInt8 // bytes ≠ [] }

/-- A call of the sink. -/
structure SinkCall where
  stream : String
  text : List Char
  truncated : Bool
deriving DecidableEq, Repr

/-- The variables of `_read_bounded`.  `pending` is what the decoder keeps. -/
structure Capture where
  written : List UInt8 := []
  total : Nat := 0
  pending : List UInt8 := []
  truncated : Bool := false
  notified : Bool := false
  calls : List SinkCall := []
deriving DecidableEq, Repr

namespace Capture

/-- One round of the loop, with the next chunk. -/
def readChunk (limit : Nat) (name : String) (sink : Bool) (s : Capture) (chunk : List UInt8) :
    Capture :=
  if limit ≤ s.total then
    let s := { s with truncated := true }
    if sink && !s.notified then
      { s with calls := s.calls ++ [⟨name, [], true⟩], notified := true }
    else s
  else
    let writeSize := min chunk.length (limit - s.total)
    let s := { s with
      written := s.written ++ chunk.take writeSize
      total := s.total + writeSize }
    if writeSize < chunk.length then
      let s := { s with truncated := true }
      if sink && !s.notified then
        let decoded := Utf8.decode true (s.pending ++ chunk.take writeSize)
        { s with
          pending := decoded.2
          calls := s.calls ++ [⟨name, decoded.1, true⟩]
          notified := true }
      else s
    else if sink then
      let decoded := Utf8.decode true (s.pending ++ chunk.take writeSize)
      let s := { s with pending := decoded.2 }
      if decoded.1 ≠ [] then { s with calls := s.calls ++ [⟨name, decoded.1, false⟩] } else s
    else s

/-- What the decoder still keeps at the end of the stream. -/
def flush (name : String) (sink : Bool) (s : Capture) : Capture :=
  if sink && !s.truncated then
    let tail := (Utf8.decode false s.pending).1
    if tail ≠ [] then { s with pending := [], calls := s.calls ++ [⟨name, tail, false⟩] } else s
  else s

end Capture

/-- `_read_bounded`.  What it returns is `truncated`. -/
def readBounded (chunks : List Chunk) (limit : Nat) (name : String) (sink : Bool) : Capture :=
  (chunks.foldl (fun (s : Capture) c => s.readChunk limit name sink c.val) {}).flush name sink

/-- What `_output_sink` passes on to the store. -/
def SinkCall.passed (c : SinkCall) : Bool := !(c.text.isEmpty && !c.truncated)

/-- The text of some bytes, with the end of an unfinished character or without it. -/
def incremental (bytes : List UInt8) (final : Bool) : List Char :=
  let decoded := Utf8.decode true bytes
  if final then decoded.1 ++ (Utf8.decode false decoded.2).1 else decoded.1

/-! ## The loop -/

/-- One call of the last is flagged. -/
def Flagged (calls : List SinkCall) : Prop :=
  ∃ earlier last, calls = earlier ++ [last] ∧ last.truncated = true ∧
    ∀ c ∈ earlier, c.truncated = false

/-- What the loop has done when it has seen some bytes. -/
structure Capture.Saw (limit : Nat) (name : String) (sink : Bool) (seen : List UInt8)
    (s : Capture) : Prop where
  written : s.written = seen.take limit
  total : s.total = min limit seen.length
  truncated : s.truncated = decide (limit < seen.length)
  notified : s.notified = (sink && s.truncated)
  texts : sink = true → s.calls.flatMap SinkCall.text = (Utf8.decode true (seen.take limit)).1
  pending : sink = true → s.truncated = false → s.pending = (Utf8.decode true seen).2
  silent : sink = false → s.calls = []
  flagged : sink = true → s.truncated = true → Flagged s.calls
  unflagged : s.truncated = false → ∀ c ∈ s.calls, c.truncated = false
  named : ∀ c ∈ s.calls, c.stream = name
  passed : ∀ c ∈ s.calls, c.passed = true

namespace Capture

variable {limit : Nat} {name : String} {sink : Bool} {seen chunk : List UInt8} {s : Capture}

theorem Saw.start : Saw limit name sink [] {} where
  written := by simp
  total := by simp
  truncated := by simp
  notified := by simp
  texts _ := by simp [Utf8.decode, Utf8.decodeFrom]
  pending _ _ := rfl
  silent _ := rfl
  flagged _ h := by cases h
  unflagged _ c hc := by cases hc
  named c hc := by cases hc
  passed c hc := by cases hc

/-- Behind the limit a chunk is dropped, and the sink is told if it was not yet. -/
theorem Saw.drop (h : s.Saw limit name sink seen) (nonempty : chunk ≠ [])
    (full : limit ≤ s.total) :
    (s.readChunk limit name sink chunk).Saw limit name sink (seen ++ chunk) := by
  have reached : limit ≤ seen.length := by
    have total := h.total
    omega
  have longer : limit < (seen ++ chunk).length := by
    have some := List.length_pos_iff.2 nonempty
    rw [List.length_append]
    omega
  have same : (seen ++ chunk).take limit = seen.take limit := List.take_append_of_le_length reached
  have cut : true = decide (limit < (seen ++ chunk).length) := (decide_eq_true longer).symm
  have most : limit = min limit (seen ++ chunk).length := by omega
  have whole : s.total = limit := by
    have total := h.total
    omega
  rw [readChunk, if_pos full]
  dsimp only
  split
  next told =>
    obtain ⟨hsink, fresh⟩ := Bool.and_eq_true_iff.1 told
    subst hsink
    have notified := h.notified
    have before : s.truncated = false := by simpa [notified] using fresh
    exact {
      written := by rw [same]; exact h.written
      total := by rw [← most]; exact whole
      truncated := cut
      notified := rfl
      texts := fun _ => by
        rw [same, List.flatMap_append, h.texts rfl]
        simp
      pending := fun _ h => by cases h
      silent := fun h => by cases h
      flagged := fun _ _ => ⟨s.calls, _, rfl, rfl, h.unflagged before⟩
      unflagged := fun h => by cases h
      named := by
        intro c hc
        rcases List.mem_append.1 hc with hc | hc
        · exact h.named c hc
        · rw [List.mem_singleton.1 hc]
      passed := by
        intro c hc
        rcases List.mem_append.1 hc with hc | hc
        · exact h.passed c hc
        · rw [List.mem_singleton.1 hc]
          rfl }
  next quiet =>
    have told : sink = true → s.truncated = true := by
      intro hsink
      subst hsink
      have notified := h.notified
      simpa [notified] using quiet
    exact {
      written := by rw [same]; exact h.written
      total := by rw [← most]; exact whole
      truncated := cut
      notified := by
        show s.notified = (sink && true)
        rw [h.notified]
        cases sink with
        | false => rfl
        | true => rw [told rfl]
      texts := fun hsink => by rw [same]; exact h.texts hsink
      pending := fun _ h => by cases h
      silent := h.silent
      flagged := fun hsink _ => h.flagged hsink (told hsink)
      unflagged := fun h => by cases h
      named := h.named
      passed := h.passed }

/-- Below the limit nothing is cut off yet. -/
theorem Saw.below (h : s.Saw limit name sink seen) (room : s.total < limit) :
    s.total = seen.length ∧ s.truncated = false ∧ s.notified = false ∧ seen.take limit = seen := by
  have total := h.total
  have short : seen.length < limit := by omega
  have whole : s.truncated = false := by
    rw [h.truncated]
    exact decide_eq_false (by omega)
  refine ⟨by omega, whole, ?_, List.take_of_length_le (by omega)⟩
  rw [h.notified, whole, Bool.and_false]

/-- The text of what is written of a chunk goes on behind the texts told before. -/
theorem Saw.decodes (h : s.Saw limit name true seen) (room : s.total < limit)
    (part : List UInt8) :
    (Utf8.decode true (seen ++ part)).1 =
        s.calls.flatMap SinkCall.text ++ (Utf8.decode true (s.pending ++ part)).1 ∧
      (Utf8.decode true (seen ++ part)).2 = (Utf8.decode true (s.pending ++ part)).2 := by
  obtain ⟨-, whole, -, same⟩ := h.below room
  rw [Utf8.decode_append, h.texts rfl, h.pending rfl whole, same]
  exact ⟨rfl, rfl⟩

/-- The limit lies inside the chunk. -/
theorem Saw.cut (h : s.Saw limit name sink seen) (room : s.total < limit)
    (long : limit - s.total < chunk.length) :
    (s.readChunk limit name sink chunk).Saw limit name sink (seen ++ chunk) := by
  obtain ⟨total, whole, fresh, same⟩ := h.below room
  have size : min chunk.length (limit - s.total) = limit - s.total := Nat.min_eq_right (Nat.le_of_lt long)
  have longer : limit < (seen ++ chunk).length := by
    rw [List.length_append]
    omega
  have kept : (seen ++ chunk).take limit = seen ++ chunk.take (limit - s.total) := by
    rw [List.take_append, same, total]
  rw [readChunk, if_neg (Nat.not_le.2 room)]
  dsimp only
  rw [size, if_pos long, fresh]
  split
  next told =>
    have hsink : sink = true := by simpa using told
    subst hsink
    exact {
      written := by
        show s.written ++ _ = _
        rw [kept, h.written, same]
      total := by
        show s.total + _ = _
        omega
      truncated := (decide_eq_true longer).symm
      notified := rfl
      texts := fun _ => by
        rw [kept, (h.decodes room _).1, List.flatMap_append]
        simp
      pending := fun _ h => by cases h
      silent := fun h => by cases h
      flagged := fun _ _ => ⟨s.calls, _, rfl, rfl, h.unflagged whole⟩
      unflagged := fun h => by cases h
      named := by
        intro c hc
        rcases List.mem_append.1 hc with hc | hc
        · exact h.named c hc
        · rw [List.mem_singleton.1 hc]
      passed := by
        intro c hc
        rcases List.mem_append.1 hc with hc | hc
        · exact h.passed c hc
        · rw [List.mem_singleton.1 hc]
          simp [SinkCall.passed] }
  next quiet =>
    have hsink : sink = false := by simpa using quiet
    subst hsink
    exact {
      written := by
        show s.written ++ _ = _
        rw [kept, h.written, same]
      total := by
        show s.total + _ = _
        omega
      truncated := (decide_eq_true longer).symm
      notified := rfl
      texts := fun h => by cases h
      pending := fun h => by cases h
      silent := h.silent
      flagged := fun h => by cases h
      unflagged := fun h => by cases h
      named := h.named
      passed := h.passed }

/-- The chunk lies before the limit. -/
theorem Saw.take (h : s.Saw limit name sink seen) (room : s.total < limit)
    (short : chunk.length ≤ limit - s.total) :
    (s.readChunk limit name sink chunk).Saw limit name sink (seen ++ chunk) := by
  obtain ⟨total, whole, fresh, same⟩ := h.below room
  have size : min chunk.length (limit - s.total) = chunk.length := Nat.min_eq_left short
  have fits : (seen ++ chunk).length ≤ limit := by
    rw [List.length_append]
    omega
  have kept : (seen ++ chunk).take limit = seen ++ chunk := List.take_of_length_le fits
  have written : s.written ++ chunk = (seen ++ chunk).take limit := by
    rw [kept, h.written, same]
  have sum : s.total + chunk.length = min limit (seen ++ chunk).length := by
    rw [Nat.min_eq_right fits, List.length_append, total]
  have uncut : s.truncated = decide (limit < (seen ++ chunk).length) := by
    rw [whole]
    exact (decide_eq_false (Nat.not_lt.2 fits)).symm
  rw [readChunk, if_neg (Nat.not_le.2 room)]
  dsimp only
  rw [size, if_neg (Nat.lt_irrefl _), List.take_length]
  split
  next told =>
    subst told
    obtain ⟨texts, pending⟩ := h.decodes room chunk
    split
    next some =>
      exact {
        written := written
        total := sum
        truncated := uncut
        notified := h.notified
        texts := fun _ => by
          rw [kept, texts, List.flatMap_append]
          simp
        pending := fun _ _ => pending.symm
        silent := fun h => by cases h
        flagged := fun _ hcut => by
          rw [show s.truncated = true from hcut] at whole
          cases whole
        unflagged := fun _ c hc => by
          rcases List.mem_append.1 hc with hc | hc
          · exact h.unflagged whole c hc
          · rw [List.mem_singleton.1 hc]
        named := fun c hc => by
          rcases List.mem_append.1 hc with hc | hc
          · exact h.named c hc
          · rw [List.mem_singleton.1 hc]
        passed := fun c hc => by
          rcases List.mem_append.1 hc with hc | hc
          · exact h.passed c hc
          · rw [List.mem_singleton.1 hc]
            simpa [SinkCall.passed] using some }
    next none =>
      exact {
        written := written
        total := sum
        truncated := uncut
        notified := h.notified
        texts := fun _ => by
          rw [kept, texts, not_not.1 none, List.append_nil]
        pending := fun _ _ => pending.symm
        silent := fun h => by cases h
        flagged := h.flagged
        unflagged := h.unflagged
        named := h.named
        passed := h.passed }
  next quiet =>
    have hsink : sink = false := by simpa using quiet
    subst hsink
    exact {
      written := written
      total := sum
      truncated := uncut
      notified := h.notified
      texts := fun h => by cases h
      pending := fun h => by cases h
      silent := h.silent
      flagged := h.flagged
      unflagged := h.unflagged
      named := h.named
      passed := h.passed }

theorem Saw.readChunk (h : s.Saw limit name sink seen) (nonempty : chunk ≠ []) :
    (s.readChunk limit name sink chunk).Saw limit name sink (seen ++ chunk) := by
  rcases Nat.lt_or_ge s.total limit with room | full
  · rcases Nat.lt_or_ge (limit - s.total) chunk.length with long | short
    · exact h.cut room long
    · exact h.take room short
  · exact h.drop nonempty full

theorem Saw.read (chunks : List Chunk) (h : s.Saw limit name sink seen) :
    (chunks.foldl (fun (s : Capture) c => s.readChunk limit name sink c.val) s).Saw limit name
      sink (seen ++ chunks.flatMap Subtype.val) := by
  induction chunks generalizing s seen with
  | nil => simpa using h
  | cons c chunks ih =>
    have rest := ih (h.readChunk c.property)
    rwa [List.append_assoc] at rest

/-! ## The end of the stream -/

@[simp] theorem flush_written : (s.flush name sink).written = s.written := by
  unfold flush
  dsimp only
  split
  · split <;> rfl
  · rfl

@[simp] theorem flush_truncated : (s.flush name sink).truncated = s.truncated := by
  unfold flush
  dsimp only
  split
  · split <;> rfl
  · rfl

/-- What is still kept is told unless the output is truncated. -/
theorem flush_calls : ∃ last, (s.flush name sink).calls = s.calls ++ last ∧
    (last ≠ [] → sink = true ∧ s.truncated = false) ∧
    (∀ c ∈ last, c.truncated = false ∧ c.stream = name ∧ c.passed = true) ∧
    (sink = true → s.truncated = false →
      last.flatMap SinkCall.text = (Utf8.decode false s.pending).1) := by
  unfold flush
  dsimp only
  split
  next open_ =>
    obtain ⟨hsink, hcut⟩ := Bool.and_eq_true_iff.1 open_
    split
    next some =>
      refine ⟨_, rfl, fun _ => ⟨hsink, by simpa using hcut⟩, fun c hc => ?_, fun _ _ => by simp⟩
      rw [List.mem_singleton.1 hc]
      exact ⟨rfl, rfl, by simpa [SinkCall.passed] using some⟩
    next none =>
      refine ⟨[], (List.append_nil _).symm, fun h => absurd rfl h, fun c hc => (by cases hc), ?_⟩
      intro _ _
      exact (not_not.1 none).symm
  next shut =>
    refine ⟨[], (List.append_nil _).symm, fun h => absurd rfl h, fun c hc => (by cases hc), ?_⟩
    intro hsink hcut
    rw [hsink, hcut] at shut
    exact absurd rfl shut

end Capture

/-- However the output is cut into chunks, its first bytes are written, it is reported as
truncated when there are more, and the texts told are the text of the bytes written.  The sink
is told once that the output is truncated, and nothing after that. -/
theorem readBounded_chunks (chunks : List Chunk) (limit : Nat) (name : String) (sink : Bool) :
    let bytes := chunks.flatMap Subtype.val
    let result := readBounded chunks limit name sink
    result.written = bytes.take limit ∧
      (result.truncated = true ↔ limit < bytes.length) ∧
      (sink = true →
        result.calls.flatMap SinkCall.text =
            incremental (bytes.take limit) (!result.truncated) ∧
          (limit < bytes.length → Flagged result.calls) ∧
          (bytes.length ≤ limit → ∀ c ∈ result.calls, c.truncated = false)) ∧
      (sink = false → result.calls = []) ∧
      (∀ c ∈ result.calls, c.stream = name) ∧
      result.calls.filter SinkCall.passed = result.calls := by
  intro bytes result
  have start : Capture.Saw limit name sink [] {} := .start
  have saw := start.read chunks
  rw [List.nil_append] at saw
  set s := chunks.foldl (fun (s : Capture) c => s.readChunk limit name sink c.val) {} with hs
  obtain ⟨last, calls, only, each, texts⟩ := @Capture.flush_calls name sink s
  have hcalls : result.calls = s.calls ++ last := calls
  have cut : result.truncated = s.truncated := Capture.flush_truncated
  have iff : s.truncated = true ↔ limit < bytes.length := by
    rw [saw.truncated, decide_eq_true_iff]
  have shut : s.truncated = true → last = [] := by
    intro htrunc
    by_contra some
    have uncut := (only some).2
    rw [htrunc] at uncut
    cases uncut
  refine ⟨?_, ?_, ?_, ?_, ?_, ?_⟩
  · exact Capture.flush_written.trans saw.written
  · rw [cut]
    exact iff
  · intro hsink
    subst hsink
    refine ⟨?_, ?_, ?_⟩
    · rw [hcalls, cut, List.flatMap_append, saw.texts rfl, incremental]
      cases htrunc : s.truncated with
      | true =>
        rw [shut htrunc, List.flatMap_nil, List.append_nil]
        rfl
      | false =>
        have fits : bytes.length ≤ limit := by
          by_contra long
          rw [iff.2 (Nat.lt_of_not_le long)] at htrunc
          cases htrunc
        rw [texts rfl htrunc, saw.pending rfl htrunc, List.take_of_length_le fits]
        rfl
    · intro long
      rw [hcalls, shut (iff.2 long), List.append_nil]
      exact saw.flagged rfl (iff.2 long)
    · intro fits c hc
      have htrunc : s.truncated = false := by
        rw [saw.truncated]
        exact decide_eq_false (Nat.not_lt.2 fits)
      rw [hcalls] at hc
      exact (List.mem_append.1 hc).elim (saw.unflagged htrunc c) fun h => (each c h).1
  · intro hsink
    have none : last = [] := by
      by_contra some
      rw [hsink] at only
      cases (only some).1
    rw [hcalls, saw.silent hsink, none]
    rfl
  · intro c hc
    rw [hcalls] at hc
    exact (List.mem_append.1 hc).elim (saw.named c) fun h => (each c h).2.1
  · refine List.filter_eq_self.2 fun c hc => ?_
    rw [hcalls] at hc
    exact (List.mem_append.1 hc).elim (saw.passed c) fun h => (each c h).2.2

end CodeForge.Execution
