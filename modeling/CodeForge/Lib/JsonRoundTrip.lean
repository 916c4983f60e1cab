import CodeForge.Lib.JsonText

/-!
# JSON texts and what they are read as

The text of a value, with any blanks after commas and colons, is read as the
value with the members of its objects sorted (`loads_dumps`).  It asks of the
value what holds of every value the interpreter has: numbers are as they print,
and no object has a key twice (`Valid`).  What was read is valid (`valid_of_loads`).

The proof follows the value.  `Reads` says what the machine makes of a text that
stands where a value may stand, whatever is open around it, and every
constructor has a lemma: `reads_atom`, `reads_str`, `reads_arr`, `reads_obj`.
-/

namespace Lib.Json

/-! ## Values that print as they were read -/

mutual

/-- Numbers are as they print, and no object has a key twice. -/
def Valid (numerals : Numerals) : Json → Prop
  | .num literal => isNumeral literal = true ∧ numerals.print literal = literal
  | .arr items => ValidItems numerals items
  | .obj ms => (ms.map Prod.fst).Nodup ∧ ValidMembers numerals ms
  | _ => True

/-- So are all items. -/
def ValidItems (numerals : Numerals) : List Json → Prop
  | [] => True
  | j :: js => Valid numerals j ∧ ValidItems numerals js

/-- So are all members. -/
def ValidMembers (numerals : Numerals) : List (String × Json) → Prop
  | [] => True
  | (_, j) :: ms => Valid numerals j ∧ ValidMembers numerals ms

end

/-- Members in the order of their keys. -/
def sortByKey {α : Type} (ms : List (String × α)) : List (String × α) :=
  ms.insertionSort fun a b => a.1 ≤ b.1

mutual

/-- A value with the members of its objects sorted. -/
def sorted : Json → Json
  | .arr items => .arr (sortedItems items)
  | .obj ms => .obj (sortByKey (sortedMembers ms))
  | j => j

/-- The items, sorted inside. -/
def sortedItems : List Json → List Json
  | [] => []
  | j :: js => sorted j :: sortedItems js

/-- The members, sorted inside. -/
def sortedMembers : List (String × Json) → List (String × Json)
  | [] => []
  | (k, j) :: ms => (k, sorted j) :: sortedMembers ms

end

theorem validItems_iff {numerals : Numerals} {js : List Json} :
    ValidItems numerals js ↔ ∀ j ∈ js, Valid numerals j := by
  induction js with
  | nil => simp [ValidItems]
  | cons j js ih => simp [ValidItems, ih]

theorem validMembers_iff {numerals : Numerals} {ms : List (String × Json)} :
    ValidMembers numerals ms ↔ ∀ m ∈ ms, Valid numerals m.2 := by
  induction ms with
  | nil => simp [ValidMembers]
  | cons m ms ih => simp [ValidMembers, ih]

mutual

/-- Whether a value is valid can be decided. -/
def decValid (numerals : Numerals) : (j : Json) → Decidable (Valid numerals j)
  | .num literal =>
      inferInstanceAs (Decidable (isNumeral literal = true ∧ numerals.print literal = literal))
  | .arr items => decValidItems numerals items
  | .obj ms => @instDecidableAnd _ _ inferInstance (decValidMembers numerals ms)
  | .null | .bool _ | .str _ => isTrue trivial

def decValidItems (numerals : Numerals) : (js : List Json) → Decidable (ValidItems numerals js)
  | [] => isTrue trivial
  | j :: js => @instDecidableAnd _ _ (decValid numerals j) (decValidItems numerals js)

def decValidMembers (numerals : Numerals) :
    (ms : List (String × Json)) → Decidable (ValidMembers numerals ms)
  | [] => isTrue trivial
  | (_, j) :: ms => @instDecidableAnd _ _ (decValid numerals j) (decValidMembers numerals ms)

end

instance (numerals : Numerals) (j : Json) : Decidable (Valid numerals j) := decValid numerals j

theorem sortedItems_eq (js : List Json) : sortedItems js = js.map sorted := by
  induction js with
  | nil => rfl
  | cons j js ih => rw [sortedItems, ih, List.map_cons]

theorem sortedMembers_eq (ms : List (String × Json)) :
    sortedMembers ms = ms.map fun m => (m.1, m.2.sorted) := by
  induction ms with
  | nil => rfl
  | cons m ms ih => rw [sortedMembers, ih, List.map_cons]

theorem dumpsItems_eq (comma colon : String) (js : List Json) :
    dumpsItems comma colon js = js.map (dumps comma colon) := by
  induction js with
  | nil => rfl
  | cons j js ih => rw [dumpsItems, ih, List.map_cons]

theorem dumpsMembers_eq (comma colon : String) (ms : List (String × Json)) :
    dumpsMembers comma colon ms = ms.map fun m => (m.1, dumps comma colon m.2) := by
  induction ms with
  | nil => rfl
  | cons m ms ih => rw [dumpsMembers, ih, List.map_cons]

/-- Sorting looks at the keys only. -/
theorem sortByKey_map {α β : Type} (f : α → β) (ms : List (String × α)) :
    sortByKey (ms.map fun m => (m.1, f m.2)) = (sortByKey ms).map fun m => (m.1, f m.2) :=
  (List.map_insertionSort (fun a b : String × α => a.1 ≤ b.1)
    (fun a b : String × β => a.1 ≤ b.1) (fun m => (m.1, f m.2)) ms fun _ _ _ _ => Iff.rfl).symm

theorem sortByKey_perm {α : Type} (ms : List (String × α)) : (sortByKey ms).Perm ms :=
  List.perm_insertionSort _ ms

/-- The text of an object, with the members in the order in which they are written. -/
theorem dumps_obj (comma colon : String) (ms : List (String × Json)) :
    dumps comma colon (.obj ms) = "\x7b" ++ comma.intercalate
      ((sortByKey ms).map fun m => quote m.1 ++ colon ++ dumps comma colon m.2) ++ "\x7d" := by
  have h : sortMembers (dumpsMembers comma colon ms) =
      (sortByKey ms).map fun m => (m.1, dumps comma colon m.2) := by
    rw [dumpsMembers_eq, ← sortByKey_map]
    rfl
  rw [dumps, h, List.map_map]
  rfl

/-- Sorting twice is sorting once. -/
theorem sortByKey_sortByKey {α : Type} (ms : List (String × α)) :
    sortByKey (sortByKey ms) = sortByKey ms := by
  have total : Std.Total fun a b : String × α => a.1 ≤ b.1 := ⟨fun a b => le_total a.1 b.1⟩
  have trans : IsTrans (String × α) fun a b => a.1 ≤ b.1 := ⟨fun a b c => le_trans⟩
  exact (List.pairwise_insertionSort _ ms).insertionSort_eq

/-- Induction over a value, its items and its members. -/
@[elab_as_elim, induction_eliminator]
theorem induction {motive : Json → Prop} (null : motive .null) (bool : ∀ b, motive (.bool b))
    (num : ∀ literal, motive (.num literal)) (str : ∀ s, motive (.str s))
    (arr : ∀ items, (∀ j ∈ items, motive j) → motive (.arr items))
    (obj : ∀ ms : List (String × Json), (∀ m ∈ ms, motive m.2) → motive (.obj ms)) (j : Json) :
    motive j := by
  refine @Json.rec motive (fun js => ∀ j ∈ js, motive j) (fun ms => ∀ m ∈ ms, motive m.2)
    (fun m => motive m.2) null bool num str arr obj ?_ ?_ ?_ ?_ ?_ j
  · simp
  · intro j js hj hjs
    exact List.forall_mem_cons.2 ⟨hj, hjs⟩
  · simp
  · intro m ms hm hms
    exact List.forall_mem_cons.2 ⟨hm, hms⟩
  · intro k j hj
    exact hj

/-- Sorting twice is sorting once. -/
theorem sorted_sorted (j : Json) : j.sorted.sorted = j.sorted := by
  induction j with
  | null | bool _ | num _ | str _ => rfl
  | arr items ih =>
      rw [sorted, sorted, sortedItems_eq, sortedItems_eq, List.map_map]
      congr 1
      exact List.map_congr_left ih
  | obj ms ih =>
      rw [sorted, sorted, sortedMembers_eq, sortedMembers_eq, ← sortByKey_map, sortByKey_sortByKey,
        List.map_map]
      congr 2
      exact List.map_congr_left fun m hm => by simp [ih m hm]

/-- Where no key is there twice, a member is found by its key. -/
theorem find?_key {α : Type} {ms : List (String × α)} (nodup : (ms.map Prod.fst).Nodup)
    {k : String} {m : String × α} :
    ms.find? (fun m => m.1 = k) = some m ↔ m ∈ ms ∧ m.1 = k := by
  constructor
  · intro h
    exact ⟨List.mem_of_find?_eq_some h, by simpa using List.find?_some h⟩
  · rintro ⟨hm, rfl⟩
    cases hfind : ms.find? (fun n => n.1 = m.1) with
    | none => simpa using List.find?_eq_none.1 hfind m hm
    | some n =>
        have hn : n ∈ ms := List.mem_of_find?_eq_some hfind
        have same : n.1 = m.1 := by simpa using List.find?_some hfind
        rw [List.inj_on_of_nodup_map nodup hn hm same]

/-- Sorting leaves the members where their keys say. -/
theorem get?_sorted {ms : List (String × Json)} (nodup : (ms.map Prod.fst).Nodup) (k : String) :
    (Json.obj ms).sorted.get? k = ((Json.obj ms).get? k).map sorted := by
  have perm : (sortByKey (sortedMembers ms)).Perm (ms.map fun m => (m.1, m.2.sorted)) := by
    rw [← sortedMembers_eq]
    exact sortByKey_perm _
  have keys : ((ms.map fun m => (m.1, m.2.sorted)).map Prod.fst) = ms.map Prod.fst := by
    rw [List.map_map]
    rfl
  have nodup' : ((sortByKey (sortedMembers ms)).map Prod.fst).Nodup := by
    rw [(perm.map _).nodup_iff, keys]
    exact nodup
  simp only [get?, sorted, Option.map_map]
  ext j
  simp only [Option.map_eq_some_iff, Function.comp_apply]
  constructor
  · rintro ⟨m, hm, rfl⟩
    obtain ⟨hmem, rfl⟩ := (find?_key nodup').1 hm
    obtain ⟨n, hn, rfl⟩ := List.mem_map.1 (perm.mem_iff.1 hmem)
    exact ⟨n, (find?_key nodup).2 ⟨hn, rfl⟩, rfl⟩
  · rintro ⟨n, hn, rfl⟩
    obtain ⟨hmem, rfl⟩ := (find?_key nodup).1 hn
    exact ⟨(n.1, n.2.sorted), (find?_key nodup').2
      ⟨perm.mem_iff.2 (List.mem_map_of_mem hmem), rfl⟩, rfl⟩

/-- Sorting leaves the text alone. -/
theorem dumps_sorted (comma colon : String) (j : Json) :
    dumps comma colon j.sorted = dumps comma colon j := by
  induction j with
  | null | bool _ | num _ | str _ => rfl
  | arr items ih =>
      rw [sorted, dumps, dumps, dumpsItems_eq, dumpsItems_eq, sortedItems_eq, List.map_map]
      congr 3
      exact List.map_congr_left ih
  | obj ms ih =>
      rw [sorted, sortedMembers_eq, dumps_obj, dumps_obj, sortByKey_sortByKey,
        sortByKey_map sorted ms, List.map_map]
      congr 3
      refine List.map_congr_left fun m hm => ?_
      simp [ih m ((sortByKey_perm ms).mem_iff.1 hm)]

variable {numerals : Numerals}

/-! ## Literals have no delimiters -/

/-- A character of a number. -/
def isNumberChar (c : Char) : Bool :=
  c.isDigit || c = '-' || c = '+' || c = '.' || c = 'e' || c = 'E'

theorem isDelimiter_of_isNumberChar {c : Char} (h : isNumberChar c = true) :
    isDelimiter c = false := by
  rcases hd : isDelimiter c with _ | _
  · rfl
  · simp only [isDelimiter, isBlank, Bool.or_eq_true, decide_eq_true_eq] at hd
    rcases hd with (((((((((rfl | rfl) | rfl) | rfl) | rfl) | rfl) | rfl) | rfl) | rfl) | rfl) | rfl <;>
      exact absurd h (by decide)

theorem isNumberChar_of_isDigit {c : Char} (h : c.isDigit = true) : isNumberChar c = true := by
  simp [isNumberChar, h]

theorem forall_of_isDigits {cs : List Char} (h : isDigits cs = true) :
    ∀ c ∈ cs, isNumberChar c = true := by
  intro c hc
  simp only [isDigits, Bool.and_eq_true, List.all_eq_true] at h
  exact isNumberChar_of_isDigit (h.2 c hc)

theorem forall_of_isExponent {cs : List Char} (h : isExponent cs = true) :
    ∀ c ∈ cs, isNumberChar c = true := by
  have mark : ∀ {e : Char}, (decide (e = 'e') || decide (e = 'E')) = true →
      isNumberChar e = true := by
    intro e he
    simp only [Bool.or_eq_true, decide_eq_true_eq] at he
    rcases he with rfl | rfl <;> rfl
  unfold isExponent at h
  split at h
  · simp
  · obtain ⟨he, hds⟩ := Bool.and_eq_true_iff.1 h
    exact List.forall_mem_cons.2 ⟨mark he, List.forall_mem_cons.2 ⟨rfl, forall_of_isDigits hds⟩⟩
  · obtain ⟨he, hds⟩ := Bool.and_eq_true_iff.1 h
    exact List.forall_mem_cons.2 ⟨mark he, List.forall_mem_cons.2 ⟨rfl, forall_of_isDigits hds⟩⟩
  · obtain ⟨he, hds⟩ := Bool.and_eq_true_iff.1 h
    exact List.forall_mem_cons.2 ⟨mark he, forall_of_isDigits hds⟩

/-- What follows some digits is made of characters of a number, so everything is. -/
theorem forall_of_dropWhile {cs : List Char}
    (h : ∀ c ∈ cs.dropWhile Char.isDigit, isNumberChar c = true) :
    ∀ c ∈ cs, isNumberChar c = true := by
  intro c hc
  rw [← List.takeWhile_append_dropWhile (p := Char.isDigit) (l := cs), List.mem_append] at hc
  rcases hc with hc | hc
  · exact isNumberChar_of_isDigit (List.mem_takeWhile_imp hc)
  · exact h c hc

theorem forall_of_isFraction {cs : List Char} (h : isFraction cs = true) :
    ∀ c ∈ cs, isNumberChar c = true := by
  unfold isFraction at h
  split at h
  · obtain ⟨-, hexp⟩ := Bool.and_eq_true_iff.1 h
    exact List.forall_mem_cons.2 ⟨rfl, forall_of_dropWhile (forall_of_isExponent hexp)⟩
  · exact forall_of_isExponent h

theorem forall_of_isUnsigned {cs : List Char} (h : isUnsigned cs = true) :
    cs ≠ [] ∧ ∀ c ∈ cs, isNumberChar c = true := by
  unfold isUnsigned at h
  split at h
  · cases h
  · exact ⟨List.cons_ne_nil _ _, List.forall_mem_cons.2 ⟨rfl, forall_of_isFraction h⟩⟩
  · obtain ⟨hc, hfrac⟩ := Bool.and_eq_true_iff.1 h
    exact ⟨List.cons_ne_nil _ _, List.forall_mem_cons.2
      ⟨isNumberChar_of_isDigit hc, forall_of_dropWhile (forall_of_isFraction hfrac)⟩⟩

theorem forall_of_isNumber {cs : List Char} (h : isNumber cs = true) :
    cs ≠ [] ∧ ∀ c ∈ cs, isNumberChar c = true := by
  unfold isNumber at h
  split at h
  · exact ⟨List.cons_ne_nil _ _, List.forall_mem_cons.2 ⟨rfl, (forall_of_isUnsigned h).2⟩⟩
  · exact forall_of_isUnsigned h

/-- A test that is evaluated on each character of a text. -/
theorem forall_mem_of_all {p : Char → Bool} {cs : List Char} (h : (cs.all fun c => !p c) = true) :
    ∀ c ∈ cs, p c = false := by
  intro c hc
  have hp := List.all_eq_true.1 h c hc
  rwa [Bool.not_eq_true'] at hp

/-- A numeral is a literal: something, and without delimiters. -/
theorem atom_of_isNumeral {s : String} (h : isNumeral s = true) :
    s.toList ≠ [] ∧ ∀ c ∈ s.toList, isDelimiter c = false := by
  simp only [isNumeral, Bool.or_eq_true, decide_eq_true_eq] at h
  rcases h with ((rfl | rfl) | rfl) | h
  · exact ⟨by decide, forall_mem_of_all (by decide)⟩
  · exact ⟨by decide, forall_mem_of_all (by decide)⟩
  · exact ⟨by decide, forall_mem_of_all (by decide)⟩
  · exact ⟨(forall_of_isNumber h).1,
      fun c hc => isDelimiter_of_isNumberChar ((forall_of_isNumber h).2 c hc)⟩

theorem readAtom_of_isNumeral {s : String} (h : isNumeral s = true) :
    readAtom numerals s.toList = some (.num (numerals.print s)) := by
  have hnull : s ≠ "null" := by rintro rfl; exact absurd h (by decide)
  have htrue : s ≠ "true" := by rintro rfl; exact absurd h (by decide)
  have hfalse : s ≠ "false" := by rintro rfl; exact absurd h (by decide)
  simp only [readAtom, String.ofList_toList]
  rw [if_neg hnull, if_neg htrue, if_neg hfalse, if_pos h]

/-- The digits of a number begin with a zero only if it is zero. -/
theorem toDigits_head (n : Nat) :
    ∃ c cs, Nat.toDigits 10 n = c :: cs ∧ (c = '0' → cs = []) := by
  induction n using Nat.strongRecOn with
  | ind n ih =>
      rw [Nat.toDigits_eq_if (by decide)]
      split
      · exact ⟨_, [], rfl, fun _ => rfl⟩
      next hn =>
        obtain ⟨c, cs, hcs, hzero⟩ := ih (n / 10) (by omega)
        refine ⟨c, cs ++ [Nat.digitChar (n % 10)], by rw [hcs]; rfl, ?_⟩
        intro hc
        have hdigits : Nat.toDigits 10 (n / 10) = ['0'] := by rw [hcs, hc, hzero hc]
        have hvalue := Nat.ofDigitChars_ten_toDigits (n := n / 10)
        rw [hdigits] at hvalue
        simp [Nat.ofDigitChars] at hvalue
        omega

/-- A natural number is printed as a number. -/
theorem isNumeral_nat (n : Nat) : isNumeral (toString n) = true := by
  have hnum : isNumber (Nat.toDigits 10 n) = true := by
    have digits : ∀ c ∈ Nat.toDigits 10 n, c.isDigit = true := fun c hc =>
      Nat.isDigit_of_mem_toDigits (by decide) (by decide) hc
    obtain ⟨c, cs, hcs, hzero⟩ := toDigits_head n
    rw [hcs] at digits ⊢
    obtain ⟨hc, hds⟩ := List.forall_mem_cons.1 digits
    have hminus : c ≠ '-' := by rintro rfl; exact absurd hc (by decide)
    have hunsigned : isUnsigned (c :: cs) = true := by
      by_cases h0 : c = '0'
      · subst h0
        rw [hzero rfl]
        rfl
      · unfold isUnsigned
        have hdrop : cs.dropWhile Char.isDigit = [] := List.dropWhile_eq_nil_iff.2 hds
        split
        next h => cases h
        next h => cases h; exact absurd rfl h0
        next h => cases h; rw [hc, hdrop]; rfl
    unfold isNumber
    split
    next h => cases h; exact absurd rfl hminus
    next => exact hunsigned
  have hlist : (toString n).toList = Nat.toDigits 10 n := Nat.toList_repr
  simp only [isNumeral, hlist, hnum, Bool.or_true]

theorem valid_nat (n : Nat) : (Json.nat n).Valid numerals :=
  ⟨isNumeral_nat n, numerals.print_nat n⟩

/-! ## Running the machine -/

@[simp] theorem run_nil (s : State) : run numerals [] s = some s := rfl

theorem run_cons (c : Char) (cs : List Char) (s : State) :
    run numerals (c :: cs) s = (step numerals s c).bind (run numerals cs) := rfl

theorem run_append (cs ds : List Char) (s : State) :
    run numerals (cs ++ ds) s = (run numerals cs s).bind (run numerals ds) :=
  List.foldlM_append

theorem run_cons_of {c : Char} {s t : State} (h : step numerals s c = some t) (cs : List Char) :
    run numerals (c :: cs) s = run numerals cs t := by
  rw [run_cons, h]
  rfl

/-- Where blanks are skipped, any number of them is. -/
theorem run_blanks {s : State} (h : ∀ c, isBlank c = true → step numerals s c = some s)
    {cs : List Char} (blank : ∀ c ∈ cs, isBlank c = true) (rest : List Char) :
    run numerals (cs ++ rest) s = run numerals rest s := by
  induction cs with
  | nil => rfl
  | cons c cs ih =>
      obtain ⟨hc, hcs⟩ := List.forall_mem_cons.1 blank
      rw [List.cons_append, run_cons_of (h c hc), ih hcs]

/-- The rest of a literal. -/
theorem run_atom {cs : List Char} (h : ∀ c ∈ cs, isDelimiter c = false) (chars : List Char)
    (frames : List Frame) (lone : Bool) (rest : List Char) :
    run numerals (cs ++ rest) ⟨.atom chars, frames, lone⟩ =
      run numerals rest ⟨.atom (cs.reverse ++ chars), frames, lone⟩ := by
  induction cs generalizing chars with
  | nil => rfl
  | cons c cs ih =>
      obtain ⟨hc, hcs⟩ := List.forall_mem_cons.1 h
      have hstep : step numerals ⟨.atom chars, frames, lone⟩ c =
          some ⟨.atom (c :: chars), frames, lone⟩ := by simp [step, hc]
      rw [List.cons_append, run_cons_of hstep, ih hcs, List.reverse_cons, List.append_assoc]
      rfl

/-- A delimiter ends a literal as it follows a value. -/
theorem run_endAtom {c : Char} (hc : isDelimiter c = true) {chars : List Char} {j : Json}
    (h : readAtom numerals chars.reverse = some j) (frames : List Frame) (lone : Bool)
    (rest : List Char) :
    run numerals (c :: rest) ⟨.atom chars, frames, lone⟩ =
      run numerals (c :: rest) ⟨.after j, frames, lone⟩ := by
  rw [run_cons, run_cons]
  simp only [step, hc, h, if_true]
  rfl

/-- The text reads as the value, wherever a value may stand. -/
def Reads (numerals : Numerals) (text : List Char) (j : Json) : Prop :=
  ∀ frames lone c rest, isDelimiter c = true →
    run numerals (text ++ c :: rest) ⟨.value, frames, lone⟩ =
      run numerals (c :: rest) ⟨.after j, frames, lone⟩

/-- A literal reads as its value. -/
theorem reads_atom {cs : List Char} (ne : cs ≠ []) (atom : ∀ c ∈ cs, isDelimiter c = false)
    {j : Json} (h : readAtom numerals cs = some j) : Reads numerals cs j := by
  intro frames lone c rest hc
  cases cs with
  | nil => exact absurd rfl ne
  | cons b bs =>
      obtain ⟨hb, hbs⟩ := List.forall_mem_cons.1 atom
      have hbegin : step numerals ⟨.value, frames, lone⟩ b = some ⟨.atom [b], frames, lone⟩ := by
        have hparts := hb
        simp only [isDelimiter, Bool.or_eq_false_iff, decide_eq_false_iff_not] at hparts
        obtain ⟨⟨⟨⟨⟨⟨⟨hblank, -⟩, -⟩, hquote⟩, hopen⟩, -⟩, hbrace⟩, -⟩ := hparts
        simp [step, State.beginValue, hblank, hquote, hopen, hbrace, hb]
      rw [List.cons_append, run_cons_of hbegin, run_atom hbs,
        run_endAtom hc (j := j) (by simpa using h)]

/-! ## Strings -/

theorem charOf_toNat (c : Char) : charOf c.toNat = some c := by
  have h : c.toNat.isValidChar := c.valid
  rw [charOf, if_pos h, Char.ofNat_toNat]

/-- No character is half of a pair. -/
theorem not_isHigh (c : Char) : isHigh c.toNat = false := by
  have h : c.toNat.isValidChar := c.valid
  simp only [Nat.isValidChar] at h
  simp only [isHigh, Bool.and_eq_false_iff, decide_eq_false_iff_not]
  omega

/-- The codes of characters are those characters. -/
theorem decodeCodes_toNat (cs : List Char) : decodeCodes (cs.map Char.toNat) = cs.map some := by
  induction cs with
  | nil => rfl
  | cons c cs ih =>
      cases cs with
      | nil => simp [decodeCodes, charOf_toNat]
      | cons d ds =>
          have hnot : (isHigh c.toNat && isLow d.toNat) = false := by rw [not_isHigh]; rfl
          simp only [List.map_cons] at ih ⊢
          rw [decodeCodes, hnot, ih, charOf_toNat]
          rfl

theorem hexValue_hexDigit : ∀ d < 16, hexValue (hexDigit d) = some d := by decide

/-- A character, as it is written in a string, is read as its code. -/
theorem run_escapeChar (ch : Char) (isKey : Bool) (codes : List Nat) (frames : List Frame)
    (lone : Bool) (rest : List Char) :
    run numerals ((escapeChar ch).toList ++ rest) ⟨.string isKey codes .no, frames, lone⟩ =
      run numerals rest ⟨.string isKey (ch.toNat :: codes) .no, frames, lone⟩ := by
  unfold escapeChar
  split
  next h => subst h; rfl
  split
  next h => subst h; rfl
  split
  next h => subst h; rfl
  split
  next h => subst h; rfl
  split
  next h => subst h; rfl
  split
  next h => rw [h]; rfl
  split
  next h => rw [h]; rfl
  split
  next h =>
    -- the escape of a control character has four hexadecimal digits
    have high := hexValue_hexDigit (ch.toNat / 16) (by omega)
    have low := hexValue_hexDigit (ch.toNat % 16) (by omega)
    have hcode : 16 * (16 * (16 * (16 * 0 + 0) + 0) + ch.toNat / 16) + ch.toNat % 16 = ch.toNat := by
      omega
    have hzero : hexValue '0' = some 0 := rfl
    simp only [String.toList_append, String.toList_ofList, List.append_assoc]
    change run numerals ('\\' :: 'u' :: '0' :: '0' :: hexDigit (ch.toNat / 16) ::
      hexDigit (ch.toNat % 16) :: rest) _ = _
    have hslash : unescape 'u' = none := rfl
    simp only [run_cons, step, State.readString, hzero, high, low, Option.map_some,
      Option.bind_some, hcode, if_true, Char.reduceEq, if_false]
  next hq hb _ _ _ _ _ hcontrol =>
    have hstep : step numerals ⟨.string isKey codes .no, frames, lone⟩ ch =
        some ⟨.string isKey (ch.toNat :: codes) .no, frames, lone⟩ := by
      simp [step, State.readString, hq, hb, hcontrol]
    rw [String.toList_ofList, List.singleton_append, run_cons_of hstep]

/-- The characters of a string up to its closing quote. -/
theorem run_chars (cs : List Char) (isKey : Bool) (codes : List Nat) (frames : List Frame)
    (lone : Bool) (rest : List Char) :
    run numerals (cs.flatMap (fun c => (escapeChar c).toList) ++ rest)
        ⟨.string isKey codes .no, frames, lone⟩ =
      run numerals rest ⟨.string isKey ((cs.map Char.toNat).reverse ++ codes) .no, frames, lone⟩ := by
  induction cs generalizing codes with
  | nil => rfl
  | cons c cs ih =>
      rw [List.flatMap_cons, List.append_assoc, run_escapeChar, ih]
      simp

theorem quote_toList (s : String) :
    (quote s).toList = '"' :: s.toList.flatMap (fun c => (escapeChar c).toList) ++ ['"'] := by
  simp only [quote, String.toList_append, String.toList_join, List.flatMap_map]
  rfl

/-- The text the codes of a text are decoded to, without half of a pair. -/
theorem decoded_toNat (s : String) :
    String.ofList ((decodeCodes (s.toList.map Char.toNat)).map fun c => c.getD '\ufffd') = s ∧
      (decodeCodes (s.toList.map Char.toNat)).any Option.isNone = false := by
  rw [decodeCodes_toNat, List.map_map]
  exact ⟨by rw [show (fun c : Option Char => c.getD '\ufffd') ∘ some = id from rfl, List.map_id,
    String.ofList_toList], by simp⟩

/-- A string ends. -/
theorem endString_value (st : State) (s : String) :
    st.endString false (s.toList.map Char.toNat) = some { st with mode := .after (.str s) } := by
  obtain ⟨htext, hlone⟩ := decoded_toNat s
  simp only [State.endString, htext, hlone, Bool.or_false, Bool.false_eq_true, if_false]

/-- A key ends. -/
theorem endString_key (mode : Mode) (members : List (String × Json)) (frames : List Frame)
    (lone : Bool) (s : String) :
    (⟨mode, .obj members :: frames, lone⟩ : State).endString true (s.toList.map Char.toNat) =
      some ⟨.colon, .member members s :: frames, lone⟩ := by
  obtain ⟨htext, hlone⟩ := decoded_toNat s
  simp only [State.endString, htext, hlone, Bool.or_false, if_true]

/-- A string up to and with its closing quote. -/
theorem run_quoted (s : String) (isKey : Bool) (frames : List Frame) (lone : Bool)
    (rest : List Char) :
    run numerals (s.toList.flatMap (fun c => (escapeChar c).toList) ++ '"' :: rest)
        ⟨.string isKey [] .no, frames, lone⟩ =
      ((⟨.value, frames, lone⟩ : State).endString isKey (s.toList.map Char.toNat)).bind
        (run numerals rest) := by
  rw [run_chars, run_cons]
  simp only [step, State.readString, if_true, List.append_nil, List.reverse_reverse]
  rfl

/-- A string reads as itself. -/
theorem reads_str (s : String) : Reads numerals (quote s).toList (.str s) := by
  intro frames lone c rest _
  have hbegin : step numerals ⟨.value, frames, lone⟩ '"' =
      some ⟨.string false [] .no, frames, lone⟩ := rfl
  rw [quote_toList, List.cons_append, List.cons_append, List.append_assoc, run_cons_of hbegin,
    List.singleton_append, run_quoted, endString_value]
  rfl

/-- A key reads as itself, and the colon follows. -/
theorem run_key {mode : Mode} (hmode : mode = .key ∨ mode = .firstKey) (s : String)
    (members : List (String × Json)) (frames : List Frame) (lone : Bool) (rest : List Char) :
    run numerals ((quote s).toList ++ rest) ⟨mode, .obj members :: frames, lone⟩ =
      run numerals rest ⟨.colon, .member members s :: frames, lone⟩ := by
  have hbegin : step numerals ⟨mode, .obj members :: frames, lone⟩ '"' =
      some ⟨.string true [] .no, .obj members :: frames, lone⟩ := by
    rcases hmode with rfl | rfl <;> rfl
  rw [quote_toList, List.cons_append, List.cons_append, List.append_assoc, run_cons_of hbegin,
    List.singleton_append, run_quoted, endString_key]
  rfl

/-! ## Arrays and objects -/

/-- The separators: a comma and a colon, and any blanks. -/
structure Separators (comma colon : String) : Prop where
  comma : ∃ cs, comma.toList = ',' :: cs ∧ ∀ c ∈ cs, isBlank c = true
  colon : ∃ cs, colon.toList = ':' :: cs ∧ ∀ c ∈ cs, isBlank c = true

/-- The separators of `separators=(",", ":")`. -/
theorem Separators.compact : Separators "," ":" := ⟨⟨[], rfl, by simp⟩, ⟨[], rfl, by simp⟩⟩

/-- The separators that are the default. -/
theorem Separators.spaced : Separators ", " ": " :=
  ⟨⟨[' '], rfl, by simp [isBlank]⟩, ⟨[' '], rfl, by simp [isBlank]⟩⟩

variable {comma colon : String}

/-- The items of an array and its end. -/
theorem run_items (sep : Separators comma colon) (js : List Json) (ne : js ≠ [])
    (h : ∀ j ∈ js, Reads numerals (dumps comma colon j).toList j.sorted) (items : List Json)
    (frames : List Frame) (lone : Bool) (rest : List Char) :
    run numerals
        (comma.toList.intercalate (js.map fun j => (dumps comma colon j).toList) ++ ']' :: rest)
        ⟨.value, .arr items :: frames, lone⟩ =
      run numerals rest ⟨.after (.arr (items.reverse ++ js.map sorted)), frames, lone⟩ := by
  induction js generalizing items with
  | nil => exact absurd rfl ne
  | cons j js ih =>
      obtain ⟨hj, hjs⟩ := List.forall_mem_cons.1 h
      cases js with
      | nil =>
          have hend : step numerals ⟨.after j.sorted, .arr items :: frames, lone⟩ ']' =
              some ⟨.after (.arr (j.sorted :: items).reverse), frames, lone⟩ := rfl
          rw [List.map_singleton, List.intercalate_singleton, hj _ _ _ _ rfl, run_cons_of hend,
            List.reverse_cons, List.map_singleton]
      | cons k ks =>
          obtain ⟨blanks, hcomma, hblanks⟩ := sep.comma
          have hsep : step numerals ⟨.after j.sorted, .arr items :: frames, lone⟩ ',' =
              some ⟨.value, .arr (j.sorted :: items) :: frames, lone⟩ := rfl
          have hskip : ∀ c, isBlank c = true →
              step numerals ⟨.value, .arr (j.sorted :: items) :: frames, lone⟩ c =
                some ⟨.value, .arr (j.sorted :: items) :: frames, lone⟩ := by
            intro c hc
            simp [step, hc]
          have htail := ih (by simp) hjs (j.sorted :: items)
          simp only [List.map_cons, List.intercalate_cons_cons, hcomma, List.append_assoc,
            List.cons_append] at htail ⊢
          rw [hj _ _ _ _ rfl, run_cons_of hsep, run_blanks hskip hblanks, htail]
          simp

/-- A new key is put at the end. -/
theorem put_new {members : List (String × Json)} {key : String}
    (h : key ∉ members.map Prod.fst) (j : Json) :
    put members key j = members ++ [(key, j)] := by
  have hany : (members.any fun m => m.1 = key) = false := by
    rw [List.any_eq_false]
    intro m hm hk
    exact h (List.mem_map.2 ⟨m, hm, of_decide_eq_true hk⟩)
  rw [put, hany]
  rfl

/-- A member up to what follows it. -/
theorem run_member (sep : Separators comma colon) {mode : Mode}
    (hmode : mode = .key ∨ mode = .firstKey) {m : String × Json}
    (h : Reads numerals (dumps comma colon m.2).toList m.2.sorted)
    (members : List (String × Json)) (frames : List Frame) (lone : Bool) {c : Char}
    (hc : isDelimiter c = true) (rest : List Char) :
    run numerals ((quote m.1 ++ colon ++ dumps comma colon m.2).toList ++ c :: rest)
        ⟨mode, .obj members :: frames, lone⟩ =
      run numerals (c :: rest) ⟨.after m.2.sorted, .member members m.1 :: frames, lone⟩ := by
  obtain ⟨blanks, hcolon, hblanks⟩ := sep.colon
  have hsep : step numerals ⟨.colon, .member members m.1 :: frames, lone⟩ ':' =
      some ⟨.value, .member members m.1 :: frames, lone⟩ := rfl
  have hskip : ∀ c, isBlank c = true →
      step numerals ⟨.value, .member members m.1 :: frames, lone⟩ c =
        some ⟨.value, .member members m.1 :: frames, lone⟩ := by
    intro c hc
    simp [step, hc]
  simp only [String.toList_append, hcolon, List.append_assoc, List.cons_append]
  rw [run_key hmode, run_cons_of hsep, run_blanks hskip hblanks, h _ _ _ _ hc]

/-- The members of an object and its end. -/
theorem run_members (sep : Separators comma colon) (ms : List (String × Json)) (ne : ms ≠ [])
    (h : ∀ m ∈ ms, Reads numerals (dumps comma colon m.2).toList m.2.sorted) {mode : Mode}
    (hmode : mode = .key ∨ mode = .firstKey) (members : List (String × Json))
    (distinct : (members.map Prod.fst ++ ms.map Prod.fst).Nodup) (frames : List Frame)
    (lone : Bool) (rest : List Char) :
    run numerals
        (comma.toList.intercalate
          (ms.map fun m => (quote m.1 ++ colon ++ dumps comma colon m.2).toList) ++ '\x7d' :: rest)
        ⟨mode, .obj members :: frames, lone⟩ =
      run numerals rest
        ⟨.after (.obj (members ++ ms.map fun m => (m.1, m.2.sorted))), frames, lone⟩ := by
  induction ms generalizing members mode with
  | nil => exact absurd rfl ne
  | cons m ms ih =>
      obtain ⟨hm, hms⟩ := List.forall_mem_cons.1 h
      have hnew : m.1 ∉ members.map Prod.fst := by
        intro hmem
        exact (List.nodup_append.1 distinct).2.2 _ hmem _ List.mem_cons_self rfl
      cases ms with
      | nil =>
          have hend : step numerals ⟨.after m.2.sorted, .member members m.1 :: frames, lone⟩ '\x7d' =
              some ⟨.after (.obj (put members m.1 m.2.sorted)), frames, lone⟩ := rfl
          rw [List.map_singleton, List.intercalate_singleton, run_member sep hmode hm _ _ _ rfl,
            run_cons_of hend, put_new hnew, List.map_singleton]
      | cons k ks =>
          obtain ⟨blanks, hcomma, hblanks⟩ := sep.comma
          have hsep : step numerals ⟨.after m.2.sorted, .member members m.1 :: frames, lone⟩ ',' =
              some ⟨.key, .obj (put members m.1 m.2.sorted) :: frames, lone⟩ := rfl
          have hskip : ∀ c, isBlank c = true →
              step numerals ⟨.key, .obj (put members m.1 m.2.sorted) :: frames, lone⟩ c =
                some ⟨.key, .obj (put members m.1 m.2.sorted) :: frames, lone⟩ := by
            intro c hc
            simp [step, hc]
          have htail := ih (by simp) hms (.inl rfl) (members ++ [(m.1, m.2.sorted)])
            (by simpa using distinct)
          rw [← put_new hnew] at htail
          simp only [List.map_cons, List.intercalate_cons_cons, hcomma, List.append_assoc,
            List.cons_append] at htail ⊢
          rw [run_member sep hmode hm _ _ _ rfl, run_cons_of hsep, run_blanks hskip hblanks, htail,
            put_new hnew]
          simp

/-! ## The round trip -/

/-- The text of a value begins neither with a blank nor with the end of an array. -/
theorem dumps_head {j : Json} (valid : j.Valid numerals) :
    ∃ c cs, (dumps comma colon j).toList = c :: cs ∧ isBlank c = false ∧ c ≠ ']' := by
  cases j with
  | null => exact ⟨'n', "ull".toList, by rw [dumps]; rfl, rfl, by decide⟩
  | bool b =>
      cases b with
      | true => exact ⟨'t', "rue".toList, by rw [dumps]; rfl, rfl, by decide⟩
      | false => exact ⟨'f', "alse".toList, by rw [dumps]; rfl, rfl, by decide⟩
  | num literal =>
      obtain ⟨ne, atom⟩ := atom_of_isNumeral valid.1
      obtain ⟨c, cs, hcs⟩ := List.exists_cons_of_ne_nil ne
      have hc : isDelimiter c = false := atom c (by rw [hcs]; exact List.mem_cons_self)
      refine ⟨c, cs, by rw [dumps, hcs], ?_, ?_⟩
      · simp only [isDelimiter, Bool.or_eq_false_iff] at hc
        exact hc.1.1.1.1.1.1.1
      · rintro rfl
        exact absurd hc (by decide)
  | str s => exact ⟨'"', _, by rw [dumps, quote_toList]; rfl, rfl, by decide⟩
  | arr items =>
      exact ⟨'[', _, by rw [dumps, String.toList_append, String.toList_append]; rfl, rfl, by decide⟩
  | obj ms =>
      exact ⟨'\x7b', _, by rw [dumps, String.toList_append, String.toList_append]; rfl, rfl,
        by decide⟩

/-- After the bracket that opens an array, a value may stand as anywhere. -/
theorem run_first {c : Char} (blank : isBlank c = false) (ne : c ≠ ']') (cs : List Char)
    (frames : List Frame) (lone : Bool) :
    run numerals (c :: cs) ⟨.first, frames, lone⟩ = run numerals (c :: cs) ⟨.value, frames, lone⟩ := by
  simp [run_cons, step, State.beginValue, blank, ne]

/-- An array reads as the array of its items. -/
theorem reads_arr (sep : Separators comma colon) {js : List Json}
    (valid : ∀ j ∈ js, j.Valid numerals)
    (h : ∀ j ∈ js, Reads numerals (dumps comma colon j).toList j.sorted) :
    Reads numerals (dumps comma colon (.arr js)).toList (.arr (js.map sorted)) := by
  intro frames lone c rest _
  have hopen : step numerals ⟨.value, frames, lone⟩ '[' =
      some ⟨.first, .arr [] :: frames, lone⟩ := rfl
  have htext : (dumps comma colon (.arr js)).toList ++ c :: rest =
      '[' :: (comma.toList.intercalate (js.map fun j => (dumps comma colon j).toList) ++
        ']' :: c :: rest) := by
    rw [dumps, dumpsItems_eq]
    simp only [String.toList_append, String.toList_intercalate, List.map_map, List.append_assoc]
    rfl
  rw [htext, run_cons_of hopen]
  cases js with
  | nil => rfl
  | cons j js =>
      have hitems := run_items sep (j :: js) (by simp) h [] frames lone (c :: rest)
      rw [List.reverse_nil, List.nil_append] at hitems
      have head : ∃ b bs, (dumps comma colon j).toList = b :: bs ∧ isBlank b = false ∧ b ≠ ']' :=
        dumps_head (valid j List.mem_cons_self)
      obtain ⟨b, bs, hb, blank, ne⟩ := head
      rw [← hitems]
      cases js with
      | nil => simp only [List.map_singleton, List.intercalate_singleton, hb, List.cons_append,
          run_first blank ne]
      | cons k ks => simp only [List.map_cons, List.intercalate_cons_cons, hb, List.cons_append,
          run_first blank ne]

/-- An object reads as the object of its members, sorted. -/
theorem reads_obj (sep : Separators comma colon) {ms : List (String × Json)}
    (distinct : (ms.map Prod.fst).Nodup)
    (h : ∀ m ∈ ms, Reads numerals (dumps comma colon m.2).toList m.2.sorted) :
    Reads numerals (dumps comma colon (.obj ms)).toList
      (.obj (sortByKey (ms.map fun m => (m.1, m.2.sorted)))) := by
  intro frames lone c rest _
  have hopen : step numerals ⟨.value, frames, lone⟩ '\x7b' =
      some ⟨.firstKey, .obj [] :: frames, lone⟩ := rfl
  have htext : (dumps comma colon (.obj ms)).toList ++ c :: rest =
      '\x7b' :: (comma.toList.intercalate ((sortByKey ms).map fun m =>
        (quote m.1 ++ colon ++ dumps comma colon m.2).toList) ++ '\x7d' :: c :: rest) := by
    rw [dumps_obj, String.toList_append, String.toList_append, String.toList_intercalate,
      List.map_map, List.append_assoc, List.append_assoc]
    rfl
  have hperm := sortByKey_perm ms
  have hsorted : ∀ m ∈ sortByKey ms, Reads numerals (dumps comma colon m.2).toList m.2.sorted :=
    fun m hm => h m (hperm.mem_iff.1 hm)
  have hdistinct : ((sortByKey ms).map Prod.fst).Nodup :=
    (hperm.map Prod.fst).nodup_iff.2 distinct
  rw [htext, run_cons_of hopen, sortByKey_map sorted]
  cases hms : sortByKey ms with
  | nil => rfl
  | cons m ms' =>
      rw [hms] at hsorted hdistinct
      have hmembers := run_members sep (m :: ms') (by simp) hsorted (.inr rfl) []
        (by simpa using hdistinct) frames lone (c :: rest)
      rw [hmembers, List.nil_append]

/-- The text of a value is read as the value. -/
theorem reads_dumps (sep : Separators comma colon) (j : Json) (valid : j.Valid numerals) :
    Reads numerals (dumps comma colon j).toList j.sorted := by
  induction j with
  | null =>
      rw [dumps]
      exact reads_atom (by decide) (forall_mem_of_all (by decide)) rfl
  | bool b =>
      cases b with
      | true =>
          rw [dumps]
          exact reads_atom (by decide) (forall_mem_of_all (by decide)) rfl
      | false =>
          rw [dumps]
          exact reads_atom (by decide) (forall_mem_of_all (by decide)) rfl
  | num literal =>
      obtain ⟨hnum, hprint⟩ := valid
      obtain ⟨ne, atom⟩ := atom_of_isNumeral hnum
      rw [dumps]
      refine reads_atom ne atom ?_
      rw [readAtom_of_isNumeral hnum, hprint]
      rfl
  | str s =>
      rw [dumps]
      exact reads_str s
  | arr items ih =>
      have hitems := validItems_iff.1 valid
      rw [sorted, sortedItems_eq]
      exact reads_arr sep hitems fun j hj => ih j hj (hitems j hj)
  | obj ms ih =>
      have hmembers := validMembers_iff.1 valid.2
      rw [sorted, sortedMembers_eq]
      exact reads_obj sep valid.1 fun m hm => ih m hm (hmembers m hm)

/-- The text of a value is read as the value with its members sorted. -/
theorem loads_dumps (sep : Separators comma colon) {j : Json} (valid : j.Valid numerals) :
    loads numerals (dumps comma colon j) = .value j.sorted := by
  have h := reads_dumps sep j valid [] false ' ' [] rfl
  have hend : run numerals [' '] ⟨.after j.sorted, [], false⟩ =
      some ⟨.after j.sorted, [], false⟩ := rfl
  rw [hend] at h
  unfold loads
  rw [h]

/-- So is a line of it. -/
theorem loads_line (sep : Separators comma colon) {j : Json} (valid : j.Valid numerals) :
    loads numerals (dumps comma colon j ++ "\n") = .value j.sorted := by
  have h := reads_dumps sep j valid [] false '\n' [' '] rfl
  have hend : run numerals ['\n', ' '] ⟨.after j.sorted, [], false⟩ =
      some ⟨.after j.sorted, [], false⟩ := rfl
  rw [hend] at h
  have text : (dumps comma colon j ++ "\n").toList ++ [' '] =
      (dumps comma colon j).toList ++ ['\n', ' '] := by simp
  unfold loads
  rw [text, h]

/-! ## Texts of one line -/

/-- No character ends a line. -/
def OneLine (cs : List Char) : Prop := ∀ c ∈ cs, c ≠ '\n' ∧ c ≠ '\r'

theorem OneLine.append {cs ds : List Char} (hc : OneLine cs) (hd : OneLine ds) :
    OneLine (cs ++ ds) := by
  intro c h
  rcases List.mem_append.1 h with h | h
  · exact hc c h
  · exact hd c h

theorem OneLine.intercalate {cs : List Char} {texts : List (List Char)} (hc : OneLine cs)
    (h : ∀ t ∈ texts, OneLine t) : OneLine (cs.intercalate texts) := by
  induction texts with
  | nil => exact fun c hc => absurd hc (by simp)
  | cons t texts ih =>
      obtain ⟨ht, hrest⟩ := List.forall_mem_cons.1 h
      cases texts with
      | nil => simpa using ht
      | cons u texts =>
          rw [List.intercalate_cons_cons]
          exact (ht.append hc).append (ih hrest)

/-- A literal without line ends. -/
theorem oneLine_of_all {cs : List Char}
    (h : (cs.all fun c => !decide (c = '\n') && !decide (c = '\r')) = true) : OneLine cs := by
  intro c hc
  simpa using List.all_eq_true.1 h c hc

theorem oneLine_escapeChar (c : Char) : OneLine (escapeChar c).toList := by
  have digit : ∀ n < 16, hexDigit n ≠ '\n' ∧ hexDigit n ≠ '\r' := by decide
  unfold escapeChar
  split
  · exact oneLine_of_all (by decide)
  split
  · exact oneLine_of_all (by decide)
  split
  · exact oneLine_of_all (by decide)
  split
  · exact oneLine_of_all (by decide)
  split
  · exact oneLine_of_all (by decide)
  split
  · exact oneLine_of_all (by decide)
  split
  · exact oneLine_of_all (by decide)
  split
  next low =>
    rw [String.toList_append]
    refine OneLine.append (oneLine_of_all (by decide)) ?_
    rw [String.toList_ofList]
    exact List.forall_mem_cons.2 ⟨digit _ (by omega),
      List.forall_mem_cons.2 ⟨digit _ (Nat.mod_lt _ (by omega)), by simp⟩⟩
  next newline feed _ _ _ _ =>
    rw [String.toList_ofList]
    intro d hd
    rw [List.mem_singleton.1 hd]
    exact ⟨by assumption, by assumption⟩

theorem oneLine_quote (s : String) : OneLine (quote s).toList := by
  rw [quote_toList]
  refine OneLine.append (fun c hc => ?_) (oneLine_of_all (by decide))
  rcases List.mem_cons.1 hc with rfl | hc
  · decide
  · obtain ⟨d, -, hd⟩ := List.mem_flatMap.1 hc
    exact oneLine_escapeChar d c hd

/-- The text of a value is one line. -/
theorem oneLine_dumps (hcomma : OneLine comma.toList) (hcolon : OneLine colon.toList) (j : Json)
    (valid : j.Valid numerals) : OneLine (dumps comma colon j).toList := by
  induction j with
  | null =>
      rw [dumps]
      exact oneLine_of_all (by decide)
  | bool b =>
      cases b with
      | false =>
          rw [dumps]
          exact oneLine_of_all (by decide)
      | true =>
          rw [dumps]
          exact oneLine_of_all (by decide)
  | num literal =>
      intro c hc
      rw [dumps] at hc
      have atom := (atom_of_isNumeral valid.1).2 c hc
      constructor
      · rintro rfl
        exact absurd atom (by decide)
      · rintro rfl
        exact absurd atom (by decide)
  | str s =>
      rw [dumps]
      exact oneLine_quote s
  | arr items ih =>
      have all := validItems_iff.1 valid
      rw [dumps, dumpsItems_eq, String.toList_append, String.toList_append,
        String.toList_intercalate]
      refine OneLine.append (OneLine.append (oneLine_of_all (by decide)) ?_)
        (oneLine_of_all (by decide))
      refine hcomma.intercalate fun t ht => ?_
      obtain ⟨s, hs, rfl⟩ := List.mem_map.1 ht
      obtain ⟨j, hj, rfl⟩ := List.mem_map.1 hs
      exact ih j hj (all j hj)
  | obj ms ih =>
      have all := validMembers_iff.1 valid.2
      rw [dumps_obj, String.toList_append, String.toList_append, String.toList_intercalate]
      refine OneLine.append (OneLine.append (oneLine_of_all (by decide)) ?_)
        (oneLine_of_all (by decide))
      refine hcomma.intercalate fun t ht => ?_
      obtain ⟨s, hs, rfl⟩ := List.mem_map.1 ht
      obtain ⟨m, hm, rfl⟩ := List.mem_map.1 hs
      have hm := (sortByKey_perm ms).mem_iff.1 hm
      rw [String.toList_append, String.toList_append]
      exact ((oneLine_quote m.1).append hcolon).append (ih m hm (all m hm))

/-! ## What is read is valid -/

/-- What a frame holds is valid. -/
def Frame.Valid (numerals : Numerals) : Frame → Prop
  | .arr items => (Json.arr items).Valid numerals
  | .obj members => (Json.obj members).Valid numerals
  | .member members _ => (Json.obj members).Valid numerals

/-- What was read so far is valid. -/
structure State.Valid (numerals : Numerals) (s : State) : Prop where
  mode : ∀ j, s.mode = .after j → j.Valid numerals
  frames : ∀ f ∈ s.frames, f.Valid numerals

theorem valid_arr_reverse {j : Json} {items : List Json} (hj : j.Valid numerals)
    (h : (Json.arr items).Valid numerals) : (Json.arr (j :: items).reverse).Valid numerals := by
  refine validItems_iff.2 fun k hk => ?_
  rw [List.mem_reverse, List.mem_cons] at hk
  rcases hk with rfl | hk
  · exact hj
  · exact validItems_iff.1 h k hk

theorem valid_put {members : List (String × Json)} {key : String} {j : Json}
    (hj : j.Valid numerals) (h : (Json.obj members).Valid numerals) :
    (Json.obj (put members key j)).Valid numerals := by
  obtain ⟨distinct, valid⟩ := h
  have valid := validMembers_iff.1 valid
  unfold put
  split
  next =>
    have keys : (members.map fun m => if m.1 = key then (key, j) else m).map Prod.fst =
        members.map Prod.fst := by
      rw [List.map_map]
      refine List.map_congr_left fun m _ => ?_
      simp only [Function.comp_apply]
      split
      next hm => exact hm.symm
      next => rfl
    refine ⟨by rw [keys]; exact distinct, validMembers_iff.2 fun m hm => ?_⟩
    obtain ⟨n, hn, rfl⟩ := List.mem_map.1 hm
    split
    · exact hj
    · exact valid n hn
  next hnew =>
    have hkey : ∀ m ∈ members, m.1 ≠ key := by
      intro m hm hk
      exact hnew (List.any_eq_true.2 ⟨m, hm, decide_eq_true hk⟩)
    refine ⟨?_, validMembers_iff.2 fun m hm => ?_⟩
    · rw [List.map_append, List.nodup_append]
      refine ⟨distinct, List.nodup_singleton _, ?_⟩
      intro k hk l hl
      obtain ⟨m, hm, rfl⟩ := List.mem_map.1 hk
      rw [List.map_singleton, List.mem_singleton] at hl
      rw [hl]
      exact hkey m hm
    · rcases List.mem_append.1 hm with hm | hm
      · exact valid m hm
      · rw [List.mem_singleton] at hm
        rw [hm]
        exact hj

theorem valid_readAtom {cs : List Char} {j : Json} (h : readAtom numerals cs = some j) :
    j.Valid numerals := by
  simp only [readAtom] at h
  split at h
  · cases h; trivial
  split at h
  · cases h; trivial
  split at h
  · cases h; trivial
  split at h
  next hnum =>
    cases h
    exact ⟨numerals.print_numeral _ hnum, numerals.print_print _ hnum⟩
  next => cases h

namespace State

variable {s t : State} {c : Char}

theorem Valid.of_mode {mode : Mode} (h : s.Valid numerals) (ne : ∀ j, mode ≠ .after j)
    (lone : Bool) : (⟨mode, s.frames, lone⟩ : State).Valid numerals :=
  ⟨fun j hj => absurd hj (ne j), h.frames⟩

theorem Valid.of_value {j : Json} (h : s.Valid numerals) (hj : j.Valid numerals) (lone : Bool) :
    (⟨.after j, s.frames, lone⟩ : State).Valid numerals :=
  ⟨fun _ e => by cases e; exact hj, h.frames⟩

theorem Valid.beginValue (h : s.Valid numerals) (hs : s.beginValue c = some t) :
    t.Valid numerals := by
  unfold State.beginValue at hs
  split at hs
  · cases hs
    exact h.of_mode (by simp) _
  split at hs
  · cases hs
    exact ⟨by simp, List.forall_mem_cons.2 ⟨trivial, h.frames⟩⟩
  split at hs
  · cases hs
    exact ⟨by simp, List.forall_mem_cons.2 ⟨⟨List.nodup_nil, trivial⟩, h.frames⟩⟩
  split at hs
  · cases hs
  · cases hs
    exact h.of_mode (by simp) _

theorem Valid.endValue {j : Json} (h : s.Valid numerals) (hj : j.Valid numerals)
    (hs : s.endValue j c = some t) : t.Valid numerals := by
  unfold State.endValue at hs
  split at hs
  · cases hs
    exact h.of_value hj _
  split at hs
  next items frames hframes =>
    obtain ⟨hitems, hrest⟩ := List.forall_mem_cons.1 (hframes ▸ h.frames)
    split at hs
    · cases hs
      exact ⟨by simp, List.forall_mem_cons.2 ⟨⟨hj, hitems⟩, hrest⟩⟩
    split at hs
    · cases hs
      exact ⟨fun _ e => by cases e; exact valid_arr_reverse hj hitems, hrest⟩
    · cases hs
  next members key frames hframes =>
    obtain ⟨hmembers, hrest⟩ := List.forall_mem_cons.1 (hframes ▸ h.frames)
    split at hs
    · cases hs
      exact ⟨by simp, List.forall_mem_cons.2 ⟨valid_put hj hmembers, hrest⟩⟩
    split at hs
    · cases hs
      exact ⟨fun _ e => by cases e; exact valid_put hj hmembers, hrest⟩
    · cases hs
  next => cases hs

theorem Valid.endEmpty (h : s.Valid numerals) (hs : s.endEmpty = some t) : t.Valid numerals := by
  unfold State.endEmpty at hs
  split at hs
  next items frames hframes =>
    obtain ⟨hitems, hrest⟩ := List.forall_mem_cons.1 (hframes ▸ h.frames)
    cases hs
    exact ⟨fun _ e => by cases e; exact hitems, hrest⟩
  next members frames hframes =>
    obtain ⟨hmembers, hrest⟩ := List.forall_mem_cons.1 (hframes ▸ h.frames)
    cases hs
    exact ⟨fun _ e => by cases e; exact hmembers, hrest⟩
  next => cases hs

theorem Valid.endString {isKey : Bool} {codes : List Nat} (h : s.Valid numerals)
    (hs : s.endString isKey codes = some t) : t.Valid numerals := by
  unfold State.endString at hs
  split at hs
  · split at hs
    next members frames hframes =>
      obtain ⟨hmembers, hrest⟩ := List.forall_mem_cons.1 (hframes ▸ h.frames)
      cases hs
      exact ⟨by simp, List.forall_mem_cons.2 ⟨hmembers, hrest⟩⟩
    next => cases hs
  · cases hs
    exact h.of_value (j := .str _) trivial _

theorem Valid.readString {isKey : Bool} {codes : List Nat} {escape : Escape}
    (h : s.Valid numerals) (hs : s.readString isKey codes escape c = some t) :
    t.Valid numerals := by
  cases escape with
  | no =>
      simp only [State.readString] at hs
      split at hs
      · exact h.endString hs
      split at hs
      · cases hs
        exact h.of_mode (by simp) _
      split at hs
      · cases hs
      · cases hs
        exact h.of_mode (by simp) _
  | slash =>
      simp only [State.readString] at hs
      split at hs
      · cases hs
        exact h.of_mode (by simp) _
      · obtain ⟨code, -, rfl⟩ := Option.map_eq_some_iff.1 hs
        exact h.of_mode (by simp) _
  | hex more code =>
      simp only [State.readString] at hs
      obtain ⟨digit, -, rfl⟩ := Option.map_eq_some_iff.1 hs
      cases more with
      | zero => exact h.of_mode (by simp) _
      | succ more => exact h.of_mode (by simp) _

end State

/-- One character keeps what was read valid. -/
theorem valid_step {s t : State} {c : Char} (h : s.Valid numerals)
    (hs : step numerals s c = some t) : t.Valid numerals := by
  unfold step at hs
  split at hs
  · split at hs
    · cases hs; exact h
    · exact h.beginValue hs
  · split at hs
    · cases hs; exact h
    split at hs
    · exact h.endEmpty hs
    · exact h.beginValue hs
  · split at hs
    · cases hs; exact h
    split at hs
    · exact h.endEmpty hs
    split at hs
    · cases hs; exact h.of_mode (by simp) _
    · cases hs
  · split at hs
    · cases hs; exact h
    split at hs
    · cases hs; exact h.of_mode (by simp) _
    · cases hs
  · split at hs
    · cases hs; exact h
    split at hs
    · cases hs; exact h.of_mode (by simp) _
    · cases hs
  next j hmode => exact h.endValue (h.mode j hmode) hs
  · split at hs
    · obtain ⟨j, hj, hs⟩ := Option.bind_eq_some_iff.1 hs
      exact h.endValue (valid_readAtom hj) hs
    · cases hs; exact h.of_mode (by simp) _
  · exact h.readString hs

theorem valid_run {cs : List Char} {s t : State} (h : s.Valid numerals)
    (hs : run numerals cs s = some t) : t.Valid numerals := by
  induction cs generalizing s with
  | nil => cases hs; exact h
  | cons c cs ih =>
      rw [run_cons] at hs
      obtain ⟨u, hu, hs⟩ := Option.bind_eq_some_iff.1 hs
      exact ih (valid_step h hu) hs

/-- A value that was read is valid. -/
theorem valid_of_loads {text : String} {j : Json} (h : loads numerals text = .value j) :
    j.Valid numerals := by
  unfold loads at h
  split at h
  next k hrun =>
    cases h
    have start : ({} : State).Valid numerals := ⟨by simp, by simp⟩
    exact (valid_run start hrun).mode j rfl
  · cases h
  · cases h

end Lib.Json

namespace Lib

/-! ## Bytes -/

theorem utf8_append (s t : String) : utf8 (s ++ t) = utf8 s ++ utf8 t := by
  simp [utf8, String.toByteArray_append]

/-- The bytes of a text are decoded as the text. -/
theorem decodeUtf8_utf8 (s : String) : decodeUtf8 (utf8 s) = some s := by
  have hbytes : (⟨(utf8 s).toArray⟩ : ByteArray) = s.toByteArray := by simp [utf8]
  rw [decodeUtf8, String.fromUTF8?, hbytes, dif_pos s.isValidUTF8]
  rfl

/-- Bytes that are decoded are the bytes of the text. -/
theorem utf8_of_decodeUtf8 {b : List UInt8} {s : String} (h : decodeUtf8 b = some s) :
    utf8 s = b := by
  rw [decodeUtf8, String.fromUTF8?] at h
  split at h
  · cases h
    simp [utf8, String.fromUTF8]
  · cases h

/-- The bytes of a line with a value are read as the value. -/
theorem loadBytes_line {numerals : Json.Numerals} {comma colon : String}
    (sep : Json.Separators comma colon) {j : Json} (valid : j.Valid numerals) :
    loadBytes numerals (utf8 (j.dumps comma colon ++ "\n")) = .value j.sorted := by
  rw [loadBytes, decodeUtf8_utf8]
  exact Json.loads_line sep valid

/-- The bytes of the text of a value are read as the value. -/
theorem loadBytes_utf8 {numerals : Json.Numerals} {comma colon : String}
    (sep : Json.Separators comma colon) {j : Json} (valid : j.Valid numerals) :
    loadBytes numerals (utf8 (j.dumps comma colon)) = .value j.sorted := by
  rw [loadBytes, decodeUtf8_utf8]
  exact Json.loads_dumps sep valid

end Lib
