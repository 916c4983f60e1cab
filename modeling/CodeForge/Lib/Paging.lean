import Mathlib.Data.List.Sort

/-!
# Listing by pages

A server keeps rows in the order of a key.  A client asks for a page after a
cursor, which is the key of a row, and follows the cursor of each page until a
page brings none.

The server selects one row more than it returns.  If there is such a row, the
cursor is the key of the last row of the page, `rows[limit - 1]`.  With a limit of
zero this index counts from the end, and the cursor is the key of the one row
that was selected and not returned.

Rows may be added between two requests, after those that are there.  The client
then has, after the last page, all rows in their order (`Serves.follows`), or
nothing if the limit is zero (`Serves.follows_zero`).
-/

namespace Lib.Paging

variable {E K : Type} [LinearOrder K] (key : E → K)

/-! ## The server -/

/-- The rows after a cursor, in order. -/
def after (cursor : Option K) (rows : List E) : List E :=
  (rows.filter fun e => cursor.all (· < key e)).insertionSort fun e f => key e ≤ key f

/-- The rows a request selects. -/
def select (cursor : Option K) (limit : Nat) (rows : List E) : List E :=
  (after key cursor rows).take (limit + 1)

/-- The cursor that goes with the rows that were selected. -/
def nextCursor (limit : Nat) (selected : List E) : Option K :=
  if limit < selected.length then
    (if limit = 0 then selected.getLast? else selected[limit - 1]?).map key
  else none

/-- Rows with increasing keys. -/
def Increasing (rows : List E) : Prop := rows.Pairwise fun e f => key e < key f

variable {key}

theorem Increasing.sorted {rows : List E} (h : Increasing key rows) :
    rows.Pairwise fun e f => key e ≤ key f := h.imp le_of_lt

/-- Rows that are in order stay as they are. -/
theorem Increasing.after_eq {rows : List E} (h : Increasing key rows) (cursor : Option K) :
    after key cursor rows = rows.filter fun e => cursor.all (· < key e) :=
  List.Pairwise.insertionSort_eq (h.sorted.filter _)

theorem Increasing.after {rows : List E} (h : Increasing key rows) (cursor : Option K) :
    Increasing key (after key cursor rows) := by
  rw [h.after_eq]
  exact List.Pairwise.filter _ h

theorem Increasing.after_none {rows : List E} (h : Increasing key rows) :
    Paging.after key none rows = rows := by
  rw [h.after_eq]
  simp

/-- The rows in the order of their keys, which differ. -/
theorem increasing_insertionSort {rows : List E} (h : rows.Pairwise fun e f => key e ≠ key f) :
    Increasing key (rows.insertionSort fun e f => key e ≤ key f) := by
  have sorted := List.pairwise_insertionSort (fun e f => key e ≤ key f) rows
  have differ : (rows.insertionSort fun e f => key e ≤ key f).Pairwise fun e f => key e ≠ key f :=
    h.perm (List.perm_insertionSort _ rows).symm fun differ same => differ same.symm
  exact (sorted.and differ).imp fun both => lt_of_le_of_ne both.1 both.2

/-- Putting the rows in order first selects the same ones. -/
theorem after_insertionSort {rows : List E} (h : rows.Pairwise fun e f => key e ≠ key f)
    (cursor : Option K) :
    after key cursor rows = after key cursor (rows.insertionSort fun e f => key e ≤ key f) := by
  have ordered := increasing_insertionSort h
  rw [ordered.after_eq]
  have left : Increasing key (after key cursor rows) := increasing_insertionSort (h.filter _)
  have right : Increasing key ((rows.insertionSort fun e f => key e ≤ key f).filter fun e =>
      cursor.all (· < key e)) := List.Pairwise.filter _ ordered
  refine List.Perm.eq_of_pairwise ?_ left right ?_
  · intro e f _ _ less greater
    exact absurd less (lt_asymm greater)
  · exact (List.perm_insertionSort _ _).trans ((List.perm_insertionSort _ rows).symm.filter _)

/-! ## Cursors -/

/-- The rows after a row that is at some place are those behind it. -/
theorem Increasing.after_getElem {rows : List E} (h : Increasing key rows) {i : Nat} {e : E}
    (there : rows[i]? = some e) : Paging.after key (some (key e)) rows = rows.drop (i + 1) := by
  rw [h.after_eq]
  induction rows generalizing i with
  | nil => cases there
  | cons f rows ih =>
      obtain ⟨first, rest⟩ := List.pairwise_cons.1 h
      cases i with
      | zero =>
          cases there
          have all : (rows.filter fun f => (some (key e)).all (· < key f)) = rows :=
            List.filter_eq_self.2 fun f hf => by simpa using first f hf
          rw [List.filter_cons_of_neg (by simp), all]
          rfl
      | succ i =>
          have less : key f < key e := first e (List.mem_of_getElem? there)
          rw [List.filter_cons_of_neg (by simpa using le_of_lt less)]
          exact ih rest there

/-- A later cursor selects of the rows after an earlier one. -/
theorem Increasing.after_after {rows : List E} (h : Increasing key rows) {cursor : Option K} {k : K}
    (later : cursor.all (· < k) = true) :
    Paging.after key (some k) (Paging.after key cursor rows) = Paging.after key (some k) rows := by
  rw [(h.after cursor).after_eq, h.after_eq, h.after_eq, List.filter_filter]
  refine List.filter_congr fun e _ => ?_
  cases cursor with
  | none => simp
  | some c =>
      have transitive : k < key e → c < key e := lt_trans (by simpa using later)
      simpa using transitive

omit [LinearOrder K] in
/-- The place of the row a cursor comes from. -/
theorem nextCursor_eq_some {limit : Nat} {rows : List E} {k : K}
    (h : nextCursor key limit (rows.take (limit + 1)) = some k) :
    ∃ e, rows[limit - 1]? = some e ∧ key e = k := by
  unfold nextCursor at h
  split at h
  · rename_i probed
    rw [List.length_take] at probed
    obtain ⟨e, there, value⟩ := Option.map_eq_some_iff.1 h
    refine ⟨e, ?_, value⟩
    split at there
    · rename_i zero
      subst zero
      cases rows with
      | nil => cases there
      | cons f rows => exact there
    · rw [← there, List.getElem?_take_of_lt (by omega)]
  · cases h

omit [LinearOrder K] in
/-- Where there is no cursor, the page has all that is left. -/
theorem nextCursor_eq_none {limit : Nat} {rows : List E}
    (h : nextCursor key limit (rows.take (limit + 1)) = none) : rows.take limit = rows := by
  refine List.take_of_length_le (Nat.le_of_not_lt fun longer => ?_)
  have probed : limit < (rows.take (limit + 1)).length := by
    rw [List.length_take]
    omega
  rw [nextCursor, if_pos probed, Option.map_eq_none_iff] at h
  split at h
  · rw [List.getLast?_eq_none_iff] at h
    rw [h] at probed
    exact absurd probed (Nat.not_lt_zero _)
  · rw [List.getElem?_eq_none_iff] at h
    omega

/-- The cursor goes on from where the page ends; with a limit of zero, one row
further. -/
theorem Increasing.after_nextCursor {rows : List E} (h : Increasing key rows) {cursor : Option K}
    {limit : Nat} {k : K} (next : nextCursor key limit (select key cursor limit rows) = some k) :
    Paging.after key (some k) rows = (Paging.after key cursor rows).drop (limit - 1 + 1) := by
  obtain ⟨e, there, rfl⟩ := nextCursor_eq_some next
  have mem : e ∈ rows.filter fun e => cursor.all (· < key e) := by
    rw [← h.after_eq]
    exact List.mem_of_getElem? there
  rw [← h.after_after (List.mem_filter.1 mem).2]
  exact (h.after cursor).after_getElem there

/-- Fewer rows are left after each page. -/
theorem Increasing.after_nextCursor_lt {rows : List E} (h : Increasing key rows)
    {cursor : Option K} {limit : Nat} {k : K}
    (next : nextCursor key limit (select key cursor limit rows) = some k) :
    (Paging.after key (some k) rows).length < (Paging.after key cursor rows).length := by
  obtain ⟨e, there, -⟩ := nextCursor_eq_some next
  have place := (List.getElem?_eq_some_iff.1 there).1
  rw [h.after_nextCursor next, List.length_drop]
  omega

/-! ## The client -/

section Client

variable {S I C : Type} {ask : S → Option C → List I × Option C → Prop} {later : S → S → Prop}

/-- A client starts at a state from a cursor, and follows the cursors until there is none.  The
state may change between two requests, and `u` is the one the last request finds. -/
inductive Follows (ask : S → Option C → List I × Option C → Prop) (later : S → S → Prop) :
    S → Option C → List I → S → Prop
  | last {s : S} {cursor : Option C} {items : List I} (page : ask s cursor (items, none)) :
      Follows ask later s cursor items s
  | more {s t u : S} {cursor : Option C} {next : C} {items rest : List I}
      (page : ask s cursor (items, some next)) (change : later s t)
      (follow : Follows ask later t (some next) rest u) :
      Follows ask later s cursor (items ++ rest) u

/-- The requests are served from a list of entries that are in order: `entry` says what entry an
item is, and `read` after which key a request goes on. -/
structure Serves (ask : S → Option C → List I × Option C → Prop) (limit : Nat) (key : E → K)
    (log : S → List E) (entry : I → E) (read : Option C → Option K) : Prop where
  page : ∀ {s cursor items next}, ask s cursor (items, next) → Increasing key (log s) →
    items.map entry = (after key (read cursor) (log s)).take limit ∧
      (next.map fun c => read (some c)) =
        (nextCursor key limit (select key (read cursor) limit (log s))).map some

variable {limit : Nat} {log : S → List E} {entry : I → E} {read : Option C → Option K} {s u : S}
  {cursor : Option C} {items : List I}

/-- The last page. -/
theorem Serves.page_last (serves : Serves ask limit key log entry read)
    (page : ask s cursor (items, none)) (ordered : Increasing key (log s)) :
    items.map entry = after key (read cursor) (log s) := by
  obtain ⟨shown, next⟩ := serves.page page ordered
  rw [shown]
  exact nextCursor_eq_none (Option.map_eq_none_iff.1 next.symm)

/-- A page with a cursor. -/
theorem Serves.page_more (serves : Serves ask limit key log entry read) {next : C}
    (page : ask s cursor (items, some next)) (ordered : Increasing key (log s)) :
    items.map entry = (after key (read cursor) (log s)).take limit ∧
      ∃ e, (after key (read cursor) (log s))[limit - 1]? = some e ∧
        nextCursor key limit (select key (read cursor) limit (log s)) = some (key e) ∧
        read (some next) = some (key e) := by
  obtain ⟨shown, cursors⟩ := serves.page page ordered
  obtain ⟨k, follows, means⟩ := Option.map_eq_some_iff.1 cursors.symm
  obtain ⟨e, there, rfl⟩ := nextCursor_eq_some follows
  exact ⟨shown, e, there, follows, means.symm⟩

/-- Entries are only added at the end. -/
theorem Follows.grows (h : Follows ask later s cursor items u)
    (grow : ∀ {s t}, later s t → log s <+: log t) : log s <+: log u := by
  induction h with
  | last _ => exact List.prefix_refl _
  | more _ change _ ih => exact (grow change).trans ih

/-- From the first request to the last. -/
theorem Follows.change (h : Follows ask later s cursor items u) (refl : ∀ s, later s s)
    (trans : ∀ {s t u}, later s t → later t u → later s u) : later s u := by
  induction h with
  | last _ => exact refl _
  | more _ change _ ih => exact trans change ih

/-- The client has all that is after its cursor. -/
theorem Serves.follows (serves : Serves ask limit key log entry read)
    (h : Follows ask later s cursor items u) (positive : 0 < limit)
    (grow : ∀ {s t}, later s t → log s <+: log t) (ordered : Increasing key (log u)) :
    items.map entry = after key (read cursor) (log u) := by
  induction h with
  | last page => exact serves.page_last page ordered
  | @more s t u cursor next items rest page change follow ih =>
      obtain ⟨new, added⟩ := (grow change).trans (follow.grows grow)
      have before : Increasing key (log s) := (added ▸ ordered).sublist (List.sublist_append_left ..)
      obtain ⟨shown, e, there, -, means⟩ := serves.page_more page before
      -- the rows that were there when the page was asked for come first
      have front : after key (read cursor) (log u) =
          after key (read cursor) (log s) ++ new.filter fun e => (read cursor).all (· < key e) := by
        rw [ordered.after_eq, before.after_eq, ← added, List.filter_append]
      have place := (List.getElem?_eq_some_iff.1 there).1
      have there' : (after key (read cursor) (log u))[limit - 1]? = some e := by
        rw [front, List.getElem?_append_left place, there]
      have mem : e ∈ (log u).filter fun e => (read cursor).all (· < key e) := by
        rw [← ordered.after_eq]
        exact List.mem_of_getElem? there'
      have behind := (ordered.after (read cursor)).after_getElem there'
      rw [ordered.after_after (List.mem_filter.1 mem).2, Nat.sub_add_cancel positive] at behind
      have first : (after key (read cursor) (log s)).take limit =
          (after key (read cursor) (log u)).take limit := by
        rw [front, List.take_append_of_le_length (by omega)]
      rw [List.map_append, ih ordered, shown, means, behind, first, List.take_append_drop]

/-- With a limit of zero the client has nothing. -/
theorem Serves.follows_zero (serves : Serves ask 0 key log entry read)
    (h : Follows ask later s cursor items u) (grow : ∀ {s t}, later s t → log s <+: log t)
    (ordered : Increasing key (log u)) : items = [] := by
  induction h with
  | last page => exact List.map_eq_nil_iff.1 (serves.page page ordered).1
  | @more s t u cursor next items rest page change follow ih =>
      obtain ⟨new, added⟩ := (grow change).trans (follow.grows grow)
      have before : Increasing key (log s) := (added ▸ ordered).sublist (List.sublist_append_left ..)
      rw [List.map_eq_nil_iff.1 (serves.page_more page before).1, ih ordered]
      rfl

/-- Where nothing changes and every request is answered, following ends. -/
theorem Serves.ends (serves : Serves ask limit key log entry read) (still : later s s)
    (ordered : Increasing key (log s))
    (answered : ∀ {cursor items next}, ask s cursor (items, some next) →
      ∃ answer, ask s (some next) answer)
    (start : ∃ answer, ask s cursor answer) : ∃ items, Follows ask later s cursor items s := by
  -- fewer entries are left with every page
  generalize measure : (after key (read cursor) (log s)).length = n
  induction n using Nat.strongRecOn generalizing cursor with
  | _ n ih =>
      obtain ⟨⟨items, next⟩, page⟩ := start
      cases next with
      | none => exact ⟨items, .last page⟩
      | some next =>
          obtain ⟨-, e, -, follows, means⟩ := serves.page_more page ordered
          have fewer := ordered.after_nextCursor_lt follows
          rw [← means, measure] at fewer
          obtain ⟨rest, follow⟩ := ih _ fewer (answered page) rfl
          exact ⟨items ++ rest, .more page still follow⟩

end Client

end Lib.Paging
