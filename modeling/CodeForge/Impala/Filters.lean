import Mathlib.Logic.Basic

/-!
# Required filters

`bounded_select` refuses a query that reads a table with a required filter,
unless its `WHERE` is `restrictive`.  The check looks at the tree SQLGlot
parsed.  Of AND it asks for one side, of OR for both, and of a comparison that
it mentions the configured column, and no other, together with a literal.

What a comparison says is up to the server, so a `Server` is a parameter, apart
from NULL in AND, OR and NOT.  A comparison with the bare column on one side and
no column on the others is `bare`.  Where the check accepts a `WHERE` on account
of bare comparisons, every row it lets through satisfies one of them
(`bare_binds`).  But the check does not ask for that: it is content with `dt + 1
= 5` or `(dt = 'x') = FALSE`.
-/

namespace CodeForge.Impala.Sql

/-! ## Trees -/

/-- The comparisons of two operands the check knows. -/
inductive Comparison where
  | eq
  | gt
  | gte
  | lt
  | lte
deriving DecidableEq

/-- A column, as it is written. -/
structure Column where
  table : String
  name : String
deriving DecidableEq

/-- SQLGlot's trees, as far as the check tells them apart. -/
inductive Expr where
  | column (c : Column)
  | literal (text : String) (quoted : Bool)
  | boolean (value : Bool)
  | arithmetic (operator : String) (operands : List Expr)
  | paren (this : Expr)
  | and (left right : Expr)
  | or (left right : Expr)
  | not (this : Expr)
  | compare (c : Comparison) (left right : Expr)
  | between (this low high : Expr)
  /-- The members of a list, or a query. -/
  | isIn (this : Expr) (members : List Expr) (query : Bool)
  /-- A `Func`. -/
  | function (name : String) (arguments : List Expr)
  /-- A `Subquery` or `Query`, with the expressions in it. -/
  | subquery (parts : List Expr)

mutual

/-- `walk` -/
def Expr.walk : Expr → List Expr
  | .column c => [.column c]
  | .literal text quoted => [.literal text quoted]
  | .boolean value => [.boolean value]
  | .arithmetic operator operands => .arithmetic operator operands :: walkAll operands
  | .paren this => .paren this :: walk this
  | .and left right => .and left right :: (walk left ++ walk right)
  | .or left right => .or left right :: (walk left ++ walk right)
  | .not this => .not this :: walk this
  | .compare c left right => .compare c left right :: (walk left ++ walk right)
  | .between this low high => .between this low high :: (walk this ++ walk low ++ walk high)
  | .isIn this members query => .isIn this members query :: (walk this ++ walkAll members)
  | .function name arguments => .function name arguments :: walkAll arguments
  | .subquery parts => .subquery parts :: walkAll parts

/-- The nodes of several trees. -/
def Expr.walkAll : List Expr → List Expr
  | [] => []
  | e :: es => walk e ++ walkAll es

end

def Expr.asColumn : Expr → Option Column
  | .column c => some c
  | _ => none

/-- `find_all(exp.Column)` -/
def Expr.columns (e : Expr) : List Column := e.walk.filterMap asColumn

def Expr.isLiteral : Expr → Bool
  | .literal _ _ => true
  | _ => false

/-- `isinstance(node, (exp.Func, exp.Subquery, exp.Query))`.  Some versions of SQLGlot have AND and
OR among the functions. -/
def Expr.isCall (connectives : Bool) : Expr → Bool
  | .function _ _ | .subquery _ => true
  | .and _ _ | .or _ _ => connectives
  | _ => false

/-! ## The check -/

/-- What the check of a table knows of its surroundings. -/
structure Context where
  /-- `str.lower` -/
  lower : String → String
  /-- AND and OR are functions. -/
  connectives : Bool
  /-- `table.alias_or_name` -/
  aliasOrName : String
  /-- The `SELECT` has joins. -/
  joined : Bool
  /-- The configured column. -/
  column : String

variable (x : Context)

/-- A column is the configured one of the table. -/
def Context.owns (c : Column) : Bool :=
  x.lower c.name = x.lower x.column &&
    if x.lower c.table ≠ "" then x.lower c.table = x.lower x.aliasOrName else !x.joined

/-- A comparison the check relies on. -/
def Context.simple (e : Expr) : Bool :=
  (match e.columns with
    | [c] => x.owns c
    | _ => false) &&
  e.walk.any Expr.isLiteral && !e.walk.any (Expr.isCall x.connectives)

/-- AND, OR and parentheses over some check of comparisons. -/
def accepts (p : Expr → Bool) : Expr → Bool
  | .paren this => accepts p this
  | .and left right => accepts p left || accepts p right
  | .or left right => accepts p left && accepts p right
  | .compare c left right => p (.compare c left right)
  | .between this low high => p (.between this low high)
  | .isIn this members query => !query && p (.isIn this members query)
  | _ => false

/-- `restrictive` -/
def Context.restrictive (e : Expr) : Bool := accepts x.simple e

/-! ## Rows -/

/-- AND of SQL.  NULL is `none`. -/
def and3 : Option Bool → Option Bool → Option Bool
  | some false, _ | _, some false => some false
  | some true, some true => some true
  | _, _ => none

/-- OR of SQL. -/
def or3 : Option Bool → Option Bool → Option Bool
  | some true, _ | _, some true => some true
  | some false, some false => some false
  | _, _ => none

/-- What a server makes of literals, operators and functions. -/
structure Server (V : Type) where
  literal : String → Bool → V
  /-- A truth value as a value, and a value as a truth value. -/
  ofTruth : Option Bool → V
  truth : V → Option Bool
  truth_ofTruth : ∀ t, truth (ofTruth t) = t
  arithmetic : String → List V → V
  compare : Comparison → V → V → Option Bool
  between : V → V → V → Option Bool
  isIn : V → List V → Option Bool
  function : String → List V → V
  subquery : List V → V

section Values

variable {V : Type} (S : Server V) (row : Column → V)

mutual

/-- The value of an expression on a row. -/
def Server.value : Expr → V
  | .column c => row c
  | .literal text quoted => S.literal text quoted
  | .boolean b => S.ofTruth (some b)
  | .arithmetic operator operands => S.arithmetic operator (values operands)
  | .paren this => value this
  | .and left right => S.ofTruth (and3 (S.truth (value left)) (S.truth (value right)))
  | .or left right => S.ofTruth (or3 (S.truth (value left)) (S.truth (value right)))
  | .not this => S.ofTruth ((S.truth (value this)).map Bool.not)
  | .compare c left right => S.ofTruth (S.compare c (value left) (value right))
  | .between this low high => S.ofTruth (S.between (value this) (value low) (value high))
  | .isIn this members _ => S.ofTruth (S.isIn (value this) (values members))
  | .function name arguments => S.function name (values arguments)
  | .subquery parts => S.subquery (values parts)

/-- The values of several expressions. -/
def Server.values : List Expr → List V
  | [] => []
  | e :: es => value e :: values es

end

/-- A predicate is true on a row. -/
def Server.Holds (e : Expr) : Prop := S.truth (S.value row e) = some true

end Values

/-! ## Bare comparisons -/

/-- The sides of a comparison. -/
def Expr.operands : Expr → Option (List Expr)
  | .compare _ left right => some [left, right]
  | .between this low high => some [this, low, high]
  | .isIn this members _ => some (this :: members)
  | _ => none

/-- An expression without parentheses around it. -/
def Expr.unparen : Expr → Expr
  | .paren this => unparen this
  | e => e

/-- The configured column. -/
def Context.isBare (e : Expr) : Bool :=
  match e.unparen with
  | .column c => x.owns c
  | _ => false

/-- One side is the configured column, and the others have no column in them. -/
def Context.bare (e : Expr) : Bool :=
  match e.operands with
  | some sides =>
      match sides.filter fun side => !side.columns.isEmpty with
      | [side] => x.isBare side
      | _ => false
  | none => false

/-- A row that `WHERE` lets through satisfies a bare comparison in it. -/
def Context.Binds (e : Expr) : Prop :=
  ∀ (V : Type) (S : Server V) (row : Column → V), S.Holds row e →
    ∃ c ∈ e.walk, x.bare c = true ∧ S.Holds row c

variable {x}

theorem and3_eq_true {a b : Option Bool} (h : and3 a b = some true) :
    a = some true ∧ b = some true := by
  rcases a with _ | _ | _ <;> rcases b with _ | _ | _ <;> first | exact ⟨rfl, rfl⟩ | cases h

theorem or3_eq_true {a b : Option Bool} (h : or3 a b = some true) :
    a = some true ∨ b = some true := by
  rcases a with _ | _ | _
  · rcases b with _ | _ | _
    · cases h
    · cases h
    · exact .inr rfl
  · rcases b with _ | _ | _
    · cases h
    · cases h
    · exact .inr rfl
  · exact .inl rfl

theorem Expr.mem_walk (e : Expr) : e ∈ e.walk := by
  cases e <;> simp [walk]

/-- The bare comparisons the check would rely on bind. -/
theorem bare_binds : ∀ e : Expr, accepts x.bare e = true → x.Binds e
  | .paren this, h => by
      intro V S row holds
      obtain ⟨c, hc, bare, true_⟩ := bare_binds this h V S row holds
      exact ⟨c, List.mem_cons_of_mem _ hc, bare, true_⟩
  | .and left right, h => by
      intro V S row holds
      have both := and3_eq_true ((S.truth_ofTruth _).symm.trans holds)
      rcases Bool.or_eq_true_iff.1 h with one | other
      · obtain ⟨c, hc, bare, true_⟩ := bare_binds left one V S row both.1
        exact ⟨c, List.mem_cons_of_mem _ (List.mem_append_left _ hc), bare, true_⟩
      · obtain ⟨c, hc, bare, true_⟩ := bare_binds right other V S row both.2
        exact ⟨c, List.mem_cons_of_mem _ (List.mem_append_right _ hc), bare, true_⟩
  | .or left right, h => by
      intro V S row holds
      obtain ⟨one, other⟩ := Bool.and_eq_true_iff.1 h
      rcases or3_eq_true ((S.truth_ofTruth _).symm.trans holds) with true_ | true_
      · obtain ⟨c, hc, bare, true_⟩ := bare_binds left one V S row true_
        exact ⟨c, List.mem_cons_of_mem _ (List.mem_append_left _ hc), bare, true_⟩
      · obtain ⟨c, hc, bare, true_⟩ := bare_binds right other V S row true_
        exact ⟨c, List.mem_cons_of_mem _ (List.mem_append_right _ hc), bare, true_⟩
  | .compare c left right, h => fun _ _ _ holds => ⟨_, Expr.mem_walk _, h, holds⟩
  | .between this low high, h => fun _ _ _ holds => ⟨_, Expr.mem_walk _, h, holds⟩
  | .isIn this members query, h => fun _ _ _ holds =>
      ⟨_, Expr.mem_walk _, (Bool.and_eq_true_iff.1 h).2, holds⟩

/-! ## Where the check goes wrong -/

/-- Columns, constants and what is calculated of them. -/
def Expr.isTerm : Expr → Bool
  | .column _ | .literal _ _ | .boolean _ | .arithmetic _ _ | .paren _ => true
  | _ => false

/-- An expression with no predicate in it. -/
def Expr.flat (e : Expr) : Bool := e.walk.all Expr.isTerm

/-- Comparisons of flat expressions, under AND, OR and parentheses. -/
def Expr.plain : Expr → Bool
  | .paren this => plain this
  | .and left right | .or left right => plain left && plain right
  | .compare _ left right => left.flat && right.flat
  | .between this low high => this.flat && low.flat && high.flat
  | .isIn this members query => !query && this.flat && members.all flat
  | _ => false

/-- What an expression depends on. -/
inductive Source where
  /-- It is the configured column. -/
  | column
  /-- It has a column in it. -/
  | mixed
  | clean
  | truth (t : Option Bool)

/-- No column is involved. -/
def Source.isClean : Source → Bool
  | .clean | .truth _ => true
  | .column | .mixed => false

/-- One side is the configured column, and the others are clean. -/
def Source.bare (sides : List Source) : Bool :=
  match sides.filter fun side => !side.isClean with
  | [.column] => true
  | _ => false

/-- A server on which the comparisons that are not bare are true. -/
def Server.averse : Server Source where
  literal _ _ := .clean
  ofTruth := .truth
  truth
    | .truth t => t
    | _ => none
  truth_ofTruth _ := rfl
  arithmetic _ sides := if sides.all Source.isClean then .clean else .mixed
  compare _ left right := some (!Source.bare [left, right])
  between this low high := some (!Source.bare [this, low, high])
  isIn this members := some (!Source.bare (this :: members))
  function _ _ := .clean
  subquery _ := .clean

/-- A row of that server. -/
def Context.averse (x : Context) (c : Column) : Source := if x.owns c then .column else .mixed

theorem Server.values_eq {V : Type} (S : Server V) (row : Column → V) (es : List Expr) :
    S.values row es = es.map (S.value row) := by
  induction es with
  | nil => rfl
  | cons e es ih => rw [values, ih, List.map_cons]

theorem Expr.walkAll_eq (es : List Expr) : walkAll es = es.flatMap walk := by
  induction es with
  | nil => rfl
  | cons e es ih => rw [walkAll, ih, List.flatMap_cons]

theorem Expr.flat_paren {this : Expr} (h : (Expr.paren this).flat = true) : this.flat = true := by
  rw [flat, walk, List.all_cons] at h
  exact (Bool.and_eq_true_iff.1 h).2

theorem Expr.columns_paren (this : Expr) : (Expr.paren this).columns = this.columns := by
  rw [columns, walk, List.filterMap_cons_none rfl]
  rfl

mutual

/-- The value of a flat expression tells whether it has a column, and whether it is one. -/
theorem averse_flat : ∀ e : Expr, e.flat = true →
    (Server.averse.value x.averse e).isClean = e.columns.isEmpty ∧
      (Server.averse.value x.averse e = .column ↔ x.isBare e = true)
  | .column c, _ => by
      rw [Server.value, Context.averse]
      change _ ∧ (_ ↔ x.owns c = true)
      split
      next owned => exact ⟨rfl, iff_of_true rfl owned⟩
      next foreign => exact ⟨rfl, iff_of_false (fun h => by cases h) foreign⟩
  | .literal _ _, _ => ⟨rfl, iff_of_false (fun h => by cases h) Bool.false_ne_true⟩
  | .boolean _, _ => ⟨rfl, iff_of_false (fun h => by cases h) Bool.false_ne_true⟩
  | .arithmetic operator operands, h => by
      rw [Expr.flat, Expr.walk, List.all_cons] at h
      have operands' := averse_flats operands (Bool.and_eq_true_iff.1 h).2
      have columns : (Expr.arithmetic operator operands).columns =
          (Expr.walkAll operands).filterMap Expr.asColumn := by
        rw [Expr.columns, Expr.walk, List.filterMap_cons_none rfl]
      have value : Server.averse.value x.averse (.arithmetic operator operands) =
          if (Server.averse.values x.averse operands).all Source.isClean then .clean
          else .mixed := by
        rw [Server.value]
        rfl
      rw [columns, ← operands', value]
      change _ ∧ (_ ↔ false = true)
      split
      next clean => exact ⟨clean.symm, iff_of_false (fun h => by cases h) Bool.false_ne_true⟩
      next mixed =>
        rw [Bool.not_eq_true] at mixed
        exact ⟨mixed.symm, iff_of_false (fun h => by cases h) Bool.false_ne_true⟩
  | .paren this, h => by
      have inner := averse_flat this (Expr.flat_paren h)
      rw [Server.value, Expr.columns_paren]
      exact inner

theorem averse_flats : ∀ es : List Expr, (Expr.walkAll es).all Expr.isTerm = true →
    (Server.averse.values x.averse es).all Source.isClean =
      ((Expr.walkAll es).filterMap Expr.asColumn).isEmpty
  | [], _ => rfl
  | e :: es, h => by
      rw [Expr.walkAll, List.all_append] at h
      obtain ⟨first, rest⟩ := Bool.and_eq_true_iff.1 h
      rw [Server.values, List.all_cons, (averse_flat e first).1, averse_flats es rest, Expr.walkAll,
        List.filterMap_append, Bool.eq_iff_iff]
      simp [Expr.columns, List.isEmpty_iff]

end

/-- The comparisons of flat expressions are true unless they are bare. -/
theorem averse_sides (sides : List Expr) (h : sides.all Expr.flat = true) :
    Source.bare (sides.map (Server.averse.value x.averse)) =
      match sides.filter fun side => !side.columns.isEmpty with
      | [side] => x.isBare side
      | _ => false := by
  have filtered : (sides.map (Server.averse.value x.averse)).filter (fun side => !side.isClean) =
      (sides.filter fun side => !side.columns.isEmpty).map (Server.averse.value x.averse) := by
    rw [List.filter_map]
    refine congrArg (List.map _) (List.filter_congr fun side hside => ?_)
    rw [Function.comp_apply, (averse_flat side (List.all_eq_true.1 h side hside)).1]
  rw [Source.bare, filtered]
  rcases found : sides.filter fun side => !side.columns.isEmpty with _ | ⟨side, _ | ⟨side', rest⟩⟩
  · rw [found]
    rfl
  · have hside : side ∈ sides := by
      have there : side ∈ sides.filter fun side => !side.columns.isEmpty :=
        found ▸ List.mem_singleton_self side
      exact (List.mem_filter.1 there).1
    have same := (averse_flat (x := x) side (List.all_eq_true.1 h side hside)).2
    rw [found, List.map_singleton]
    dsimp only
    by_cases bare : x.isBare side = true
    · rw [same.2 bare, bare]
    · rw [Bool.not_eq_true] at bare
      rw [bare]
      cases value : Server.averse.value x.averse side with
      | column => exact absurd (same.1 value) (by rw [bare]; exact Bool.false_ne_true)
      | mixed | clean | truth => rfl
  · rw [found, List.map_cons, List.map_cons]
    cases Server.averse.value x.averse side with
    | column | mixed | clean | truth => rfl

/-- A comparison of flat expressions is true unless it is bare. -/
theorem averse_comparison {e : Expr} {sides : List Expr} (operands : e.operands = some sides)
    (flat : sides.all Expr.flat = true) :
    Server.averse.truth (Server.averse.value x.averse e) = some (!x.bare e) := by
  have same := averse_sides (x := x) sides flat
  rw [Context.bare, operands]
  dsimp only
  rw [← same]
  cases e with
  | compare c left right =>
      cases operands
      rw [Server.value, Server.truth_ofTruth]
      rfl
  | between this low high =>
      cases operands
      rw [Server.value, Server.truth_ofTruth]
      rfl
  | isIn this members query =>
      cases operands
      rw [Server.value, Server.truth_ofTruth, Server.values_eq]
      rfl
  | _ => cases operands

theorem Expr.bare_operands {e : Expr} (h : x.bare e = true) : ∃ sides, e.operands = some sides := by
  cases operands : e.operands with
  | none =>
      rw [Context.bare, operands] at h
      cases h
  | some sides => exact ⟨sides, rfl⟩

/-- There is no comparison in a flat expression. -/
theorem Expr.flat_operands {e c : Expr} (flat : e.flat = true) (h : c ∈ e.walk) :
    c.operands = none := by
  have term := List.all_eq_true.1 flat c h
  cases c with
  | column | literal | boolean | arithmetic | paren => rfl
  | _ => cases term

/-- In the nodes of a comparison of flat expressions it is the only comparison. -/
theorem averse_atom {e c : Expr} {sides : List Expr} (operands : e.operands = some sides)
    (flat : sides.all Expr.flat = true) (walk : e.walk = e :: Expr.walkAll sides)
    (h : c ∈ e.walk) (bare : x.bare c = true) : ¬Server.averse.Holds x.averse c := by
  intro holds
  rw [walk] at h
  rcases List.mem_cons.1 h with rfl | inside
  · have value := averse_comparison (x := x) operands flat
    rw [bare] at value
    cases value.symm.trans holds
  · rw [Expr.walkAll_eq] at inside
    obtain ⟨side, hside, hc⟩ := List.mem_flatMap.1 inside
    obtain ⟨sides', operands'⟩ := Expr.bare_operands bare
    rw [Expr.flat_operands (List.all_eq_true.1 flat side hside) hc] at operands'
    cases operands'

/-- No bare comparison of a plain tree is true, and the tree is, unless bare comparisons are what
makes it so. -/
theorem averse_plain : ∀ e : Expr, e.plain = true →
    Server.averse.truth (Server.averse.value x.averse e) = some (!accepts x.bare e) ∧
      ∀ c ∈ e.walk, x.bare c = true → ¬Server.averse.Holds x.averse c
  | .paren this, h => by
      obtain ⟨value, none⟩ := averse_plain this h
      refine ⟨by rw [Server.value]; exact value, fun c hc bare => ?_⟩
      rcases List.mem_cons.1 hc with rfl | inside
      · cases bare
      · exact none c inside bare
  | .and left right, h => by
      obtain ⟨pl, pr⟩ := Bool.and_eq_true_iff.1 h
      obtain ⟨vl, nl⟩ := averse_plain left pl
      obtain ⟨vr, nr⟩ := averse_plain right pr
      refine ⟨?_, fun c hc bare => ?_⟩
      · rw [Server.value, Server.truth_ofTruth, vl, vr, accepts]
        cases accepts x.bare left <;> cases accepts x.bare right <;> rfl
      · rcases List.mem_cons.1 hc with rfl | inside
        · cases bare
        · rcases List.mem_append.1 inside with one | other
          · exact nl c one bare
          · exact nr c other bare
  | .or left right, h => by
      obtain ⟨pl, pr⟩ := Bool.and_eq_true_iff.1 h
      obtain ⟨vl, nl⟩ := averse_plain left pl
      obtain ⟨vr, nr⟩ := averse_plain right pr
      refine ⟨?_, fun c hc bare => ?_⟩
      · rw [Server.value, Server.truth_ofTruth, vl, vr, accepts]
        cases accepts x.bare left <;> cases accepts x.bare right <;> rfl
      · rcases List.mem_cons.1 hc with rfl | inside
        · cases bare
        · rcases List.mem_append.1 inside with one | other
          · exact nl c one bare
          · exact nr c other bare
  | .compare c left right, h => by
      have flat : [left, right].all Expr.flat = true := by simpa [Expr.plain] using h
      exact ⟨averse_comparison rfl flat, fun c' hc bare =>
        averse_atom rfl flat (by simp [Expr.walk, Expr.walkAll]) hc bare⟩
  | .between this low high, h => by
      have flat : [this, low, high].all Expr.flat = true := by
        simpa [Expr.plain, and_assoc] using h
      exact ⟨averse_comparison rfl flat, fun c' hc bare =>
        averse_atom rfl flat (by simp [Expr.walk, Expr.walkAll]) hc bare⟩
  | .isIn this members query, h => by
      rw [Expr.plain, Bool.and_assoc] at h
      obtain ⟨list, both⟩ := Bool.and_eq_true_iff.1 h
      have flat : (this :: members).all Expr.flat = true := both
      refine ⟨?_, fun c' hc bare =>
        averse_atom rfl flat (by simp [Expr.walk, Expr.walkAll]) hc bare⟩
      rw [accepts, list, Bool.true_and]
      exact averse_comparison rfl flat

/-- What the check accepts binds, where it would accept it for the sake of bare comparisons alone,
and in plain trees only there.  (In others, a part no row can satisfy may hide the defect.) -/
theorem Context.restrictive_binds (x : Context) :
    (∀ e, (x.restrictive e = true → accepts x.bare e = true) →
      x.restrictive e = true → x.Binds e) ∧
    (∀ e, e.plain = true → ((x.restrictive e = true → x.Binds e) ↔
      (x.restrictive e = true → accepts x.bare e = true))) := by
  refine ⟨fun e h accepted => bare_binds e (h accepted), fun e plain => ⟨fun h accepted => ?_,
    fun h accepted => bare_binds e (h accepted)⟩⟩
  obtain ⟨value, none⟩ := averse_plain (x := x) e plain
  cases loose : accepts x.bare e with
  | true => rfl
  | false =>
      rw [loose] at value
      obtain ⟨c, hc, bare, holds⟩ := h accepted Source Server.averse x.averse value
      exact absurd holds (none c hc bare)

/-- Values of a small server. -/
inductive Value where
  | null
  | int (n : Int)
  | text (s : String)
  | truth (t : Option Bool)
deriving DecidableEq

/-- A server with whole numbers and texts. -/
def Server.small : Server Value where
  literal text quoted :=
    if quoted then .text text
    else .int (text.toList.foldl (fun n c => 10 * n + (c.toNat - '0'.toNat)) 0)
  ofTruth := .truth
  truth
    | .truth t => t
    | _ => none
  truth_ofTruth _ := rfl
  arithmetic
    | "+", [.int m, .int n] => .int (m + n)
    | _, _ => .null
  compare
    | .eq, v, w => if v = .null ∨ w = .null then none else some (v = w)
    | .gt, .int m, .int n => some (n < m)
    | .gte, .int m, .int n => some (n ≤ m)
    | .lt, .int m, .int n => some (m < n)
    | .lte, .int m, .int n => some (m ≤ n)
    | _, _, _ => none
  between
    | .int n, .int low, .int high => some (low ≤ n ∧ n ≤ high)
    | _, _, _ => none
  isIn v members := if v ∈ members then some true else some false
  function _ _ := .null
  subquery _ := .null

/-- The check of a table by its own name, with a filter on `dt`. -/
def Context.sales : Context where
  lower := String.toLower
  connectives := true
  aliasOrName := "sales"
  joined := false
  column := "dt"

/-- `dt >= '2026-10-01' AND dt < '2026-10-02'` -/
def Expr.day : Expr :=
  .and (.compare .gte (.column ⟨"", "dt"⟩) (.literal "2026-10-01" true))
    (.compare .lt (.column ⟨"", "dt"⟩) (.literal "2026-10-02" true))

theorem Context.restrictive_binds_day : Context.sales.Binds .day :=
  (Context.restrictive_binds .sales).1 .day (fun _ => by decide +kernel) (by decide +kernel)

/-- `dt + 1 = 5` -/
def Expr.shifted : Expr :=
  .compare .eq (.arithmetic "+" [.column ⟨"", "dt"⟩, .literal "1" false]) (.literal "5" false)

/-- A query may filter by what is calculated of the column. -/
theorem Context.restrictive_not_binds :
    Context.sales.restrictive .shifted = true ∧
      Server.small.Holds (fun _ => .int 4) .shifted ∧
      (∀ c ∈ Expr.shifted.walk, Context.sales.bare c = false) ∧
      ¬Context.sales.Binds .shifted := by
  have holds : Server.small.Holds (fun _ => .int 4) .shifted := by
    change _ = _
    decide +kernel
  have bare : ∀ c ∈ Expr.shifted.walk, Context.sales.bare c = false := by
    decide +kernel
  refine ⟨by decide +kernel, holds, bare, fun binds => ?_⟩
  obtain ⟨c, hc, true_, -⟩ := binds Value .small _ holds
  rw [bare c hc] at true_
  cases true_

/-- So may one that compares a comparison. -/
example : Context.sales.restrictive (.compare .eq
    (.paren (.compare .eq (.column ⟨"", "dt"⟩) (.literal "x" true))) (.boolean false)) = true := by
  decide +kernel

end CodeForge.Impala.Sql
