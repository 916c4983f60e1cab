import CodeForge.Contracts
import CodeForge.Lib.Regex

/-!
# The code blocks of a message

The local harness runs the fenced blocks of a message, Python blocks with one
tool and shell blocks with another.  It looks for the blocks of each language by
a regular expression of its own, Python first, and the actions of the two
searches stand one behind the other.

`blocks` reads the message once, from left to right, for the blocks of both
languages.  The two searches together find the same in the same order just where
the message is `Orderly` (`plan_faithful_iff`): no Python block stands behind a
shell block, no closing fence of a block opens a block of the other language,
and no block begins with a blank line, which the expressions pass over.
-/

namespace CodeForge.Harness

open Lib Scan

inductive Tool where
  | python
  | command
deriving DecidableEq, Repr

namespace Tool

def ref : Tool → String
  | .python => "python"
  | .command => "command"

def isPython : Tool → Bool
  | .python => true
  | .command => false

end Tool

/-- What the harness does: some code, with a tool. -/
structure Action where
  tool : Tool
  code : List Char
deriving DecidableEq, Repr

/-! ## The two searches -/

def fence : List Char := "```".toList

/-- The rest of the line of a fence, the code and the fence behind it. -/
def blockBody : Pattern :=
  .seq (.many isSpace) (.seq (.one (· = '\n'))
    (.seq (.group (.few fun _ => true)) (.text fence)))

/-- `_PYTHON_BLOCK` -/
def pythonBlock : Pattern :=
  .seq (.text fence) (.seq (.alt (.text "python".toList) (.text "py".toList)) blockBody)

/-- `_SHELL_BLOCK` -/
def shellBlock : Pattern :=
  .seq (.text fence)
    (.seq (.alt (.text "bash".toList) (.alt (.text "sh".toList) (.text "shell".toList)))
      blockBody)

theorem pythonBlock_nonempty : 0 < pythonBlock.minLength := by decide

theorem shellBlock_nonempty : 0 < shellBlock.minLength := by decide

/-- The action of a match, `match.group(1)`. -/
def actionOf (tool : Tool) (group : Option (List Char)) : Action := ⟨tool, group.getD []⟩

/-- The actions with the places of their matches. -/
def plan (text : List Char) : List (Found Action) :=
  (read (pythonBlock.finder pythonBlock_nonempty) text).map (Found.map (actionOf .python)) ++
    (read (shellBlock.finder shellBlock_nonempty) text).map (Found.map (actionOf .command))

/-- What is made of an action. -/
def toolAndCode (m : Found Action) : String × String :=
  (m.value.tool.ref, String.ofList m.value.code)

/-- `_plan_actions` -/
def planActions (text : String) : List (String × String) :=
  (plan text.toList).map toolAndCode

/-! ## The blocks -/

/-- What a fence can say to open a block for a tool. -/
def tags : Tool → List (List Char)
  | .python => ["python".toList, "py".toList]
  | .command => ["bash".toList, "sh".toList, "shell".toList]

/-- The text behind this line, if what is left of the line is blank. -/
def nextLine : List Char → Option (List Char)
  | [] => none
  | c :: cs => if c = '\n' then some cs else if isSpace c then nextLine cs else none

/-- The block that an opened fence opens with a tag: the tag and blanks up to the end of the
line, and the code up to the next fence. -/
def blockFrom (tool : Tool) (size : Nat) (opened tag : List Char) : Option (Action × Nat) :=
  (((opened.dropPrefix? tag).bind nextLine).bind (Pattern.upTo fence)).map fun x =>
    (⟨tool, x.1⟩, size - x.2.length)

/-- The block at the start of a text. -/
def blockAt (tool : Tool) (cs : List Char) : Option (Action × Nat) :=
  (cs.dropPrefix? fence).bind fun opened =>
    (tags tool).findSome? (blockFrom tool cs.length opened)

/-! ## What the expressions find -/

/-- The text without the blank lines at its start. -/
def dropBlankLines : List Char → List Char
  | [] => []
  | c :: cs => if (nextLine (c :: cs)).isSome then dropBlankLines cs else c :: cs

theorem dropBlankLines_of_none {cs : List Char} (h : nextLine cs = none) :
    dropBlankLines cs = cs := by
  cases cs with
  | nil => rfl
  | cons c cs => simp [dropBlankLines, h]

theorem isSpace_newline : isSpace '\n' = true := by decide

/-- No fence begins with a blank. -/
theorem upTo_blank {c : Char} (space : isSpace c = true) (cs : List Char) :
    Pattern.upTo fence (c :: cs) = (Pattern.upTo fence cs).map fun x => (c :: x.1, x.2) := by
  have tick : (c == '`') = false := by
    cases same : c == '`' with
    | false => rfl
    | true =>
      rw [eq_of_beq same] at space
      exact absurd space (by decide)
  have opened : List.dropPrefix? (c :: cs) fence = none := by
    show List.dropPrefix? (c :: cs) ('`' :: _) = none
    simp [List.dropPrefix?, tick]
  simp [Pattern.upTo, opened]

/-- A text goes over a blank line to the next line as its start does. -/
theorem nextLine_some {cs rest : List Char} (h : nextLine cs = some rest) :
    dropBlankLines cs = dropBlankLines rest ∧
      ∃ blank, cs = blank ++ rest ∧ (∀ text, nextLine (blank ++ text) = some text) ∧
        Pattern.upTo fence cs =
          (Pattern.upTo fence rest).map fun x => (blank ++ x.1, x.2) := by
  induction cs with
  | nil => cases h
  | cons c cs ih =>
    rw [nextLine] at h
    split at h
    next newline =>
      cases h
      subst newline
      exact ⟨by simp [dropBlankLines, nextLine], ['\n'], rfl, fun text => rfl,
        upTo_blank (by decide) _⟩
    next other =>
      split at h
      next space =>
        obtain ⟨same, blank, split, goes, reads⟩ := ih h
        refine ⟨?_, c :: blank, by rw [split]; rfl, fun text => ?_, ?_⟩
        · rw [← same, dropBlankLines, nextLine, if_neg other, if_pos space, h]
          rfl
        · rw [List.cons_append, nextLine, if_neg other, if_pos space]
          exact goes text
        · rw [upTo_blank space, reads]
          simp [Function.comp_def]
      next => cases h

/-- The start of a text whose first line is not blank begins with no blank line. -/
theorem nextLine_append {cs : List Char} (rest : List Char) (h : nextLine (cs ++ rest) = none) :
    nextLine cs = none := by
  induction cs with
  | nil => rfl
  | cons c cs ih =>
    rw [List.cons_append, nextLine] at h
    rw [nextLine]
    split at h
    · cases h
    next other =>
      rw [if_neg other]
      split at h
      next space =>
        rw [if_pos space]
        exact ih h
      next solid => rw [if_neg solid]

theorem upTo_eq_some {s cs text rest : List Char}
    (h : Pattern.upTo s cs = some (text, rest)) : cs = text ++ s ++ rest := by
  induction cs generalizing text with
  | nil =>
    obtain ⟨behind, dropped, same⟩ := Option.map_eq_some_iff.1 h
    obtain ⟨s', split, eq⟩ := List.dropPrefix?_eq_some_iff.1 dropped
    cases same
    rwa [eq_of_beq eq] at split
  | cons c cs ih =>
    rw [Pattern.upTo, Option.or_eq_some_iff] at h
    rcases h with here | ⟨-, later⟩
    · obtain ⟨behind, dropped, same⟩ := Option.map_eq_some_iff.1 here
      obtain ⟨s', split, eq⟩ := List.dropPrefix?_eq_some_iff.1 dropped
      cases same
      rwa [eq_of_beq eq] at split
    · obtain ⟨x, found, same⟩ := Option.map_eq_some_iff.1 later
      cases same
      rw [ih found]
      rfl

/-- Behind a tag the expression finds what a block has, without the blank lines. -/
theorem run_blockBody {R : Type} (f : List Char → Option (List Char) → R) (g : Option (List Char))
    (cs : List Char) :
    blockBody.run (fun rest g => some (f rest g)) cs g =
      ((nextLine cs).bind (Pattern.upTo fence)).map fun x =>
        f x.2 (some (dropBlankLines x.1)) := by
  let behind : List Char → Option R := fun rest =>
    (Pattern.seq (.one (· = '\n')) (.seq (.group (.few fun _ => true)) (.text fence))).run
      (fun rest g => some (f rest g)) rest g
  have newline : ∀ cs, behind ('\n' :: cs) =
      (Pattern.upTo fence cs).map fun x => f x.2 (some x.1) :=
    fun cs => Pattern.run_upTo fence cs g f
  have other : ∀ c cs, c ≠ '\n' → behind (c :: cs) = none := by
    intro c cs h
    simp [behind, Pattern.run, h]
  show Pattern.greedy isSpace behind cs = _
  induction cs with
  | nil => rfl
  | cons c cs ih =>
    rw [Pattern.greedy]
    by_cases line : c = '\n'
    · subst line
      rw [if_pos (by decide), ih, newline, nextLine, if_pos rfl, Option.bind_some]
      cases next : nextLine cs with
      | none =>
        cases text : Pattern.upTo fence cs with
        | none => rfl
        | some x =>
          have start : nextLine x.1 = none := by
            rw [upTo_eq_some text, List.append_assoc] at next
            exact nextLine_append _ next
          simp [dropBlankLines_of_none start]
      | some rest =>
        obtain ⟨-, blank, -, goes, reads⟩ := nextLine_some next
        have passes : ∀ text, dropBlankLines (blank ++ text) = dropBlankLines text :=
          fun text => (nextLine_some (goes text)).1
        rw [reads, Option.bind_some]
        cases Pattern.upTo fence rest <;> simp [passes]
    · rw [other c cs line, Option.or_none, nextLine, if_neg line]
      split
      · exact ih
      · rfl

/-- The code of an action without the blank lines at its start. -/
def Action.trimmed (a : Action) : Action := ⟨a.tool, dropBlankLines a.code⟩

theorem run_tag (tool : Tool) (size : Nat) (opened tag : List Char) (g : Option (List Char)) :
    ((Pattern.text tag).run (blockBody.run fun rest g => some (g, size - rest.length)) opened
        g).map (fun x => (actionOf tool x.1, x.2)) =
      (blockFrom tool size opened tag).map fun x => (x.1.trimmed, x.2) := by
  unfold blockFrom
  simp only [Pattern.run]
  cases opened.dropPrefix? tag with
  | none => rfl
  | some cs =>
    simp only [Option.bind_some, run_blockBody, Option.map_map]
    rfl

/-! ## The reading of all blocks -/

theorem dropPrefix_length {s cs rest : List Char} (h : cs.dropPrefix? s = some rest) :
    s.length + rest.length = cs.length := by
  obtain ⟨s', split, same⟩ := List.dropPrefix?_eq_some_iff.1 h
  rw [split, eq_of_beq same, List.length_append]

/-- A block has the tool it is looked for with, is not empty and lies in the text. -/
theorem blockAt_sound {tool : Tool} {cs : List Char} {a : Action} {n : Nat}
    (h : blockAt tool cs = some (a, n)) : a.tool = tool ∧ 0 < n ∧ n ≤ cs.length := by
  obtain ⟨opened, dropped, h⟩ := Option.bind_eq_some_iff.1 h
  obtain ⟨tag, -, h⟩ := List.exists_of_findSome?_eq_some h
  obtain ⟨x, found, same⟩ := Option.map_eq_some_iff.1 h
  obtain ⟨line, tagged, found⟩ := Option.bind_eq_some_iff.1 found
  obtain ⟨behind, stripped, next⟩ := Option.bind_eq_some_iff.1 tagged
  cases same
  obtain ⟨-, blank, blanks, -⟩ := nextLine_some next
  have opens := dropPrefix_length dropped
  have tags := dropPrefix_length stripped
  have lines := congrArg List.length blanks
  have text : line.length = (x.1 ++ fence ++ x.2).length :=
    congrArg List.length (upTo_eq_some found)
  have three : fence.length = 3 := by decide
  simp only [List.length_append] at lines text
  refine ⟨rfl, ?_, ?_⟩ <;> omega

/-- Finds the blocks for a tool. -/
def blocksFor (tool : Tool) : Finder Char Action where
  find := blockAt tool
  pos h := (blockAt_sound h).2.1
  within h := (blockAt_sound h).2.2

/-- Finds the blocks for both tools. -/
def allBlocks : Finder Char Action where
  find cs := (blockAt .python cs).or (blockAt .command cs)
  pos h := by
    rcases Option.or_eq_some_iff.1 h with here | ⟨-, here⟩
    · exact (blockAt_sound here).2.1
    · exact (blockAt_sound here).2.1
  within h := by
    rcases Option.or_eq_some_iff.1 h with here | ⟨-, here⟩
    · exact (blockAt_sound here).2.2
    · exact (blockAt_sound here).2.2

/-- The executable blocks of a message, read from left to right without overlap. -/
def blocks (text : List Char) : List (Found Action) := read allBlocks text

/-- No text starts with blocks for both tools. -/
theorem blockAt_alone (cs : List Char) :
    blockAt .python cs = none ∨ blockAt .command cs = none := by
  unfold blockAt
  cases cs.dropPrefix? fence with
  | none => exact .inl rfl
  | some opened =>
    cases opened with
    | nil => exact .inl rfl
    | cons c opened =>
      by_cases python : c = 'p'
      · right
        subst python
        rfl
      · left
        have first : (c == 'p') = false := by simpa using python
        simp [tags, blockFrom, List.dropPrefix?, first]

theorem joins : Joins allBlocks (blocksFor .python) (blocksFor .command) (·.tool.isPython) where
  find := by
    intro cs x
    show (blockAt .python cs).or (blockAt .command cs) = some x ↔
      blockAt .python cs = some x ∨ blockAt .command cs = some x
    rcases blockAt_alone cs with none | none <;> simp [none]
  of_left h := by rw [(blockAt_sound h).1]; rfl
  of_right h := by rw [(blockAt_sound h).1]; rfl

theorem findSome_cons {α β : Type} (f : α → Option β) (a : α) (as : List α) :
    (a :: as).findSome? f = (f a).or (as.findSome? f) := by
  rw [List.findSome?_cons]
  cases f a <;> rfl

theorem find_pythonBlock (cs : List Char) :
    (pythonBlock.find cs).map (fun x => (actionOf .python x.1, x.2)) =
      (blockAt .python cs).map fun x => (x.1.trimmed, x.2) := by
  show (((cs.dropPrefix? fence).bind fun opened => _).map _) = _
  rw [blockAt]
  cases cs.dropPrefix? fence with
  | none => rfl
  | some opened =>
    have tag := fun tag => run_tag .python cs.length opened tag none
    simp only [Option.bind_some, tags, findSome_cons, List.findSome?_nil, Option.or_none,
      Option.map_or, ← tag]
    rw [← Option.map_or]
    rfl

theorem find_shellBlock (cs : List Char) :
    (shellBlock.find cs).map (fun x => (actionOf .command x.1, x.2)) =
      (blockAt .command cs).map fun x => (x.1.trimmed, x.2) := by
  show (((cs.dropPrefix? fence).bind fun opened => _).map _) = _
  rw [blockAt]
  cases cs.dropPrefix? fence with
  | none => rfl
  | some opened =>
    have tag := fun tag => run_tag .command cs.length opened tag none
    simp only [Option.bind_some, tags, findSome_cons, List.findSome?_nil, Option.or_none,
      Option.map_or, ← tag]
    rw [← Option.map_or, ← Option.map_or]
    rfl

/-! ## The plan and the blocks -/

/-- The searches find the blocks for their tools, without the blank lines. -/
theorem plan_eq (text : List Char) :
    plan text = (read (blocksFor .python) text).map (Found.map Action.trimmed) ++
      (read (blocksFor .command) text).map (Found.map Action.trimmed) := by
  let trimmed (tool : Tool) : Finder Char Action :=
    { find := fun cs => (blockAt tool cs).map fun x => (x.1.trimmed, x.2)
      pos := fun h => by
        obtain ⟨x, found, same⟩ := Option.map_eq_some_iff.1 h
        cases same
        exact (blockAt_sound found).2.1
      within := fun h => by
        obtain ⟨x, found, same⟩ := Option.map_eq_some_iff.1 h
        cases same
        exact (blockAt_sound found).2.2 }
  have blocks : ∀ tool, read (trimmed tool) text =
      (read (blocksFor tool) text).map (Found.map Action.trimmed) :=
    fun tool => read_map (fun cs => rfl) text
  have python : read (trimmed .python) text =
      (read (pythonBlock.finder pythonBlock_nonempty) text).map (Found.map (actionOf .python)) :=
    read_map (fun cs => (find_pythonBlock cs).symm) text
  have shell : read (trimmed .command) text =
      (read (shellBlock.finder shellBlock_nonempty) text).map (Found.map (actionOf .command)) :=
    read_map (fun cs => (find_shellBlock cs).symm) text
  rw [plan, ← python, ← shell, blocks, blocks]

/-- A message whose blocks the two searches find in order.  No block for Python stands behind
one for the shell, none begins with a blank line, and nothing opens a block of the other
language before the block has ended. -/
structure Orderly (text : List Char) : Prop where
  ordered : (blocks text).Pairwise fun b b' =>
    b'.value.tool = .python → b.value.tool = .python
  solid : ∀ b ∈ blocks text, nextLine b.value.code = none
  apart : ∀ b ∈ blocks text, ∀ i, b.start < i → i < b.stop →
    ∀ tool, tool ≠ b.value.tool → blockAt tool (text.drop i) = none

theorem length_dropBlankLines_le (cs : List Char) : (dropBlankLines cs).length ≤ cs.length := by
  induction cs with
  | nil => exact Nat.le_refl _
  | cons c cs ih =>
    rw [dropBlankLines]
    split
    · exact Nat.le_succ_of_le ih
    · exact Nat.le_refl _

/-- Only a text whose first line is not blank stays as it is. -/
theorem dropBlankLines_eq_self {cs : List Char} : dropBlankLines cs = cs ↔ nextLine cs = none := by
  constructor
  · intro same
    cases next : nextLine cs with
    | none => rfl
    | some rest =>
      cases cs with
      | nil => cases next
      | cons c cs =>
        have short := length_dropBlankLines_le cs
        rw [dropBlankLines, next, Option.isSome_some, if_pos rfl] at same
        rw [same, List.length_cons] at short
        omega
  · exact dropBlankLines_of_none

/-- Two lists follow each other as the entries of one kind and those of the other. -/
theorem filter_append_filter {α : Type} {p : α → Bool} {l : List α}
    (ordered : l.Pairwise fun a b => p b = true → p a = true) :
    l.filter p ++ l.filter (fun a => !p a) = l := by
  induction l with
  | nil => rfl
  | cons a l ih =>
    obtain ⟨first, rest⟩ := List.pairwise_cons.1 ordered
    cases pa : p a with
    | true => simp [pa, ih rest]
    | false =>
      have none : ∀ b ∈ l, p b = false := by
        intro b hb
        cases pb : p b with
        | false => rfl
        | true => exact absurd (first b hb pb) (by simp [pa])
      have left : l.filter p = [] := by simpa [List.filter_eq_nil_iff] using none
      have right : l.filter (fun a => !p a) = l := by simpa [List.filter_eq_self] using none
      simp [pa, left, right]

section

variable {text : List Char}

/-- What a search alone reads is what stands for its tool among all blocks, if nothing for the
tool begins inside of another block. -/
theorem Orderly.read_eq (h : Orderly text) (tool : Tool) :
    read (blocksFor tool) text = (blocks text).filter fun b => b.value.tool = tool := by
  have whole := reads_read allBlocks text
  cases tool with
  | python =>
    have part := joins.reads_left whole fun m hm side i starts stops =>
      h.apart m hm i starts stops .python (by intro same; rw [← same] at side; cases side)
    rw [(reads_read _ text).unique part]
    exact List.filter_congr fun m _ => by cases m.value.tool <;> rfl
  | command =>
    have part := joins.symm.reads_left whole fun m hm side i starts stops =>
      h.apart m hm i starts stops .command (by intro same; rw [← same] at side; cases side)
    rw [(reads_read _ text).unique part]
    exact List.filter_congr fun m _ => by cases m.value.tool <;> rfl

theorem map_trimmed {found : List (Found Action)}
    (solid : ∀ m ∈ found, nextLine m.value.code = none) :
    found.map (Found.map Action.trimmed) = found := by
  have same : ∀ m ∈ found, m.map Action.trimmed = m := by
    intro m hm
    have code := dropBlankLines_of_none (solid m hm)
    show (⟨m.start, m.size, ⟨m.value.tool, dropBlankLines m.value.code⟩⟩ : Found Action) = m
    rw [code]
  rw [List.map_congr_left same, List.map_id']

theorem Orderly.faithful (h : Orderly text) : plan text = blocks text := by
  have kinds : (blocks text).Pairwise fun b b' =>
      decide (b'.value.tool = .python) = true → decide (b.value.tool = .python) = true :=
    h.ordered.imp fun before python => decide_eq_true (before (of_decide_eq_true python))
  have others : (blocks text).filter (fun b => decide (b.value.tool = .command)) =
      (blocks text).filter fun b => !decide (b.value.tool = .python) :=
    List.filter_congr fun b _ => by cases b.value.tool <;> rfl
  have solid : ∀ p : Found Action → Bool, ∀ m ∈ (blocks text).filter p,
      nextLine m.value.code = none :=
    fun p m hm => h.solid m (List.mem_filter.1 hm).1
  rw [plan_eq, h.read_eq, h.read_eq, map_trimmed (solid _), map_trimmed (solid _), others,
    filter_append_filter kinds]

/-- What the searches find for a tool is not trimmed when it is a block of the message. -/
theorem solid_of_faithful (faithful : plan text = blocks text) {tool : Tool} {m : Found Action}
    (hm : m ∈ read (blocksFor tool) text) :
    m.map Action.trimmed = m ∧ m ∈ blocks text ∧ m.value.tool = tool := by
  have found := (reads_read (blocksFor tool) text).sound m hm
  have isTool : m.value.tool = tool := (blockAt_sound found).1
  have planned : m.map Action.trimmed ∈ blocks text := by
    rw [← faithful, plan_eq]
    cases tool with
    | python => exact List.mem_append_left _ (List.mem_map_of_mem hm)
    | command => exact List.mem_append_right _ (List.mem_map_of_mem hm)
  have whole := (reads_read allBlocks text).sound _ planned
  have alone : (blocksFor tool).find (text.drop m.start) = some (m.value.trimmed, m.size) := by
    cases tool with
    | python =>
      refine joins.find_left whole ?_
      show m.value.tool.isPython = true
      rw [isTool]
      rfl
    | command =>
      refine joins.symm.find_left whole ?_
      show (!m.value.tool.isPython) = true
      rw [isTool]
      rfl
  rw [found] at alone
  have value : m.value.trimmed = m.value := (congrArg Prod.fst (Option.some.inj alone)).symm
  have same : m.map Action.trimmed = m := by
    show (⟨m.start, m.size, m.value.trimmed⟩ : Found Action) = m
    rw [value]
  exact ⟨same, same ▸ planned, isTool⟩

/-- Then the blocks are those for Python and those for the shell. -/
theorem blocks_of_faithful (faithful : plan text = blocks text) :
    blocks text = read (blocksFor .python) text ++ read (blocksFor .command) text := by
  have whole : ∀ tool, (read (blocksFor tool) text).map (Found.map Action.trimmed) =
      read (blocksFor tool) text := by
    intro tool
    rw [List.map_congr_left fun m hm => (solid_of_faithful faithful hm).1, List.map_id']
  rw [← faithful, plan_eq, whole, whole]

theorem orderly_of_faithful (faithful : plan text = blocks text) : Orderly text := by
  have both := blocks_of_faithful faithful
  have python : ∀ m ∈ read (blocksFor .python) text, m.value.tool = .python :=
    fun m hm => (solid_of_faithful faithful hm).2.2
  have command : ∀ m ∈ read (blocksFor .command) text, m.value.tool = .command :=
    fun m hm => (solid_of_faithful faithful hm).2.2
  have whole := reads_read allBlocks text
  have pythonPart : (blocks text).filter (fun m => m.value.tool.isPython) =
      read (blocksFor .python) text := by
    rw [both, List.filter_append, List.filter_eq_self.2, List.filter_eq_nil_iff.2, List.append_nil]
    · intro m hm
      simp [command m hm, Tool.isPython]
    · intro m hm
      simp [python m hm, Tool.isPython]
  have commandPart : (blocks text).filter (fun m => !m.value.tool.isPython) =
      read (blocksFor .command) text := by
    rw [both, List.filter_append, List.filter_eq_nil_iff.2, List.filter_eq_self.2, List.nil_append]
    · intro m hm
      simp [command m hm, Tool.isPython]
    · intro m hm
      simp [python m hm, Tool.isPython]
  refine ⟨?_, ?_, ?_⟩
  · rw [both, List.pairwise_append]
    refine ⟨?_, ?_, ?_⟩
    · exact List.pairwise_of_forall_mem_list fun m hm _ _ _ => python m hm
    · exact List.pairwise_of_forall_mem_list fun m _ m' hm' shell => by
        rw [command m' hm'] at shell
        cases shell
    · exact fun m hm _ _ _ => python m hm
  · intro b hb
    have found : ∃ tool, b ∈ read (blocksFor tool) text := by
      rw [both] at hb
      exact (List.mem_append.1 hb).elim (fun h => ⟨_, h⟩) fun h => ⟨_, h⟩
    obtain ⟨tool, hm⟩ := found
    have same := (solid_of_faithful faithful hm).1
    exact dropBlankLines_eq_self.1 (congrArg (·.value.code) same)
  · intro b hb i starts stops tool other
    cases tool with
    | python =>
      have part := reads_read (blocksFor .python) text
      rw [← pythonPart] at part
      refine whole.outside (·.tool.isPython) part hb ?_ starts stops
      cases side : b.value.tool with
      | python => exact absurd side.symm other
      | command => rfl
    | command =>
      have part := reads_read (blocksFor .command) text
      rw [← commandPart] at part
      refine whole.outside (!·.tool.isPython) part hb ?_ starts stops
      cases side : b.value.tool with
      | python => rfl
      | command => exact absurd side.symm other

end

/-- The two searches find the blocks of a message, each once, with its tool, its code and in
its order, exactly where the message is orderly. -/
theorem plan_faithful_iff (text : List Char) : plan text = blocks text ↔ Orderly text :=
  ⟨orderly_of_faithful, Orderly.faithful⟩

/-- A shell block is run behind the Python block that stands after it. -/
theorem planActions_disordered :
    planActions "```bash\nmake\n```\n```python\ntest()\n```" ≠
      (blocks "```bash\nmake\n```\n```python\ntest()\n```".toList).map toolAndCode := by
  decide +kernel

end CodeForge.Harness
