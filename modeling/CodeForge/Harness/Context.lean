import CodeForge.Contracts
import CodeForge.Lib.Window

/-!
# The context of a conversation

What the model is given of a conversation is bounded.  While the history and the
current input fit `max_chars`, all of it is sent.  Otherwise the newest messages
within half of `max_chars` stay as they are, at least one, and the messages
before them are compressed into a summary of at most a third.

The history is split exactly (`build_splits`): the summary is of the messages
that are not sent and of no others.  The shares do not leave room for the
current input, so what is sent can be longer than `max_chars` (`build_exceeds`).
`build_within_iff` says when it is not.
-/

namespace CodeForge.Harness

open Lib

/-! ## Messages -/

/-- A message is a dictionary of texts. -/
abbrev Message := List (String × String)

namespace Message

/-- `message.get(key, default)` -/
def get (m : Message) (key default : String) : String := (m.lookup key).getD default

/-- A message with a role and a content. -/
def mk (role content : String) : Message := [("role", role), ("content", content)]

/-- `len(message.get("content", ""))` -/
def contentSize (m : Message) : Nat := (m.get "content" "").length

@[simp] theorem contentSize_mk (role content : String) :
    (mk role content).contentSize = content.length := rfl

end Message

/-- `_size` -/
def size (history : List Message) : Nat := Window.total Message.contentSize history

/-! ## The summary -/

/-- `text[:n]` -/
def cut (n : Nat) (text : String) : String := String.ofList (text.toList.take n)

@[simp] theorem length_cut (n : Nat) (text : String) : (cut n text).length = min n text.length := by
  simp [cut, String.length_toList]

/-- `sep.join(texts)` -/
def join (sep : List Char) (texts : List String) : String :=
  String.ofList (sep.intercalate (texts.map String.toList))

/-- `" ".join(text.split())` -/
def squeeze (text : String) : String :=
  join [' '] (((text.toList.splitOnP isSpace).filter (· ≠ [])).map String.ofList)

/-- The line of a message in the summary.  A blank message has none. -/
def summaryLine (m : Message) : Option String :=
  let content := squeeze (m.get "content" "")
  if content = "" then none else some (m.get "role" "unknown" ++ ": " ++ cut 500 content)

/-- `_summarize` -/
def summarize (messages : List Message) (limit : Nat) : String :=
  cut limit (join ['\n'] (messages.filterMap summaryLine))

/-! ## Building the context -/

/-- The budget is never below 2000 characters. -/
structure ConversationContextManager where
  maxChars : Nat
  floor : 2000 ≤ maxChars

namespace ConversationContextManager

/-- `ConversationContextManager(max_chars)` -/
def ofMaxChars (maxChars : Int) : ConversationContextManager where
  maxChars := (max 2000 maxChars).toNat
  floor := by omega

variable (manager : ConversationContextManager)

def recentBudget : Nat := manager.maxChars / 2

def summaryBudget : Nat := max 500 (manager.maxChars / 3)

/-- What precedes the summary in its message. -/
def heading : String := "Earlier conversation summary:\n"

/-- The message with the summary, if there is anything to say. -/
def summaryMessage (older : List Message) : List Message :=
  let summary := summarize older manager.summaryBudget
  if summary = "" then [] else [.mk "system" (heading ++ summary)]

/-- `build` -/
def build (systemPrompt : String) (history : List Message) (currentInput : String) :
    List Message :=
  let current := Message.mk "user" currentInput
  let system := Message.mk "system" systemPrompt
  if size history + currentInput.length ≤ manager.maxChars then
    system :: history ++ [current]
  else
    let recent := Window.newest Message.contentSize manager.recentBudget history
    let older := history.take (history.length - recent.length)
    system :: manager.summaryMessage older ++ recent ++ [current]

/-! ## The history is split -/

/-- Below its budget the history and the input are sent as they are. -/
theorem build_fits {systemPrompt currentInput : String} {history : List Message}
    (fits : size history + currentInput.length ≤ manager.maxChars) :
    manager.build systemPrompt history currentInput =
      .mk "system" systemPrompt :: history ++ [.mk "user" currentInput] :=
  if_pos fits

/-- Above it, whatever way the history is split at the window of recent messages, that is how
it is sent. -/
theorem build_compressed {systemPrompt currentInput : String} {older recent : List Message}
    (large : manager.maxChars < size (older ++ recent) + currentInput.length)
    (kept : Window.Kept Message.contentSize manager.recentBudget (older ++ recent) recent) :
    manager.build systemPrompt (older ++ recent) currentInput =
      .mk "system" systemPrompt :: manager.summaryMessage older ++ recent ++
        [.mk "user" currentInput] := by
  have window : Window.newest Message.contentSize manager.recentBudget (older ++ recent) = recent :=
    (Window.newest_kept _ _ _).unique kept
  have before : (older ++ recent).take ((older ++ recent).length - recent.length) = older := by
    simp
  simp only [build, if_neg (Nat.not_le.2 large), window, before]

theorem splits (history : List Message) :
    ∃ older recent, history = older ++ recent ∧
      Window.Kept Message.contentSize manager.recentBudget history recent := by
  have kept := Window.newest_kept Message.contentSize manager.recentBudget history
  obtain ⟨older, split⟩ := kept.suffix
  exact ⟨older, _, split.symm, kept⟩

theorem summarize_within (older : List Message) :
    (summarize older manager.summaryBudget).length ≤ manager.summaryBudget := by
  rw [summarize, length_cut]
  exact Nat.min_le_left _ _

/-- While history and input fit, they are sent unchanged and in order.  Otherwise the history
is split into what is summarised and what is kept. -/
theorem build_splits (systemPrompt : String) (history : List Message) (currentInput : String) :
    (size history + currentInput.length ≤ manager.maxChars →
      manager.build systemPrompt history currentInput =
        .mk "system" systemPrompt :: history ++ [.mk "user" currentInput]) ∧
    (manager.maxChars < size history + currentInput.length →
      ∃ older recent, history = older ++ recent ∧
        Window.Kept Message.contentSize (manager.maxChars / 2) history recent ∧
        (summarize older (max 500 (manager.maxChars / 3))).length ≤
          max 500 (manager.maxChars / 3) ∧
        manager.build systemPrompt history currentInput =
          .mk "system" systemPrompt ::
            (let summary := summarize older (max 500 (manager.maxChars / 3))
              if summary = "" then []
              else [.mk "system" ("Earlier conversation summary:\n" ++ summary)]) ++
            recent ++ [.mk "user" currentInput]) := by
  refine ⟨manager.build_fits, fun large => ?_⟩
  obtain ⟨older, recent, rfl, kept⟩ := manager.splits history
  exact ⟨older, recent, rfl, kept, manager.summarize_within older,
    manager.build_compressed large kept⟩

/-! ## The budget -/

/-- The length of the lines of the messages that are not blank, one newline between two. -/
def linesSize (older : List Message) : Nat :=
  let lines := older.filterMap summaryLine
  (lines.map String.length).sum + (lines.length - 1)

/-- What the summary of some messages takes of the budget, with its heading. -/
def summaryShare (older : List Message) : Nat :=
  if older.filterMap summaryLine = [] then 0
  else heading.length + min manager.summaryBudget (linesSize older)

theorem length_join_newline (x : String) (texts : List String) :
    (join ['\n'] (x :: texts)).length = ((x :: texts).map String.length).sum + texts.length := by
  induction texts generalizing x with
  | nil => simp [join]
  | cons y texts ih =>
    have step : (join ['\n'] (x :: y :: texts)).length =
        x.length + 1 + (join ['\n'] (y :: texts)).length := by
      simp only [join, List.map_cons, List.intercalate_cons_cons, String.length_ofList,
        List.length_append, String.length_toList]
      rfl
    rw [step, ih]
    simp only [List.map_cons, List.sum_cons, List.length_cons]
    omega

theorem summaryLine_ne_empty {m : Message} {line : String} (h : summaryLine m = some line) :
    0 < line.length := by
  dsimp only [summaryLine] at h
  split at h
  · cases h
  · cases h
    simp only [String.length_append]
    have colon : (": " : String).length = 2 := by decide
    omega

theorem size_summaryMessage (older : List Message) :
    size (manager.summaryMessage older) = manager.summaryShare older := by
  unfold summaryMessage summaryShare linesSize
  dsimp only
  cases lines : older.filterMap summaryLine with
  | nil => simp [summarize, lines, join, cut, size, List.intercalate]
  | cons x texts =>
    have length : (summarize older manager.summaryBudget).length =
        min manager.summaryBudget (((x :: texts).map String.length).sum + texts.length) := by
      rw [summarize, length_cut, lines, length_join_newline]
    have long : 0 < x.length := by
      obtain ⟨m, -, line⟩ := List.mem_filterMap.1 (lines ▸ List.mem_cons_self)
      exact summaryLine_ne_empty line
    have some : summarize older manager.summaryBudget ≠ "" := by
      intro none
      have budget : 500 ≤ manager.summaryBudget := Nat.le_max_left _ _
      rw [none] at length
      simp at length
      omega
    rw [if_neg some, if_neg (by simp)]
    simp [size, length]

theorem size_build_compressed {systemPrompt currentInput : String} {older recent : List Message}
    (large : manager.maxChars < size (older ++ recent) + currentInput.length)
    (kept : Window.Kept Message.contentSize manager.recentBudget (older ++ recent) recent) :
    size (manager.build systemPrompt (older ++ recent) currentInput).tail =
      manager.summaryShare older + size recent + currentInput.length := by
  rw [manager.build_compressed large kept, ← manager.size_summaryMessage]
  simp [size]
  omega

/-- Either all of it fits, or the input fits beside the window of recent messages and the
summary of the others. -/
def Roomy (history : List Message) (currentInput : String) : Prop :=
  size history + currentInput.length ≤ manager.maxChars ∨
    ∃ older recent, history = older ++ recent ∧
      Window.Kept Message.contentSize manager.recentBudget history recent ∧
      manager.summaryShare older + size recent + currentInput.length ≤ manager.maxChars

/-- What is sent after the system prompt stays in the budget exactly where there is room for
the input. -/
theorem build_within_iff (systemPrompt : String) (history : List Message)
    (currentInput : String) :
    size (manager.build systemPrompt history currentInput).tail ≤ manager.maxChars ↔
      manager.Roomy history currentInput := by
  rcases Nat.lt_or_ge manager.maxChars (size history + currentInput.length) with large | fits
  · obtain ⟨older, recent, rfl, kept⟩ := manager.splits history
    rw [manager.size_build_compressed large kept]
    constructor
    · exact fun within => .inr ⟨older, recent, rfl, kept, within⟩
    · rintro (fits | ⟨older', recent', split, kept', within⟩)
      · exact absurd fits (Nat.not_le.2 large)
      · cases kept.unique kept'
        cases List.append_cancel_right split
        exact within
  · refine iff_of_true ?_ (.inl fits)
    rw [manager.build_fits fits]
    simpa [size] using fits

/-- An input that leaves both shares free fits, unless the last message alone is too large. -/
theorem Roomy.of_shares {history : List Message} {currentInput : String}
    (small : ∀ older m, history = older ++ [m] → m.contentSize ≤ manager.recentBudget)
    (room : manager.recentBudget + heading.length + manager.summaryBudget + currentInput.length ≤
      manager.maxChars) : manager.Roomy history currentInput := by
  obtain ⟨older, recent, split, kept⟩ := manager.splits history
  have window : size recent ≤ manager.recentBudget := by
    cases kept with
    | last ends large => exact absurd (small _ _ ends) (by omega)
    | longest _ h => exact h.fits
  have share : manager.summaryShare older ≤ heading.length + manager.summaryBudget := by
    unfold summaryShare
    split <;> omega
  exact .inr ⟨older, recent, split, kept, by omega⟩

/-- An input of the whole budget is sent with the message before it. -/
theorem build_exceeds :
    ¬∀ (maxChars : Int) (systemPrompt : String) (history : List Message) (currentInput : String),
      currentInput.length ≤ (ofMaxChars maxChars).maxChars →
        size ((ofMaxChars maxChars).build systemPrompt history currentInput).tail ≤
          (ofMaxChars maxChars).maxChars := by
  intro within
  let input := String.ofList (List.replicate 2000 'b')
  have length : input.length = 2000 := by
    simp only [input, String.length_ofList, List.length_replicate]
  have kept : Window.Kept Message.contentSize (ofMaxChars 2000).recentBudget
      ([] ++ [Message.mk "user" "a"]) [Message.mk "user" "a"] :=
    Window.newest_kept _ _ [Message.mk "user" "a"]
  have large : 2000 < size ([] ++ [Message.mk "user" "a"]) + input.length := by
    rw [length]
    decide
  have bound := within 2000 "" ([] ++ [Message.mk "user" "a"]) input length.le
  rw [(ofMaxChars 2000).size_build_compressed large kept, length] at bound
  exact absurd bound (by decide)

end ConversationContextManager

end CodeForge.Harness
