import CodeForge.Lib.Scan
import Mathlib.Data.List.Infix

/-!
# Regular expressions with backtracking

The patterns of a regular expression as a matcher with backtracking tries them:
the first of two alternatives first, a greedy repetition from its longest match
down, a reluctant one from its shortest match up.  `run` tries a pattern and
hands what is left of the text to what comes next; when that fails, the pattern
goes on to its next match.

A pattern keeps what its last group has matched.  `finder` finds a pattern at the
start of a text, so that `Scan.read` is `finditer`.
-/

namespace Lib

open Scan

inductive Pattern where
  | text (s : List Char)
  | one (p : Char → Bool)
  | seq (a b : Pattern)
  | alt (a b : Pattern)
  /-- `p*` -/
  | many (p : Char → Bool)
  /-- `p*?` -/
  | few (p : Char → Bool)
  | group (a : Pattern)

namespace Pattern

variable {R : Type}

/-- What is done with the rest of the text and what the group has matched. -/
abbrev Next (R : Type) := List Char → Option (List Char) → Option R

/-- Go on behind as many entries as possible. -/
def greedy (p : Char → Bool) (next : List Char → Option R) : List Char → Option R
  | [] => next []
  | c :: cs => (if p c then greedy p next cs else none).or (next (c :: cs))

/-- Go on behind as few entries as possible. -/
def reluctant (p : Char → Bool) (next : List Char → Option R) : List Char → Option R
  | [] => next []
  | c :: cs => (next (c :: cs)).or (if p c then reluctant p next cs else none)

/-- Try a pattern at the start of a text. -/
def run : Pattern → Next R → Next R
  | .text s, next, cs, g => (cs.dropPrefix? s).bind fun rest => next rest g
  | .one _, _, [], _ => none
  | .one p, next, c :: cs, g => if p c then next cs g else none
  | .seq a b, next, cs, g => a.run (b.run next) cs g
  | .alt a b, next, cs, g => (a.run next cs g).or (b.run next cs g)
  | .many p, next, cs, g => greedy p (fun rest => next rest g) cs
  | .few p, next, cs, g => reluctant p (fun rest => next rest g) cs
  | .group a, next, cs, g =>
      a.run (fun rest _ => next rest (some (cs.take (cs.length - rest.length)))) cs g

/-- No match is shorter. -/
def minLength : Pattern → Nat
  | .text s => s.length
  | .one _ => 1
  | .seq a b => a.minLength + b.minLength
  | .alt a b => min a.minLength b.minLength
  | .many _ => 0
  | .few _ => 0
  | .group a => a.minLength

/-! ## A match is a part of the text -/

theorem greedy_sound {p : Char → Bool} {next : List Char → Option R} {x : R} (cs : List Char)
    (h : greedy p next cs = some x) : ∃ rest, rest <:+ cs ∧ next rest = some x := by
  induction cs with
  | nil => exact ⟨[], List.suffix_rfl, h⟩
  | cons c cs ih =>
    rw [greedy, Option.or_eq_some_iff] at h
    rcases h with more | ⟨-, here⟩
    · split at more
      · obtain ⟨rest, part, goes⟩ := ih more
        exact ⟨rest, part.trans (List.suffix_cons c cs), goes⟩
      · cases more
    · exact ⟨_, List.suffix_rfl, here⟩

theorem reluctant_sound {p : Char → Bool} {next : List Char → Option R} {x : R} (cs : List Char)
    (h : reluctant p next cs = some x) : ∃ rest, rest <:+ cs ∧ next rest = some x := by
  induction cs with
  | nil => exact ⟨[], List.suffix_rfl, h⟩
  | cons c cs ih =>
    rw [reluctant, Option.or_eq_some_iff] at h
    rcases h with here | ⟨-, more⟩
    · exact ⟨_, List.suffix_rfl, here⟩
    · split at more
      · obtain ⟨rest, part, goes⟩ := ih more
        exact ⟨rest, part.trans (List.suffix_cons c cs), goes⟩
      · cases more

/-- Where a pattern succeeds, it has taken at least so much from the start of the text. -/
theorem run_sound (r : Pattern) :
    ∀ {next : Next R} {cs : List Char} {g : Option (List Char)} {x : R}, r.run next cs g = some x →
      ∃ rest g', rest.length + r.minLength ≤ cs.length ∧ next rest g' = some x := by
  induction r with
  | text s =>
    intro next cs g x h
    obtain ⟨rest, dropped, goes⟩ := Option.bind_eq_some_iff.1 h
    obtain ⟨s', split, same⟩ := List.dropPrefix?_eq_some_iff.1 dropped
    rw [eq_of_beq same] at split
    exact ⟨rest, g, by simp [minLength, split]; omega, goes⟩
  | one p =>
    intro next cs g x h
    cases cs with
    | nil => cases h
    | cons c cs =>
      rw [run] at h
      split at h
      · exact ⟨cs, g, by simp [minLength], h⟩
      · cases h
  | seq a b iha ihb =>
    intro next cs g x h
    obtain ⟨mid, g₁, first, h⟩ := iha h
    obtain ⟨rest, g₂, second, goes⟩ := ihb h
    exact ⟨rest, g₂, by simp only [minLength]; omega, goes⟩
  | alt a b iha ihb =>
    intro next cs g x h
    rw [run, Option.or_eq_some_iff] at h
    rcases h with left | ⟨-, right⟩
    · obtain ⟨rest, g', long, goes⟩ := iha left
      exact ⟨rest, g', by simp only [minLength]; omega, goes⟩
    · obtain ⟨rest, g', long, goes⟩ := ihb right
      exact ⟨rest, g', by simp only [minLength]; omega, goes⟩
  | many p =>
    intro next cs g x h
    obtain ⟨rest, part, goes⟩ := greedy_sound cs h
    exact ⟨rest, g, part.length_le, goes⟩
  | few p =>
    intro next cs g x h
    obtain ⟨rest, part, goes⟩ := reluctant_sound cs h
    exact ⟨rest, g, part.length_le, goes⟩
  | group a ih =>
    intro next cs g x h
    obtain ⟨rest, -, long, goes⟩ := ih h
    exact ⟨rest, _, long, goes⟩

/-- The group and the length of the match at the start of a text. -/
def find (r : Pattern) (cs : List Char) : Option (Option (List Char) × Nat) :=
  r.run (fun rest g => some (g, cs.length - rest.length)) cs none

/-- Finds a pattern that does not match nothing. -/
def finder (r : Pattern) (nonempty : 0 < r.minLength) : Finder Char (Option (List Char)) where
  find := r.find
  pos h := by
    obtain ⟨rest, g, long, goes⟩ := r.run_sound h
    cases goes
    omega
  within h := by
    obtain ⟨rest, g, long, goes⟩ := r.run_sound h
    cases goes
    omega

/-! ## Up to the next occurrence -/

/-- The text before the first occurrence of such a text, and the text behind it. -/
def upTo (s : List Char) : List Char → Option (List Char × List Char)
  | [] => (List.dropPrefix? [] s).map fun rest => ([], rest)
  | c :: cs =>
      ((List.dropPrefix? (c :: cs) s).map fun rest => ([], rest)).or
        ((upTo s cs).map fun x => (c :: x.1, x.2))

theorem reluctant_upTo (s before : List Char) (f : List Char → Option (List Char) → R)
    (cs : List Char) :
    ∀ whole, whole = before ++ cs →
      reluctant (fun _ => true) (fun rest => (rest.dropPrefix? s).bind fun behind =>
          some (f behind (some (whole.take (whole.length - rest.length))))) cs =
        (upTo s cs).map fun x => f x.2 (some (before ++ x.1)) := by
  induction cs generalizing before with
  | nil =>
    rintro whole rfl
    cases h : List.dropPrefix? [] s <;> simp [reluctant, upTo, h]
  | cons c cs ih =>
    rintro whole rfl
    have later := ih (before ++ [c]) (before ++ c :: cs) (by simp)
    cases h : List.dropPrefix? (c :: cs) s with
    | none =>
      simp only [reluctant, upTo, h, Option.bind_none, Option.map_none, Option.none_or, if_true,
        Option.map_map, later]
      simp [Function.comp_def]
    | some behind => simp [reluctant, upTo, h]

/-- `(.*?)` and a text behind it match up to the first occurrence of the text. -/
theorem run_upTo (s cs : List Char) (g : Option (List Char))
    (f : List Char → Option (List Char) → R) :
    (seq (group (few fun _ => true)) (text s)).run (fun rest g => some (f rest g)) cs g =
      (upTo s cs).map fun x => f x.2 (some x.1) :=
  reluctant_upTo s [] f cs cs rfl

end Pattern

end Lib
