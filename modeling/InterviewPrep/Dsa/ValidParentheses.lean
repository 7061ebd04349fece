import InterviewPrep.Lib.Brackets
import InterviewPrep.Lib.JavaScript

/-!
# Valid parentheses

`isValidParentheses` of `dsa/evaluate_postfix_expression/answer.ts`. The stack holds the
opening brackets that are not closed yet, and every other character is passed over, so the
loop is the stack machine of `Lib/Brackets.lean` on the brackets of the string
(`foldlM_turn`). It accepts the words of the grammar (`isValidParentheses_iff`).
-/

namespace InterviewPrep.ValidParentheses

open JavaScript (CodeUnits units codePoints)

/-! ## The program -/

-- the escapes are those of the curly brackets
def pairs : List (CodeUnits × CodeUnits) :=
  [(units ")", units "("), (units "]", units "["), (units "\x7d", units "\x7b")]

/-- The turn of the loop for a character, or nothing if it returns `false`. The top of the
stack comes first. -/
def turn (stack : List CodeUnits) (char : CodeUnits) : Option (List CodeUnits) :=
  if char = units "(" ∨ char = units "[" ∨ char = units "\x7b" then some (char :: stack)
  else if char = units ")" ∨ char = units "]" ∨ char = units "\x7d" then
    match stack with
    | [] => none
    | opening :: stack => if some opening ≠ pairs.lookup char then none else some stack
  else some stack

def isValidParentheses (input : CodeUnits) : Bool :=
  match (codePoints input).foldlM turn [] with
  | none => false
  | some stack => stack.length = 0

/-! ## Brackets -/

inductive Kind where
  | round
  | square
  | curly
deriving DecidableEq

instance : Fintype Kind := ⟨{.round, .square, .curly}, fun k => by cases k <;> decide⟩

/-- How a bracket is written. -/
def text : Bracket Kind → CodeUnits
  | .opening .round => units "("
  | .opening .square => units "["
  | .opening .curly => units "\x7b"
  | .closing .round => units ")"
  | .closing .square => units "]"
  | .closing .curly => units "\x7d"

/-- The bracket that a character is. -/
def bracket? (char : CodeUnits) : Option (Bracket Kind) :=
  [.opening .round, .opening .square, .opening .curly, .closing .round, .closing .square,
    .closing .curly].find? fun b => text b = char

/-- The brackets of a string, in order. -/
def brackets (input : CodeUnits) : List (Bracket Kind) :=
  input.filterMap fun unit => bracket? [unit]

theorem text_eq_of_bracket? {char : CodeUnits} {b : Bracket Kind} (h : bracket? char = some b) :
    text b = char := by
  unfold bracket? at h
  simpa using List.find?_some h

theorem bracket?_eq_none_iff {char : CodeUnits} :
    bracket? char = none ↔ ∀ b, text b ≠ char := by
  rw [bracket?, List.find?_eq_none]
  constructor
  · intro h b htext
    refine h b ?_ (decide_eq_true htext)
    cases b with
    | opening k => cases k <;> simp
    | closing k => cases k <;> simp
  · intro h b _ htext
    exact h b (of_decide_eq_true htext)

/-- A bracket is written in one code unit, which is no surrogate. -/
theorem exists_text_eq (b : Bracket Kind) : ∃ u, text b = [u] ∧
    JavaScript.isHighSurrogate u = false ∧ JavaScript.isLowSurrogate u = false := by
  cases b with
  | opening k => cases k <;> exact ⟨_, rfl, rfl, rfl⟩
  | closing k => cases k <;> exact ⟨_, rfl, rfl, rfl⟩

/-- So the brackets among the code points are those among the code units. -/
theorem filterMap_bracket?_codePoints (input : CodeUnits) :
    (codePoints input).filterMap bracket? = brackets input := by
  apply JavaScript.filterMap_codePoints
  · intro u v
    rw [bracket?_eq_none_iff]
    intro b htext
    rcases exists_text_eq b with ⟨w, hw, -⟩
    rw [hw] at htext
    cases htext
  · intro u hu
    rw [bracket?_eq_none_iff]
    intro b htext
    rcases exists_text_eq b with ⟨w, hw, hhigh, hlow⟩
    rw [hw, List.singleton_inj] at htext
    subst htext
    simp [hhigh, hlow] at hu

/-! ## The loop -/

theorem turn_of_bracket?_eq_none {char : CodeUnits} (h : bracket? char = none)
    (stack : List CodeUnits) : turn stack char = some stack := by
  rw [bracket?_eq_none_iff] at h
  unfold turn
  rw [if_neg, if_neg]
  · rintro (hround | hsquare | hcurly)
    · exact h (.closing .round) hround.symm
    · exact h (.closing .square) hsquare.symm
    · exact h (.closing .curly) hcurly.symm
  · rintro (hround | hsquare | hcurly)
    · exact h (.opening .round) hround.symm
    · exact h (.opening .square) hsquare.symm
    · exact h (.opening .curly) hcurly.symm

/-- The opening brackets of the kinds. -/
def opened (kinds : List Kind) : List CodeUnits := kinds.map fun k => text (.opening k)

theorem turn_text (kinds : List Kind) (b : Bracket Kind) :
    turn (opened kinds) (text b) = (Bracket.step kinds b).map opened := by
  cases b with
  | opening k => cases k <;> rfl
  | closing k =>
    cases kinds with
    | nil => cases k <;> rfl
    | cons k' kinds => cases k <;> cases k' <;> rfl

/-- On the brackets among the characters the loop is the stack machine. -/
theorem foldlM_turn (chars : List CodeUnits) (kinds : List Kind) :
    chars.foldlM turn (opened kinds) =
      (Bracket.read (chars.filterMap bracket?) kinds).map opened := by
  induction chars generalizing kinds with
  | nil => rfl
  | cons char chars ih =>
    rw [List.foldlM_cons]
    cases hchar : bracket? char with
    | none =>
      rw [turn_of_bracket?_eq_none hchar, List.filterMap_cons_none hchar]
      exact ih kinds
    | some b =>
      rw [List.filterMap_cons_some hchar, ← text_eq_of_bracket? hchar, turn_text,
        Bracket.read, List.foldlM_cons]
      cases Bracket.step kinds b with
      | none => rfl
      | some kinds => exact ih kinds

/-- A string is accepted exactly if its brackets are a word of the grammar. -/
theorem isValidParentheses_iff (input : CodeUnits) :
    isValidParentheses input = true ↔ brackets input ∈ (Bracket.grammar Kind).language := by
  have hrun : (codePoints input).foldlM turn [] =
      (Bracket.read (brackets input) []).map opened := by
    rw [← filterMap_bracket?_codePoints]
    exact foldlM_turn (codePoints input) []
  rw [Bracket.mem_language_iff_nested, isValidParentheses, hrun]
  change _ ↔ Bracket.Closes [] (brackets input)
  rw [← Bracket.read_eq_nil_iff]
  cases Bracket.read (brackets input) [] with
  | none => simp
  | some kinds => simp [opened]

example : isValidParentheses (units "a(b[c]\x7bd\x7d)") = true := by decide

end InterviewPrep.ValidParentheses
