import InterviewPrep.Lib.DoubleArithmetic
import InterviewPrep.Lib.Numerals
import InterviewPrep.Lib.Postfix

/-!
# Postfix evaluation

`evaluatePostfix` of `dsa/evaluate_postfix_expression/answer.py` and `answer.ts`: one loop
over a stack, with the number conversion and the arithmetic of each language. It is the
stack machine of `Lib/Postfix.lean` (`evaluatePostfix_spell`). In TypeScript the arithmetic
of doubles agrees with that of the integers as long as these are safe (`agree_exact`), so
there the function evaluates postfix notation (`evaluatePostfix_exact`).
-/

namespace InterviewPrep.EvaluatePostfix

open Postfix (Token Expr Meaning)

/-! ## The program -/

/-- How a call ends without a value: with an error code, or with an exception. -/
inductive Failure where
  | malformed
  | divisionByZero
  | overflowError
deriving DecidableEq

inductive Operator where
  | plus
  | minus
  | times
  | divide
deriving DecidableEq

namespace Operator

def text : Operator → String
  | plus => "+"
  | minus => "-"
  | times => "*"
  | divide => "/"

/-- The operator that a token is, if it is one of the four. -/
def ofText? (token : String) : Option Operator :=
  [plus, minus, times, divide].find? fun o => o.text = token

end Operator

/-- The conversion of tokens to numbers, which reads no operator as one, and the
arithmetic, which fails only in its own ways. -/
structure Language (V : Type) where
  number? : String → Option V
  apply : Operator → V → V → Except Failure V
  number?_operator : ∀ o : Operator, number? o.text = none
  apply_ne_malformed : ∀ o left right, apply o left right ≠ .error .malformed

namespace Language

variable {V : Type}

/-- The turn of the loop for a token. The top of the stack is its head. -/
def turn (language : Language V) (stack : List V) (token : String) : Except Failure (List V) :=
  -- the conversion is asked first, so a token is an operator only if it is no number
  match language.number? token with
  | some value => .ok (value :: stack)
  | none =>
    match Operator.ofText? token with
    | none => .error .malformed
    | some operator =>
      match stack with
      | right :: left :: stack => (language.apply operator left right).map (· :: stack)
      | _ => .error .malformed

def evaluatePostfix (language : Language V) (tokens : List String) : Except Failure V := do
  match ← tokens.foldlM language.turn [] with
  | [value] => .ok value
  | _ => .error .malformed

end Language

namespace Python

open Binary64

/-- `int(left / right)`. The quotient is rounded to a double. -/
def quotient (left right : ℤ) : Except Failure ℤ :=
  match JavaScript.Number.round ((left : ℚ) / right) with
  | .finite q => .ok (truncate q)
  | _ => .error .overflowError

def apply : Operator → ℤ → ℤ → Except Failure ℤ
  | .plus, left, right => .ok (left + right)
  | .minus, left, right => .ok (left - right)
  | .times, left, right => .ok (left * right)
  | .divide, left, right => if right = 0 then .error .divisionByZero else quotient left right

def language : Language ℤ where
  number? := Python.int
  apply := apply
  number?_operator o := by
    cases o <;> decide
  apply_ne_malformed o left right := by
    cases o with
    | plus => simp [apply]
    | minus => simp [apply]
    | times => simp [apply]
    | divide =>
      simp only [apply, quotient]
      split
      · simp
      · split
        · simp
        · simp

def evaluatePostfix (tokens : List String) : Except Failure ℤ := language.evaluatePostfix tokens

end Python

namespace TypeScript

open JavaScript

/-- `Number(token)`, unless it is `NaN`. -/
def number? (token : String) : Option Number :=
  if number token = .nan then none else some (number token)

def apply : Operator → Number → Number → Except Failure Number
  | .plus, left, right => .ok (left.add right)
  | .minus, left, right => .ok (left.sub right)
  | .times, left, right => .ok (left.mul right)
  | .divide, left, right =>
    if right = .finite 0 then .error .divisionByZero else .ok (left.div right).trunc

def language : Language Number where
  number? := number?
  apply := apply
  number?_operator o := by
    cases o <;> decide
  apply_ne_malformed o left right := by
    cases o with
    | plus => simp [apply]
    | minus => simp [apply]
    | times => simp [apply]
    | divide =>
      simp only [apply]
      split
      · simp
      · simp

def evaluatePostfix (tokens : List String) : Except Failure Number :=
  language.evaluatePostfix tokens

end TypeScript

/-! ## Spelled tokens -/

section Spelling

variable {V L : Type}

/-- The text of a token, from that of an operand. -/
def spell (text : L → String) : Token L Operator → String
  | .operand a => text a
  | .operator o => o.text

/-- What a language makes of operands and operators. -/
def Language.meaning (language : Language V) (text : L → String) :
    Meaning L Operator V Failure where
  value a :=
    match language.number? (text a) with
    | some value => .ok value
    | none => .error .malformed
  apply := language.apply
  malformed := .malformed

theorem Operator.ofText?_text (o : Operator) : ofText? o.text = some o := by
  cases o <;> decide

theorem Operator.ofText?_eq_some_iff {token : String} {o : Operator} :
    ofText? token = some o ↔ o.text = token := by
  constructor
  · intro h
    unfold ofText? at h
    simpa using List.find?_some h
  · rintro rfl
    exact ofText?_text o

/-- The loop is the stack machine, where no operand is spelled like an operator. -/
theorem turn_spell (language : Language V) {text : L → String}
    (htext : ∀ a, Operator.ofText? (text a) = none) (stack : List V)
    (token : Token L Operator) :
    language.turn stack (spell text token) = (language.meaning text).step stack token := by
  cases token with
  | operand a =>
    cases hvalue : language.number? (text a) with
    | none => simp [spell, Language.turn, Meaning.step, Language.meaning, hvalue, htext, Except.map]
    | some value => simp [spell, Language.turn, Meaning.step, Language.meaning, hvalue, Except.map]
  | operator o =>
    rw [spell, Language.turn, language.number?_operator, Operator.ofText?_text]
    rfl

theorem evaluatePostfix_spell (language : Language V) {text : L → String}
    (htext : ∀ a, Operator.ofText? (text a) = none) (tokens : List (Token L Operator)) :
    language.evaluatePostfix (tokens.map (spell text)) =
      (language.meaning text).evaluate tokens := by
  have hrun : (tokens.map (spell text)).foldlM language.turn [] =
      (language.meaning text).run tokens [] := by
    rw [List.foldlM_map]
    exact congrArg (fun step => List.foldlM step [] tokens)
      (funext fun stack => funext fun token => turn_spell language htext stack token)
  rw [Language.evaluatePostfix, hrun, Meaning.evaluate]
  apply bind_congr
  intro stack
  rcases stack with - | ⟨value, - | ⟨below, rest⟩⟩
  · rfl
  · rfl
  · rfl

end Spelling

/-! ## Canonical operands -/

/-- What follows on a minus sign in front, if there is one. -/
def magnitude (cs : List Char) : List Char := if cs.head? = some '-' then cs.tail else cs

/-- A canonical signed decimal integer: digits behind an optional minus sign, of which the
first is zero only if it is the only one. -/
structure Canonical (token : String) : Prop where
  nonempty : magnitude token.toList ≠ []
  digits : ∀ c ∈ magnitude token.toList, Numeral.IsDigit c
  leading : (magnitude token.toList).head? = some '0' → magnitude token.toList = ['0']

/-- A token of the notation. -/
def Grammatical (token : String) : Prop := Canonical token ∨ ∃ o : Operator, o.text = token

/-- An operand of the notation. -/
structure Operand where
  token : String
  canonical : Canonical token

namespace Operand

def digits (a : Operand) : List Char := magnitude a.token.toList

def isNegative (a : Operand) : Bool := a.token.toList.head? = some '-'

/-- The integer that an operand stands for. -/
def value (a : Operand) : ℤ :=
  if a.isNegative then -(Numeral.decimalValue a.digits : ℤ) else Numeral.decimalValue a.digits

theorem text_eq (a : Operand) :
    a.token.toList = if a.isNegative then '-' :: a.digits else a.digits := by
  unfold isNegative digits magnitude
  cases a.token.toList with
  | nil => rfl
  | cons c cs =>
    by_cases hc : c = '-'
    · simp [hc]
    · simp [hc]

theorem isLiteral_of_mem (a : Operand) : ∀ c ∈ a.token.toList, Numeral.isLiteral c.toNat = true := by
  intro c hc
  rw [text_eq] at hc
  split at hc
  · rcases List.mem_cons.mp hc with rfl | hc
    · decide
    · exact Numeral.isLiteral_of_isDigit (a.canonical.digits c hc)
  · exact Numeral.isLiteral_of_isDigit (a.canonical.digits c hc)

/-- An operand is a plain integer to both languages. -/
theorem plain (a : Operand) : Numeral.Plain a.token a.isNegative a.digits where
  text := by
    have hspace : ∀ c ∈ a.token.toList, Numeral.isCommonSpace c.toNat = false := by
      intro c hc
      have hliteral := a.isLiteral_of_mem c hc
      have hcases := Numeral.literal_cases c.toNat (Numeral.isLiteral_lt hliteral) hliteral
      rw [Numeral.isCommonSpace, hcases.1, Bool.false_and]
    have hstrip : JavaScript.strip (fun c => Numeral.isCommonSpace c.toNat)
        ([] ++ (a.token.toList ++ [])) = a.token.toList :=
      JavaScript.strip_append (by simp) (by simp) hspace
    rw [List.nil_append, List.append_nil] at hstrip
    rw [hstrip, text_eq]
    split
    · rename_i hneg
      rw [hneg]
      rfl
    · rename_i hneg
      rw [Bool.eq_false_of_not_eq_true hneg]
      -- no digit is a sign
      rcases Numeral.splitSign_cases a.digits with ⟨rest, heq, -⟩ | ⟨rest, heq, -⟩ | hsplit
      · exact absurd (a.canonical.digits '-' (by rw [← digits, heq]; simp)) (by decide)
      · exact absurd (a.canonical.digits '+' (by rw [← digits, heq]; simp)) (by decide)
      · exact hsplit
  nonempty := a.canonical.nonempty
  digits := a.canonical.digits

theorem not_canonical_operator (o : Operator) : ¬ Canonical o.text := by
  intro h
  have hdigits := h.digits
  have hnonempty := h.nonempty
  cases o with
  | plus => exact absurd (hdigits '+' (by decide)) (by decide)
  | minus => exact hnonempty (by decide)
  | times => exact absurd (hdigits '*' (by decide)) (by decide)
  | divide => exact absurd (hdigits '/' (by decide)) (by decide)

theorem ofText?_token (a : Operand) : Operator.ofText? a.token = none := by
  cases ho : Operator.ofText? a.token with
  | none => rfl
  | some o =>
    have htext : o.text = a.token := Operator.ofText?_eq_some_iff.mp ho
    exact absurd (htext ▸ a.canonical) (not_canonical_operator o)

end Operand

/-! ## Exact arithmetic -/

/-- The arithmetic of the integers, with quotients towards zero. -/
def exactApply : Operator → ℤ → ℤ → Except Failure ℤ
  | .plus, left, right => .ok (left + right)
  | .minus, left, right => .ok (left - right)
  | .times, left, right => .ok (left * right)
  | .divide, left, right =>
    if right = 0 then .error .divisionByZero else .ok (left.tdiv right)

/-- The exact meaning of the notation. -/
def exact : Meaning Operand Operator ℤ Failure where
  value a := .ok a.value
  apply := exactApply
  malformed := .malformed

/-- An expression of the notation. -/
abbrev Expression := Expr Operand Operator

/-- The texts of tokens of the notation. -/
def texts (tokens : List (Token Operand Operator)) : List String :=
  tokens.map (spell Operand.token)

/-- `Number.MAX_SAFE_INTEGER` -/
def maxSafeInteger : ℤ := 2 ^ 53 - 1

theorem number?_token {a : Operand} (h : |a.value| ≤ maxSafeInteger) :
    TypeScript.number? a.token = some (.finite a.value) := by
  have hvalue : (a.value : ℚ) =
      if a.isNegative then -(Numeral.decimalValue a.digits : ℚ)
      else Numeral.decimalValue a.digits := by
    unfold Operand.value
    split
    · push_cast
      rfl
    · push_cast
      rfl
  have hnumber : JavaScript.number a.token = .finite a.value := by
    rw [Numeral.number_of_plain a.plain, ← hvalue]
    exact JavaScript.Number.round_intCast (h.trans (by decide))
  rw [TypeScript.number?, hnumber]
  rfl

/-- On safe integers the operators of doubles are those of the integers. -/
theorem apply_exact {o : Operator} {x y : ℤ} (hx : |x| ≤ maxSafeInteger)
    (hy : |y| ≤ maxSafeInteger) (h : ∀ v, exactApply o x y = .ok v → |v| ≤ maxSafeInteger) :
    TypeScript.apply o (.finite x) (.finite y) =
      (exactApply o x y).map fun v : ℤ => .finite v := by
  have hlarge : maxSafeInteger ≤ 2 ^ 53 := by decide
  cases o with
  | plus => exact congrArg Except.ok (JavaScript.Number.add_intCast ((h _ rfl).trans hlarge))
  | minus => exact congrArg Except.ok (JavaScript.Number.sub_intCast ((h _ rfl).trans hlarge))
  | times => exact congrArg Except.ok (JavaScript.Number.mul_intCast ((h _ rfl).trans hlarge))
  | divide =>
    -- zero is tested before the division, in both arithmetics
    by_cases hzero : y = 0
    · rw [hzero]
      rfl
    · have hfinite : JavaScript.Number.finite (y : ℚ) ≠ .finite 0 := by
        simpa using hzero
      have hkept : Binary64.QuotientKept x.natAbs y.natAbs := by
        apply Binary64.quotientKept_of_le (Int.natAbs_pos.mpr hzero)
        · rw [Int.abs_eq_natAbs, maxSafeInteger] at hx
          omega
        · rw [Int.abs_eq_natAbs, maxSafeInteger] at hy
          omega
      rcases (JavaScript.Number.truncate_round_div_iff hzero).mpr hkept with ⟨q, hq, htrunc⟩
      rw [TypeScript.apply, if_neg hfinite, exactApply, if_neg hzero, JavaScript.Number.div, hq,
        JavaScript.Number.trunc, htrunc]
      rfl

theorem agree_exact {tokens : List (Token Operand Operator)}
    (hsafe : ∀ v, exact.Computes tokens v → |v| ≤ maxSafeInteger) :
    Meaning.Agree exact (TypeScript.language.meaning Operand.token)
      (fun v : ℤ => JavaScript.Number.finite v) tokens where
  value a hreach := by
    have hvalue : |a.value| ≤ maxSafeInteger := hsafe a.value ⟨.leaf a, hreach, rfl⟩
    simp [Language.meaning, TypeScript.language, number?_token hvalue, exact, Except.map]
  apply o x y happlies := apply_exact (hsafe x happlies.computes_left)
    (hsafe y happlies.computes_right) fun v hv => hsafe v (happlies.computes hv)
  malformed := rfl

/-- In exact arithmetic only divisions by zero fail. -/
theorem exact_aborts {tokens : List (Token Operand Operator)} {e : Failure}
    (h : exact.Aborts tokens e) : ∃ x, exact.Applies tokens .divide x 0 := by
  rcases Meaning.aborts_iff.mp h with ⟨a, -, hfails⟩ | ⟨o, x, y, happlies, hfails⟩
  · cases hfails
  · cases o with
    | plus => cases hfails
    | minus => cases hfails
    | times => cases hfails
    | divide =>
      by_cases hzero : y = 0
      · exact ⟨x, hzero ▸ happlies⟩
      · simp [exact, exactApply, hzero] at hfails

/-- On tokens of the notation, whose operands and intermediate results are safe integers,
the function evaluates postfix notation. -/
theorem evaluatePostfix_exact (tokens : List (Token Operand Operator))
    (hsafe : ∀ v, exact.Computes tokens v → |v| ≤ maxSafeInteger) :
    (∀ x, TypeScript.evaluatePostfix (texts tokens) = .ok x ↔
      ∃ (t : Expression) (v : ℤ), t.postorder = tokens ∧ t.eval exact = .ok v ∧ x = .finite v) ∧
    (∀ t : Expression, t.postorder = tokens → t.eval exact = .error .divisionByZero →
      TypeScript.evaluatePostfix (texts tokens) = .error .divisionByZero) ∧
    ((¬ ∃! t : Expression, t.postorder = tokens) → (¬ ∃ x, exact.Applies tokens .divide x 0) →
      TypeScript.evaluatePostfix (texts tokens) = .error .malformed) := by
  -- what is left is a statement on the exact machine
  have hexact : TypeScript.evaluatePostfix (texts tokens) =
      (exact.evaluate tokens).map fun v : ℤ => JavaScript.Number.finite v := by
    rw [← (agree_exact hsafe).evaluate]
    exact evaluatePostfix_spell _ Operand.ofText?_token tokens
  rw [hexact]
  refine ⟨?_, ?_, ?_⟩
  · intro x
    constructor
    · intro h
      cases hv : exact.evaluate tokens with
      | error e =>
        rw [hv] at h
        cases h
      | ok v =>
        rw [hv] at h
        rcases Meaning.evaluate_eq_ok_iff.mp hv with ⟨t, ht, heval⟩
        exact ⟨t, v, ht, heval, (Except.ok.inj h).symm⟩
    · rintro ⟨t, v, ht, hv, rfl⟩
      rw [Meaning.evaluate_eq_ok_iff.mpr ⟨t, ht, hv⟩]
      rfl
  · rintro t rfl hzero
    rw [Meaning.evaluate_postorder, hzero]
    rfl
  · intro hunique hnone
    have hmalformed : exact.evaluate tokens = .error .malformed := by
      apply Meaning.evaluate_eq_error_iff.mpr
      refine Or.inr ⟨rfl, ?_, fun e habort => hnone (exact_aborts habort)⟩
      rintro t rfl
      exact hunique ⟨t, rfl, fun t' ht' => Meaning.postorder_injective ht'⟩
    rw [hmalformed]
    rfl

/-- `4 + 13 / 5`, the second example of the requirements. -/
theorem evaluatePostfix_exact_example :
    TypeScript.evaluatePostfix ["4", "13", "5", "/", "+"] = .ok (.finite 6) := by
  let four : Operand := ⟨"4", ⟨by decide, by simp [magnitude, Numeral.IsDigit], by decide⟩⟩
  let thirteen : Operand := ⟨"13", ⟨by decide, by simp [magnitude, Numeral.IsDigit], by decide⟩⟩
  let five : Operand := ⟨"5", ⟨by decide, by simp [magnitude, Numeral.IsDigit], by decide⟩⟩
  let t : Expression := .node .plus (.leaf four) (.node .divide (.leaf thirteen) (.leaf five))
  have hstacks : ∀ done ∈ t.postorder.inits, ∀ stack ∈ (exact.run done []).toOption,
      ∀ v ∈ stack, |v| ≤ maxSafeInteger := by
    decide
  have hsafe : ∀ v, exact.Computes t.postorder v → |v| ≤ maxSafeInteger := by
    intro v hv
    exact hv.of_stacks hstacks
  exact ((evaluatePostfix_exact t.postorder hsafe).1 (.finite 6)).mpr ⟨t, 6, rfl, by decide, rfl⟩

end InterviewPrep.EvaluatePostfix
