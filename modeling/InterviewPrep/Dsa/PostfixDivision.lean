import InterviewPrep.Dsa.EvaluatePostfix

/-!
# Division in Python's postfix evaluation

Python's integers have no bounds, but `int(left / right)` goes through a double. A division
is the truncated quotient exactly if `QuotientKept` holds of the absolute values
(`apply_divide_iff`), and `int` reads no operand of more than 4300 digits. These are all the
ways in which the function fails to evaluate an expression exactly (`quotients_exact_iff`).
-/

namespace InterviewPrep.EvaluatePostfix

open Postfix (Token Expr Meaning)

open Binary64 (QuotientKept)

/-- What Python makes of the notation. -/
def pythonMeaning : Meaning Operand Operator ℤ Failure := Python.language.meaning Operand.token

/-- A division is the quotient towards zero exactly if rounding keeps that. -/
theorem apply_divide_iff {x y : ℤ} (hy : y ≠ 0) :
    Python.apply .divide x y = .ok (x.tdiv y) ↔ QuotientKept x.natAbs y.natAbs := by
  rw [← JavaScript.Number.truncate_round_div_iff hy]
  simp only [Python.apply, if_neg hy, Python.quotient]
  split
  · rename_i q hq
    simp [hq]
  · rename_i hinfinite
    simp only [reduceCtorEq, false_iff, not_exists, not_and]
    intro q hq
    exact absurd hq (hinfinite q)

/-- An operand is read if it has not too many digits. -/
theorem value_token (a : Operand) : pythonMeaning.value a =
    if a.digits.length ≤ InterviewPrep.Python.maxDigits then .ok a.value
    else .error .malformed := by
  have hint : InterviewPrep.Python.int a.token =
      if a.digits.length ≤ InterviewPrep.Python.maxDigits then some a.value else none :=
    Numeral.int_of_plain a.plain
  rw [pythonMeaning, Language.meaning, Python.language]
  by_cases hlength : a.digits.length ≤ InterviewPrep.Python.maxDigits
  · simp only [hint, if_pos hlength]
  · simp only [hint, if_neg hlength]

/-- The code divides exactly: every division of its run is the quotient towards zero. -/
def DividesExactly (tokens : List (Token Operand Operator)) : Prop :=
  ∀ x y, pythonMeaning.Applies tokens .divide x y → Python.apply .divide x y = .ok (x.tdiv y)

/-- What the run of an exact evaluation needs: operands that `int` reads, and quotients that
rounding keeps. -/
structure Bounded (tokens : List (Token Operand Operator)) : Prop where
  digits : ∀ a, .operand a ∈ tokens → a.digits.length ≤ InterviewPrep.Python.maxDigits
  quotients : ∀ x y, exact.Applies tokens .divide x y → QuotientKept x.natAbs y.natAbs

section Agreement

variable {tokens : List (Token Operand Operator)}

theorem Bounded.agree (h : Bounded tokens) : Meaning.Agree exact pythonMeaning id tokens where
  value a hreach := by
    rw [value_token, if_pos (h.digits a hreach.operand_mem)]
    rfl
  apply o x y happlies := by
    cases o with
    | plus => rfl
    | minus => rfl
    | times => rfl
    | divide =>
      by_cases hzero : y = 0
      · rw [hzero]
        rfl
      · have hdivide := (apply_divide_iff hzero).mpr (h.quotients x y happlies)
        show Python.apply .divide x y = (exactApply .divide x y).map id
        rw [hdivide, exactApply, if_neg hzero]
        rfl
  malformed := rfl

theorem DividesExactly.agree (h : DividesExactly tokens)
    (hdigits : ∀ a, .operand a ∈ tokens → a.digits.length ≤ InterviewPrep.Python.maxDigits) :
    Meaning.Agree pythonMeaning exact id tokens where
  value a hreach := by
    rw [value_token, if_pos (hdigits a hreach.operand_mem)]
    rfl
  apply o x y happlies := by
    cases o with
    | plus => rfl
    | minus => rfl
    | times => rfl
    | divide =>
      have hdivide := h x y happlies
      have hzero : y ≠ 0 := by
        rintro rfl
        cases hdivide
      show exactApply .divide x y = (Python.apply .divide x y).map id
      rw [hdivide, exactApply, if_neg hzero]
      rfl
  malformed := rfl

end Agreement

theorem evaluatePostfix_texts (t : Expression) :
    Python.evaluatePostfix (texts t.postorder) = t.eval pythonMeaning := by
  rw [← Meaning.evaluate_postorder]
  exact evaluatePostfix_spell _ Operand.ofText?_token t.postorder

/-- An expression that has an exact value divides by no zero. -/
theorem ne_zero_of_applies {t : Expression} {v x y : ℤ} (h : t.eval exact = .ok v)
    (happlies : exact.Applies t.postorder .divide x y) : y ≠ 0 := by
  rintro rfl
  have habort : exact.Aborts t.postorder .divisionByZero :=
    Meaning.aborts_iff.mpr (Or.inr ⟨.divide, x, 0, happlies, rfl⟩)
  have hfails := Meaning.evaluate_of_aborts habort
  rw [Meaning.evaluate_postorder, h] at hfails
  cases hfails

/-- For an expression that divides by no zero. -/
theorem quotients_exact_iff (t : Expression) (v : ℤ) (h : t.eval exact = .ok v) :
    (Python.evaluatePostfix (texts t.postorder) = .ok v ∧ DividesExactly t.postorder) ↔
      Bounded t.postorder := by
  rw [evaluatePostfix_texts]
  constructor
  · rintro ⟨hv, hdivides⟩
    -- a run with a value has read every operand
    have hdigits : ∀ a, .operand a ∈ t.postorder →
        a.digits.length ≤ InterviewPrep.Python.maxDigits := by
      intro a ha
      rcases Expr.exists_value hv ha with ⟨x, hx⟩
      rw [value_token] at hx
      split at hx
      · assumption
      · cases hx
    refine ⟨hdigits, ?_⟩
    -- the run computes what the exact one does, so both divide the same
    intro x y happlies
    rcases (hdivides.agree hdigits).exists_applies happlies with ⟨x, y, hpython, rfl, rfl⟩
    exact (apply_divide_iff (ne_zero_of_applies h happlies)).mp (hdivides x y hpython)
  · intro hbounded
    refine ⟨?_, ?_⟩
    · rw [hbounded.agree.eval (exact.reaches_postorder t), h]
      rfl
    · intro x y happlies
      rcases hbounded.agree.exists_applies happlies with ⟨x, y, hexact, rfl, rfl⟩
      exact (apply_divide_iff (ne_zero_of_applies h hexact)).mpr (hbounded.quotients x y hexact)

/-- `-7 / 2` is `-3`. -/
theorem quotients_exact_iff_example :
    Python.evaluatePostfix ["-7", "2", "/"] = .ok (-3) := by
  let seven : Operand := ⟨"-7", ⟨by decide, by simp [magnitude, Numeral.IsDigit], by decide⟩⟩
  let two : Operand := ⟨"2", ⟨by decide, by simp [magnitude, Numeral.IsDigit], by decide⟩⟩
  let t : Expression := .node .divide (.leaf seven) (.leaf two)
  have hstacks : ∀ done ∈ t.postorder.inits, ∀ stack ∈ (exact.run done []).toOption,
      ∀ v ∈ stack, v ≠ 0 ∧ v.natAbs < 2 ^ 53 := by
    decide
  have hbounded : Bounded t.postorder := by
    constructor
    · intro a ha
      simp only [t, Expr.postorder, List.mem_append, List.mem_singleton, Token.operand.injEq,
        reduceCtorEq, or_false] at ha
      rcases ha with rfl | rfl
      · decide
      · decide
    · intro x y happlies
      have hx := happlies.computes_left.of_stacks hstacks
      have hy := happlies.computes_right.of_stacks hstacks
      exact Binary64.quotientKept_of_le (Int.natAbs_pos.mpr hy.1) hx.2 (le_of_lt hy.2)
  exact ((quotients_exact_iff t (-3) (by decide)).mpr hbounded).1

/-- `9007199254740993` is no double, so its quotient by 1 is another number. -/
theorem quotient_not_exact : ¬ ∀ (t : Expression) (v : ℤ), t.eval exact = .ok v →
    Python.evaluatePostfix (texts t.postorder) = .ok v := by
  intro hall
  let large : Operand := ⟨"9007199254740993", ⟨by decide, by simp [magnitude, Numeral.IsDigit], by decide⟩⟩
  let one : Operand := ⟨"1", ⟨by decide, by simp [magnitude, Numeral.IsDigit], by decide⟩⟩
  have hlarge : pythonMeaning.value large = .ok 9007199254740993 := by decide
  have hone : pythonMeaning.value one = .ok 1 := by decide
  have hresult := hall (.node .divide (.leaf large) (.leaf one)) 9007199254740993 (by decide)
  rw [evaluatePostfix_texts, Expr.eval, Expr.eval, Expr.eval, hlarge, hone] at hresult
  have hkept : QuotientKept 9007199254740993 1 :=
    (apply_divide_iff (x := 9007199254740993) (y := 1) (by decide)).mp hresult
  rw [QuotientKept, if_neg (by decide)] at hkept
  rcases hkept.1 with ⟨m, k, hm, hn⟩
  cases k with
  | zero => omega
  | succ k =>
    -- the number is odd
    rw [pow_succ, ← mul_assoc] at hn
    omega

end InterviewPrep.EvaluatePostfix
