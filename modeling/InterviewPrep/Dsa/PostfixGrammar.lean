import InterviewPrep.Dsa.EvaluatePostfix

/-!
# The tokens of postfix evaluation

Which lists of strings `evaluatePostfix` accepts. It asks the number conversion of its
language, which reads more than the canonical integers, and it returns the first failure
that it comes to. So a token outside the grammar is accepted in every expression that has a
value, and it is not noticed behind an operator that fails (`grammar_kept_iff`).
-/

namespace InterviewPrep.EvaluatePostfix

open Postfix (Token Expr Meaning)

/-! ## Arbitrary tokens -/

/-- A token that is no operator. -/
structure Word where
  token : String
  not_operator : Operator.ofText? token = none

/-- A string as an operator or a word. -/
def classify (token : String) : Token Word Operator :=
  match h : Operator.ofText? token with
  | some o => .operator o
  | none => .operand ⟨token, h⟩

def words (tokens : List String) : List (Token Word Operator) := tokens.map classify

theorem spell_classify (token : String) : spell Word.token (classify token) = token := by
  unfold classify
  split
  · rename_i o ho
    exact Operator.ofText?_eq_some_iff.mp ho
  · rfl

theorem words_spell (tokens : List String) : (words tokens).map (spell Word.token) = tokens := by
  rw [words, List.map_map]
  exact List.map_id'' spell_classify tokens

/-! ## What is accepted -/

section Language

variable {V : Type} {language : Language V} {tokens : List String}

/-- The tokens are those of an expression, and the language reads all that are no
operators. -/
def Language.IsExpression (language : Language V) (tokens : List String) : Prop :=
  (∃ t : Expr Word Operator, t.postorder = words tokens) ∧
    ∀ token ∈ tokens, (∃ o : Operator, o.text = token) ∨ (language.number? token).isSome

/-- An operator of the tokens is applied to two values and fails. -/
def Language.AppliesFailing (language : Language V) (tokens : List String) : Prop :=
  ∃ o x y e, (language.meaning Word.token).Applies (words tokens) o x y ∧
    language.apply o x y = .error e

theorem evaluatePostfix_words (language : Language V) (tokens : List String) :
    language.evaluatePostfix tokens = (language.meaning Word.token).evaluate (words tokens) := by
  have hspell := evaluatePostfix_spell language Word.not_operator (words tokens)
  rwa [words_spell] at hspell

/-- A word has a value exactly if the language reads it. -/
theorem exists_value_iff {a : Word} :
    (∃ v, (language.meaning Word.token).value a = .ok v) ↔ (language.number? a.token).isSome := by
  cases hvalue : language.number? a.token with
  | none => simp [Language.meaning, hvalue]
  | some v => simp [Language.meaning, hvalue]

/-- A word fails only as malformed. -/
theorem value_eq_error {a : Word} {e : Failure}
    (h : (language.meaning Word.token).value a = .error e) : e = .malformed := by
  unfold Language.meaning at h
  simp only at h
  split at h
  · cases h
  · exact (Except.error.inj h).symm

theorem mem_words_iff {a : Word} : .operand a ∈ words tokens ↔ a.token ∈ tokens := by
  constructor
  · intro h
    have hmem := List.mem_map_of_mem (f := spell Word.token) h
    rwa [words_spell] at hmem
  · intro h
    have hmem := List.mem_map_of_mem (f := classify) h
    have hclassify : classify a.token = .operand a := by
      unfold classify
      split
      · rename_i o ho
        rw [a.not_operator] at ho
        cases ho
      · rfl
    rwa [hclassify] at hmem

/-- An operator that fails makes the call fail in the same way. -/
theorem Language.AppliesFailing.exists_error (h : language.AppliesFailing tokens) :
    ∃ e, e ≠ .malformed ∧ language.evaluatePostfix tokens = .error e := by
  rcases h with ⟨o, x, y, e, happlies, he⟩
  refine ⟨e, ?_, ?_⟩
  · rintro rfl
    exact language.apply_ne_malformed o x y he
  · rw [evaluatePostfix_words]
    exact Meaning.evaluate_of_aborts (Meaning.aborts_iff.mpr (Or.inr ⟨o, x, y, happlies, he⟩))

/-- A value is returned for an expression none of whose operators fails. -/
theorem exists_eq_ok_iff : (∃ v, language.evaluatePostfix tokens = .ok v) ↔
    language.IsExpression tokens ∧ ¬ language.AppliesFailing tokens := by
  constructor
  · rintro ⟨v, hv⟩
    rcases Meaning.evaluate_eq_ok_iff.mp (evaluatePostfix_words language tokens ▸ hv) with
      ⟨t, ht, heval⟩
    refine ⟨⟨⟨t, ht⟩, ?_⟩, ?_⟩
    · intro token htoken
      cases ho : Operator.ofText? token with
      | some o => exact Or.inl ⟨o, Operator.ofText?_eq_some_iff.mp ho⟩
      | none =>
        have hmem : .operand ⟨token, ho⟩ ∈ t.postorder := by
          rw [ht]
          exact mem_words_iff.mpr htoken
        exact Or.inr (exists_value_iff.mp (Expr.exists_value heval hmem))
    · intro hfailing
      rcases hfailing.exists_error with ⟨e, -, he⟩
      rw [hv] at he
      cases he
  · rintro ⟨⟨⟨t, ht⟩, hread⟩, hfailing⟩
    rw [evaluatePostfix_words, ← ht, Meaning.evaluate_postorder]
    cases heval : t.eval (language.meaning Word.token) with
    | ok v => exact ⟨v, rfl⟩
    | error e =>
      have hreach := ht ▸ (language.meaning Word.token).reaches_postorder t
      rcases hreach.exists_failure heval with ⟨a, ha, he⟩ | ⟨o, x, y, happlies, he⟩
      · -- all words are read
        rcases hread a.token (mem_words_iff.mp ha.operand_mem) with ⟨o, ho⟩ | hsome
        · have hnone := a.not_operator
          rw [Operator.ofText?_eq_some_iff.mpr ho] at hnone
          cases hnone
        · rcases exists_value_iff.mpr hsome with ⟨v, hv⟩
          rw [he] at hv
          cases hv
      · exact absurd ⟨o, x, y, e, happlies, he⟩ hfailing

/-- The result is malformed where there is neither an expression nor an operator that
fails. -/
theorem eq_malformed_iff : language.evaluatePostfix tokens = .error .malformed ↔
    ¬ language.IsExpression tokens ∧ ¬ language.AppliesFailing tokens := by
  constructor
  · intro h
    have hfailing : ¬ language.AppliesFailing tokens := by
      intro hfailing
      rcases hfailing.exists_error with ⟨e, hne, he⟩
      rw [h, Except.error.injEq] at he
      exact hne he.symm
    refine ⟨fun hexpression => ?_, hfailing⟩
    rcases exists_eq_ok_iff.mpr ⟨hexpression, hfailing⟩ with ⟨v, hv⟩
    rw [h] at hv
    cases hv
  · rintro ⟨hexpression, hfailing⟩
    cases hresult : language.evaluatePostfix tokens with
    | ok v => exact absurd (exists_eq_ok_iff.mp ⟨v, hresult⟩).1 hexpression
    | error e =>
      -- a word that is not read, an operator that fails, or no expression
      rw [evaluatePostfix_words, Meaning.evaluate_eq_error_iff, Meaning.aborts_iff] at hresult
      rcases hresult with (⟨a, -, he⟩ | ⟨o, x, y, happlies, he⟩) | ⟨he, -, -⟩
      · rw [value_eq_error he]
      · exact absurd ⟨o, x, y, e, happlies, he⟩ hfailing
      · rw [he]
        rfl

/-! ## The grammar -/

/-- A value is returned for tokens of the grammar only. -/
def AcceptsGrammar (result : Except Failure V) (tokens : List String) : Prop :=
  ∀ v, result = .ok v → ∀ token ∈ tokens, Grammatical token

/-- Any other token makes the result malformed. -/
def RejectsOthers (result : Except Failure V) (tokens : List String) : Prop :=
  (∃ token ∈ tokens, ¬ Grammatical token) → result = .error .malformed

theorem acceptsGrammar_iff : AcceptsGrammar (language.evaluatePostfix tokens) tokens ↔
    (∀ token ∈ tokens, Grammatical token) ∨
      ¬ language.IsExpression tokens ∨ language.AppliesFailing tokens := by
  have hvalue : (¬ language.IsExpression tokens ∨ language.AppliesFailing tokens) ↔
      ¬ ∃ v, language.evaluatePostfix tokens = .ok v := by
    rw [exists_eq_ok_iff]
    tauto
  rw [hvalue, AcceptsGrammar, ← forall_exists_index (p := fun v =>
    language.evaluatePostfix tokens = .ok v) (q := fun _ => ∀ token ∈ tokens, Grammatical token),
    imp_iff_or_not]

theorem rejectsOthers_iff : RejectsOthers (language.evaluatePostfix tokens) tokens ↔
    (∀ token ∈ tokens, Grammatical token) ∨
      ¬ language.IsExpression tokens ∧ ¬ language.AppliesFailing tokens := by
  rw [← eq_malformed_iff, RejectsOthers, imp_iff_not_or]
  simp only [not_exists, not_and, not_not]

end Language

/-- In both languages, for all strings. -/
theorem grammar_kept_iff (tokens : List String) :
    ((AcceptsGrammar (TypeScript.evaluatePostfix tokens) tokens ↔
      (∀ token ∈ tokens, Grammatical token) ∨ ¬ TypeScript.language.IsExpression tokens ∨
        TypeScript.language.AppliesFailing tokens) ∧
    (RejectsOthers (TypeScript.evaluatePostfix tokens) tokens ↔
      (∀ token ∈ tokens, Grammatical token) ∨ ¬ TypeScript.language.IsExpression tokens ∧
        ¬ TypeScript.language.AppliesFailing tokens)) ∧
    (AcceptsGrammar (Python.evaluatePostfix tokens) tokens ↔
      (∀ token ∈ tokens, Grammatical token) ∨ ¬ Python.language.IsExpression tokens ∨
        Python.language.AppliesFailing tokens) ∧
    (RejectsOthers (Python.evaluatePostfix tokens) tokens ↔
      (∀ token ∈ tokens, Grammatical token) ∨ ¬ Python.language.IsExpression tokens ∧
        ¬ Python.language.AppliesFailing tokens) :=
  ⟨⟨acceptsGrammar_iff, rejectsOthers_iff⟩, acceptsGrammar_iff, rejectsOthers_iff⟩

/-- `Number` reads the empty string as zero, and `int` a plus sign. -/
theorem other_tokens_accepted :
    ¬ AcceptsGrammar (TypeScript.evaluatePostfix [""]) [""] ∧
      ¬ AcceptsGrammar (Python.evaluatePostfix ["+1"]) ["+1"] := by
  have hempty : ¬ Grammatical "" := by
    rintro (h | ⟨o, ho⟩)
    · exact h.nonempty (by decide)
    · cases o <;> exact absurd ho (by decide)
  have hplus : ¬ Grammatical "+1" := by
    rintro (h | ⟨o, ho⟩)
    · exact absurd (h.digits '+' (by decide)) (by decide)
    · cases o <;> exact absurd ho (by decide)
  constructor
  · intro h
    exact hempty (h (.finite 0) (by decide) "" (by simp))
  · intro h
    exact hplus (h 1 (by decide) "+1" (by simp))

end InterviewPrep.EvaluatePostfix
