import Mathlib.Data.List.Basic
import InterviewPrep.Lib.Interaction

/-!
# Content filter integration

`generate_with_safety` of `technical/content_filter_integration/answer.py`: one
coroutine that asks the content filter, the generator and the filter again, and
reads the cancellation event between the steps. Each of these is a query of the
program, so the behaviour of the filter and the generator, and the moment of
cancellation, are in the answers.

The two `try`/`except` clauses around `classify` are one function, `classify`,
and so are the two gates behind them, `gate`, at the stage they belong to.
-/

namespace InterviewPrep.ContentFilter

/-- A Python string: its code points. -/
abbrev Text := List Char

/-- `str.isspace` for one character. -/
def isSpace (c : Char) : Bool :=
  let n := c.toNat
  (0x09 ≤ n && n ≤ 0x0D) || (0x1C ≤ n && n ≤ 0x20) || n == 0x85 || n == 0xA0 || n == 0x1680 ||
    (0x2000 ≤ n && n ≤ 0x200A) || n == 0x2028 || n == 0x2029 || n == 0x202F || n == 0x205F ||
    n == 0x3000

/-- `str.strip()` -/
def strip (s : Text) : Text :=
  ((s.dropWhile isSpace).reverse.dropWhile isSpace).reverse

/-! ## The data -/

/-- The two decision classes. Python does not check the annotation of
`allowed`, so the flag is a field of both; it is read as a truth value. -/
inductive FilterDecision where
  | AllowedDecision (policyVersion : Text) (allowed : Bool)
  | BlockedDecision (category policyVersion reviewRef : Text) (allowed : Bool)
deriving DecidableEq

namespace FilterDecision

def allowed : FilterDecision → Bool
  | AllowedDecision _ a => a
  | BlockedDecision _ _ _ a => a

def policyVersion : FilterDecision → Text
  | AllowedDecision v _ => v
  | BlockedDecision _ v _ _ => v

end FilterDecision

inductive Stage where
  | input
  | output
deriving DecidableEq

inductive FailureCode where
  | invalid_input
  | filter_unavailable
  | model_failed
  | cancelled
deriving DecidableEq

/-- `CompletedResult`, `BlockedResult`, `FailedResult` -/
inductive SafeGenerationResult where
  | completed (output policyVersion : Text)
  | blocked (stage : Stage) (category reviewRef : Text)
  | failed (code : FailureCode)
deriving DecidableEq

/-- How an awaited call ends; `cancelledError` is `asyncio.CancelledError`, which
is not an `Exception`. -/
inductive Outcome (α : Type) where
  | returned (a : α)
  | cancelledError
  | exception
deriving DecidableEq

/-- `input_text`, which the code does not trust to be a string. -/
inductive InputText where
  | str (s : Text)
  | other
deriving DecidableEq

/-! ## The program -/

/-- What the coroutine asks: `signal.is_set()`, `content_filter.classify`,
`generator.generate`. -/
inductive Call where
  | is_set
  | classify (text : Text)
  | generate (text : Text)
deriving DecidableEq

abbrev Answer : Call → Type
  | .is_set => Bool
  | .classify _ => Outcome FilterDecision
  | .generate _ => Outcome Text

/-- Computations of the coroutine. -/
abbrev Coroutine (α : Type) := Program Answer α

def is_cancelled : Coroutine Bool := Program.ask Answer .is_set

/-- `FailedResult(code="cancelled" if is_cancelled() else code)` -/
def failure (code : FailureCode) : Coroutine SafeGenerationResult := do
  let cancelled ← is_cancelled
  return .failed (if cancelled then .cancelled else code)

def max_input_length : ℕ := 10000

def max_metadata_length : ℕ := 256

/-- An awaited call with its two `except` clauses. -/
def attempt {α : Type} (call : Coroutine (Outcome α)) (code : FailureCode) :
    Coroutine (Except SafeGenerationResult α) := do
  match ← call with
  | .returned a => return .ok a
  | .cancelledError => return .error (.failed .cancelled)
  | .exception => return .error (← failure code)

/-- `await content_filter.classify(...)` with its `except` clauses. -/
def classify (text : Text) : Coroutine (Except SafeGenerationResult FilterDecision) :=
  attempt (Program.ask Answer (.classify text)) .filter_unavailable

/-- `await generator.generate(...)` with its `except` clauses. -/
def generate (text : Text) : Coroutine (Except SafeGenerationResult Text) :=
  attempt (Program.ask Answer (.generate text)) .model_failed

/-- The gate behind a classification: the result to return, or `none` to go on.
A decision that is not allowed and not a `BlockedDecision` goes on as well. -/
def gate (stage : Stage) (decision : FilterDecision) : Option SafeGenerationResult :=
  if decision.allowed then none
  else
    match decision with
    | .BlockedDecision category _ reviewRef _ =>
      some (.blocked stage (category.take max_metadata_length)
        (reviewRef.take max_metadata_length))
    | .AllowedDecision _ _ => none

/-- Steps 4 and 5: filter the output and return it. -/
def filterOutput (output : Text) : Coroutine SafeGenerationResult := do
  if ← is_cancelled then
    return .failed .cancelled
  else
    match ← classify output with
    | .error r => return r
    | .ok decision =>
      match gate .output decision with
      | some r => return r
      | none => return .completed output decision.policyVersion

/-- Steps 3 to 5: generate the output, then filter it. -/
def generateOutput (text : Text) : Coroutine SafeGenerationResult := do
  if ← is_cancelled then
    return .failed .cancelled
  else
    match ← generate text with
    | .error r => return r
    | .ok output => filterOutput output

/-- Steps 2 to 5: filter the input, then generate. -/
def filterInput (text : Text) : Coroutine SafeGenerationResult := do
  if ← is_cancelled then
    return .failed .cancelled
  else
    match ← classify text with
    | .error r => return r
    | .ok decision =>
      match gate .input decision with
      | some r => return r
      | none => generateOutput text

/-- `generate_with_safety` -/
def generate_with_safety (input_text : InputText) : Coroutine SafeGenerationResult := do
  if ← is_cancelled then
    return .failed .cancelled
  else
    match input_text with
    | .other => return .failed .invalid_input
    | .str s =>
      if strip s = [] then return .failed .invalid_input
      else filterInput (s.take max_input_length)

/-! ## Runs of the parts -/

/-- What happened in a run: the calls with their answers. -/
abbrev Trace := List (Sigma Answer)

theorem runs_failure {code : FailureCode} {tr : Trace} {r : SafeGenerationResult} :
    (failure code).Runs tr r ↔
      ∃ b : Bool, tr = [⟨.is_set, b⟩] ∧ r = .failed (if b then .cancelled else code) := by
  simp [failure, is_cancelled]

/-- Each step first reads the cancellation event, and ends the run if it is
set. -/
theorem runs_unless_cancelled {rest : Coroutine SafeGenerationResult} {tr : Trace}
    {r : SafeGenerationResult}
    (h : Program.Runs (do if ← is_cancelled then return .failed .cancelled else rest) tr r) :
    (tr = [⟨.is_set, true⟩] ∧ r = .failed .cancelled) ∨
    (∃ tr', tr = ⟨.is_set, false⟩ :: tr' ∧ rest.Runs tr' r) := by
  rcases Program.runs_bind.mp h with ⟨tr₁, tr₂, b, rfl, hask, hrest⟩
  have hask : tr₁ = [⟨.is_set, b⟩] := Program.runs_ask.mp hask
  subst hask
  cases b with
  | true =>
    rcases hrest with ⟨rfl, rfl⟩
    exact Or.inl ⟨rfl, rfl⟩
  | false => exact Or.inr ⟨tr₂, rfl, hrest⟩

/-- A guarded call ends in the value, or in a failure after at most one more
reading of the cancellation event. -/
theorem runs_attempt {α : Type} {call : Coroutine (Outcome α)} {code : FailureCode}
    {tr : Trace} {r : Except SafeGenerationResult α} (h : (attempt call code).Runs tr r) :
    (∃ a, call.Runs tr (.returned a) ∧ r = .ok a) ∨
    (∃ tr₁ tr₂ o c, tr = tr₁ ++ tr₂ ∧ call.Runs tr₁ o ∧ (∀ a, o ≠ .returned a) ∧
      (tr₂ = [] ∨ ∃ b, tr₂ = [⟨.is_set, b⟩]) ∧ r = .error (.failed c)) := by
  rcases Program.runs_bind.mp h with ⟨tr₁, tr₂, o, rfl, hcall, hrest⟩
  cases o with
  | returned a =>
    rcases hrest with ⟨rfl, rfl⟩
    rw [List.append_nil]
    exact Or.inl ⟨a, hcall, rfl⟩
  | cancelledError =>
    rcases hrest with ⟨rfl, rfl⟩
    exact Or.inr ⟨tr₁, [], _, _, rfl, hcall, by simp, Or.inl rfl, rfl⟩
  | exception =>
    rcases Program.runs_bind.mp hrest with ⟨tr₃, tr₄, r', rfl, hf, rfl, rfl⟩
    rcases runs_failure.mp hf with ⟨b, rfl, rfl⟩
    exact Or.inr ⟨tr₁, _, _, _, rfl, hcall, by simp, Or.inr ⟨b, rfl⟩, rfl⟩

/-- A gate lets a decision pass if it is allowed, and also if it is an
`AllowedDecision` that is not. -/
theorem gate_eq_none_iff {stage : Stage} {d : FilterDecision} :
    gate stage d = none ↔ d.allowed = true ∨ ∃ v, d = .AllowedDecision v false := by
  cases d with
  | AllowedDecision v a => cases a <;> simp [gate, FilterDecision.allowed]
  | BlockedDecision c v ref a => cases a <;> simp [gate, FilterDecision.allowed]

end InterviewPrep.ContentFilter
