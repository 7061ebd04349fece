import Mathlib.Data.Rat.Defs
import InterviewPrep.Lib.DepthFirst
import InterviewPrep.Lib.OrderedDict

/-!
# Agent plan validator

`validate_plan` of `technical/agent_plan_validator/answer.py` and `validatePlan`
of `answer.ts`. Both append issues to one list, in passes over the steps; a pass
is a function to the issues it appends. The passes that do the same in both
languages come first, then the two validators, which differ in the order of
their passes, in the totals, in what counts as an approval reference and in what
the search for cycles starts from.

Estimates and budgets are exact rationals, so `Number.isFinite` is true of all
of them. The search for cycles recurses on fuel.
-/

namespace InterviewPrep.PlanValidator

open DepthFirst

/-! ## The data -/

structure PlanStep (α : Type) where
  id : String
  depends_on : List String
  tool_name : String
  args : α
  estimated_tokens : ℚ
  estimated_cost_usd : ℚ
  approval_ref : Option String

structure PlanPolicy (α : Type) where
  allowed_tools : Finset String
  authorized_tools : Finset String
  high_risk_tools : Finset String
  max_tokens : ℚ
  max_cost_usd : ℚ
  validate_args : String → α → Bool
  approval_valid : PlanStep α → Bool

inductive Code where
  | too_many_steps
  | duplicate_step
  | duplicate_dependency
  | missing_dependency
  | cycle
  | tool_forbidden
  | invalid_arguments
  | approval_required
  | invalid_estimate
  | budget_exceeded
deriving DecidableEq

structure PlanIssue where
  step_id : Option String
  code : Code
deriving DecidableEq

/-- `step_by_id`, the first step with each id. -/
abbrev StepById (α : Type) := OrderedDict String (PlanStep α)

variable {α : Type}

/-! ## Common passes -/

/-- The issue under a condition. -/
def issueIf (p : Prop) [Decidable p] (step_id : Option String) (code : Code) : List PlanIssue :=
  if p then [⟨step_id, code⟩] else []

def tooManySteps (steps : List (PlanStep α)) : List PlanIssue :=
  issueIf (20 < steps.length) none .too_many_steps

/-- One round of the loop that fills `step_by_id`. -/
def addStep (acc : StepById α × List PlanIssue) (step : PlanStep α) :
    StepById α × List PlanIssue :=
  if acc.1.contains step.id then (acc.1, acc.2 ++ [⟨some step.id, .duplicate_step⟩])
  else (acc.1.setItem step.id step, acc.2)

/-- The loop that fills `step_by_id` and reports duplicates. -/
def buildLookup (steps : List (PlanStep α)) : StepById α × List PlanIssue :=
  steps.foldl addStep (OrderedDict.empty, [])

def invalidEstimate (step : PlanStep α) : Prop :=
  step.estimated_tokens < 0 ∨ step.estimated_cost_usd < 0

instance (step : PlanStep α) : Decidable (invalidEstimate step) := instDecidableOr

/-- The loop over `depends_on`, with `seen_deps`. Python adds to `seen_deps` in
the `else` branch only; a member added again changes nothing. -/
def dependencyIssues (step_by_id : StepById α) (step_id : String) :
    Finset String → List String → List PlanIssue
  | _, [] => []
  | seen_deps, dep :: deps =>
    issueIf (dep ∈ seen_deps) (some step_id) .duplicate_dependency ++
    issueIf (step_by_id.contains dep = false) (some step_id) .missing_dependency ++
    dependencyIssues step_by_id step_id (insert dep seen_deps) deps

/-- The body of the main loop, where `noRef` is the test for a missing approval
reference. -/
def stepIssues (noRef : Option String → Bool) (policy : PlanPolicy α)
    (step_by_id : StepById α) (step : PlanStep α) : List PlanIssue :=
  issueIf (invalidEstimate step) (some step.id) .invalid_estimate ++
  issueIf (step.tool_name ∉ policy.allowed_tools ∨ step.tool_name ∉ policy.authorized_tools)
    (some step.id) .tool_forbidden ++
  issueIf (policy.validate_args step.tool_name step.args = false)
    (some step.id) .invalid_arguments ++
  issueIf (step.tool_name ∈ policy.high_risk_tools ∧
      (noRef step.approval_ref = true ∨ policy.approval_valid step = false))
    (some step.id) .approval_required ++
  dependencyIssues step_by_id step.id ∅ step.depends_on

/-- The plan-wide totals. -/
structure Totals where
  tokens : ℚ
  cost : ℚ

def budgetIssues (policy : PlanPolicy α) (totals : Totals) : List PlanIssue :=
  issueIf (policy.max_tokens < totals.tokens ∨ policy.max_cost_usd < totals.cost)
    none .budget_exceeded

/-- The dependencies that the search follows: those in `step_by_id`. -/
def existingDeps (step_by_id : StepById α) (step_id : String) : List String :=
  match step_by_id.get? step_id with
  | none => []
  | some step => step.depends_on.filter step_by_id.contains

/-- `has_cycle`, with the sets `visiting` and `visited`. -/
def has_cycle (step_by_id : StepById α) (fuel : ℕ) (step_id : String) (marks : Marks String) :
    Option (Bool × Marks String) :=
  search (existingDeps step_by_id) fuel step_id marks

/-- The loop over the steps that reports cycles, where `before` is what happens
to the sets before each search. -/
def cycleIssues (before : Marks String → Marks String) (step_by_id : StepById α) (fuel : ℕ) :
    List (PlanStep α) → Marks String → Option (List PlanIssue)
  | [], _ => some []
  | step :: steps, marks =>
    match has_cycle step_by_id fuel step.id (before marks) with
    | none => none
    | some (found, marks') =>
      (cycleIssues before step_by_id fuel steps marks').map
        (issueIf (found = true) (some step.id) .cycle ++ ·)

/-! ## Python -/

namespace Python

/-- `approval_ref is None` -/
def noRef (approval_ref : Option String) : Bool := approval_ref.isNone

/-- The totals of the main loop, which skip the steps with an invalid
estimate. -/
def addEstimates (totals : Totals) (step : PlanStep α) : Totals :=
  if invalidEstimate step then totals
  else ⟨totals.tokens + step.estimated_tokens, totals.cost + step.estimated_cost_usd⟩

/-- `validate_plan`. The set `visiting` is left as it is between searches. -/
def validate_plan (fuel : ℕ) (steps : List (PlanStep α)) (policy : PlanPolicy α) :
    Option (List PlanIssue) :=
  let (step_by_id, duplicates) := buildLookup steps
  let totals := steps.foldl addEstimates ⟨0, 0⟩
  let issues :=
    tooManySteps steps ++ duplicates ++ steps.flatMap (stepIssues noRef policy step_by_id) ++
      budgetIssues policy totals
  (cycleIssues (fun marks => marks) step_by_id fuel steps ⟨∅, ∅⟩).map (issues ++ ·)

end Python

/-! ## TypeScript -/

namespace TypeScript

/-- `!step.approvalRef` -/
def noRef (approvalRef : Option String) : Bool := approvalRef.isNone || approvalRef == some ""

/-- `validatePlan`. `visiting` is cleared before each search. -/
def validatePlan (fuel : ℕ) (steps : List (PlanStep α)) (policy : PlanPolicy α) :
    Option (List PlanIssue) :=
  let totalTokens := steps.foldl (fun sum s => sum + s.estimated_tokens) 0
  let totalCost := steps.foldl (fun sum s => sum + s.estimated_cost_usd) 0
  let (stepById, duplicates) := buildLookup steps
  let issues :=
    tooManySteps steps ++ budgetIssues policy ⟨totalTokens, totalCost⟩ ++ duplicates ++
      steps.flatMap (stepIssues noRef policy stepById)
  (cycleIssues (fun marks => ⟨∅, marks.visited⟩) stepById fuel steps ⟨∅, ∅⟩).map (issues ++ ·)

end TypeScript

end InterviewPrep.PlanValidator
