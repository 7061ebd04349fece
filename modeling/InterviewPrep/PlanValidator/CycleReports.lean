import InterviewPrep.PlanValidator.Acceptance

/-!
# Exactly the cyclic steps are reported

The issues of code `cycle` that a validator returns, in their order: one for each
step, in the order of the plan, from whose id a cycle can be reached. Python
searches on with the set `visiting` that a stopped search has left behind,
TypeScript forgets it, and both report the same issues
(`cycles_reported_exactly`).
-/

namespace InterviewPrep.PlanValidator

open DepthFirst

variable {α : Type}

/-- The issues of code `cycle`. -/
def cycleReports (issues : List PlanIssue) : List PlanIssue :=
  issues.filter (fun issue => issue.code = .cycle)

theorem cycleReports_append (issues issues' : List PlanIssue) :
    cycleReports (issues ++ issues') = cycleReports issues ++ cycleReports issues' :=
  List.filter_append ..

/-- A check for something else reports no cycle. -/
theorem cycleReports_issueIf {p : Prop} [Decidable p] {step_id : Option String} {code : Code}
    (h : code ≠ .cycle) : cycleReports (issueIf p step_id code) = [] := by
  by_cases hp : p <;> simp [cycleReports, issueIf, hp, h]

theorem cycleReports_flatMap {β : Type} {f : β → List PlanIssue}
    (h : ∀ b, cycleReports (f b) = []) (bs : List β) : cycleReports (bs.flatMap f) = [] := by
  induction bs with
  | nil => rfl
  | cons b bs ih => rw [List.flatMap_cons, cycleReports_append, h, ih, List.append_nil]

/-! ## The other passes -/

theorem cycleReports_buildLookup (steps : List (PlanStep α)) :
    cycleReports (buildLookup steps).2 = [] := by
  have hfold : ∀ acc : StepById α × List PlanIssue, cycleReports acc.2 = [] →
      cycleReports (steps.foldl addStep acc).2 = [] := by
    induction steps with
    | nil => exact fun _ h => h
    | cons step steps ih =>
      intro acc h
      apply ih
      unfold addStep
      split
      · rw [cycleReports_append, h]
        rfl
      · exact h
  exact hfold _ rfl

theorem cycleReports_dependencyIssues (step_by_id : StepById α) (step_id : String)
    (deps : List String) :
    ∀ seen_deps, cycleReports (dependencyIssues step_by_id step_id seen_deps deps) = [] := by
  induction deps with
  | nil => exact fun _ => rfl
  | cons dep deps ih =>
    intro seen_deps
    rw [dependencyIssues, cycleReports_append, cycleReports_append, ih,
      cycleReports_issueIf (by decide), cycleReports_issueIf (by decide)]
    rfl

theorem cycleReports_stepIssues (noRef : Option String → Bool) (policy : PlanPolicy α)
    (step_by_id : StepById α) (step : PlanStep α) :
    cycleReports (stepIssues noRef policy step_by_id step) = [] := by
  unfold stepIssues
  simp only [cycleReports_append, cycleReports_dependencyIssues, List.append_nil]
  rw [cycleReports_issueIf (by decide), cycleReports_issueIf (by decide),
    cycleReports_issueIf (by decide), cycleReports_issueIf (by decide)]
  rfl

theorem cycleReports_tooManySteps (steps : List (PlanStep α)) :
    cycleReports (tooManySteps steps) = [] :=
  cycleReports_issueIf (by decide)

theorem cycleReports_budgetIssues (policy : PlanPolicy α) (totals : Totals) :
    cycleReports (budgetIssues policy totals) = [] :=
  cycleReports_issueIf (by decide)

/-- The search for cycles reports nothing else. -/
theorem cycleReports_cyclesFrom (all steps : List (PlanStep α)) :
    cycleReports (cyclesFrom all steps) = cyclesFrom all steps := by
  apply List.filter_eq_self.mpr
  intro issue hissue
  rcases List.mem_flatMap.mp hissue with ⟨step, -, hstep⟩
  unfold issueIf at hstep
  split at hstep
  · rw [List.mem_singleton] at hstep
    simp [hstep]
  · cases hstep

/-! ## The report -/

/-- **Exact cycle reports.** Both validators return, and the issues of code
`cycle` are in both the same list: for each step of the plan in turn, one issue
if a cycle can be reached from its id along the existing dependencies of the
first step with each id, and none otherwise. -/
theorem cycles_reported_exactly (steps : List (PlanStep α)) (policy : PlanPolicy α) {fuel : ℕ}
    (hfuel : steps.length < fuel) :
    (∃ issues, Python.validate_plan fuel steps policy = some issues ∧
      cycleReports issues = cyclesFrom steps steps) ∧
    (∃ issues, TypeScript.validatePlan fuel steps policy = some issues ∧
      cycleReports issues = cyclesFrom steps steps) := by
  constructor
  · refine ⟨_, Python.validate_plan_eq hfuel policy, ?_⟩
    simp only [cycleReports_append, cycleReports_tooManySteps, cycleReports_buildLookup,
      cycleReports_flatMap (cycleReports_stepIssues _ policy _), cycleReports_budgetIssues,
      cycleReports_cyclesFrom, List.nil_append]
  · refine ⟨_, TypeScript.validatePlan_eq hfuel policy, ?_⟩
    simp only [cycleReports_append, cycleReports_tooManySteps, cycleReports_buildLookup,
      cycleReports_flatMap (cycleReports_stepIssues _ policy _), cycleReports_budgetIssues,
      cycleReports_cyclesFrom, List.nil_append]

/-- A step that leads into a cycle, one whose dependency is missing, and a second
step with the id of the first, which has no dependencies itself. -/
def tangledPlan : List (PlanStep Unit) :=
  [searchStep "A" ["B"], searchStep "B" ["C", "B", "B"], searchStep "C" ["D"], searchStep "A" []]

theorem cycles_reported_exactly_tangled :
    cyclesFrom tangledPlan tangledPlan =
      [⟨some "A", .cycle⟩, ⟨some "B", .cycle⟩, ⟨some "A", .cycle⟩] ∧
    ∃ issues, TypeScript.validatePlan 5 tangledPlan searchPolicy = some issues ∧
      cycleReports issues = [⟨some "A", .cycle⟩, ⟨some "B", .cycle⟩, ⟨some "A", .cycle⟩] := by
  rcases cycles_reported_exactly tangledPlan searchPolicy (by decide : _ < 5) with
    ⟨⟨issues, hissues, hreports⟩, issues', hissues', hreports'⟩
  have hrun : (Python.validate_plan 5 tangledPlan searchPolicy).map cycleReports =
      some [⟨some "A", .cycle⟩, ⟨some "B", .cycle⟩, ⟨some "A", .cycle⟩] := by decide +kernel
  rw [hissues, Option.map_some, hreports] at hrun
  have heq := Option.some.inj hrun
  exact ⟨heq, issues', hissues', hreports'.trans heq⟩

end InterviewPrep.PlanValidator
