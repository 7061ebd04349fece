import InterviewPrep.PlanValidator.Acceptance

/-!
# The two validators report the same issues

The passes of the two validators differ in their order, which a multiset of
issues does not see, and in the totals: Python skips the steps with an invalid
estimate, TypeScript adds the estimates of all steps before it looks at any. A
negative estimate lowers the TypeScript totals, so a plan over budget can pass
the budget check. `same_issues_iff` says when the issues are the same, and that
the plans on which no total is lowered are those without an invalid estimate.
-/

namespace InterviewPrep.PlanValidator

variable {α : Type}

/-! ## The totals -/

/-- `total_tokens` and `total_cost` at the end of the main loop. -/
def Python.totals (steps : List (PlanStep α)) : Totals :=
  steps.foldl addEstimates ⟨0, 0⟩

/-- `totalTokens` and `totalCost`. -/
def TypeScript.totals (steps : List (PlanStep α)) : Totals :=
  ⟨steps.foldl (fun sum s => sum + s.estimated_tokens) 0,
    steps.foldl (fun sum s => sum + s.estimated_cost_usd) 0⟩

/-- The totals are over the budget. -/
def Exceeds (policy : PlanPolicy α) (totals : Totals) : Prop :=
  policy.max_tokens < totals.tokens ∨ policy.max_cost_usd < totals.cost

/-- No step with a negative estimate lowers a total: the plan without the step
has no greater one. -/
def NeverLowered (totals : List (PlanStep α) → Totals) (steps : List (PlanStep α)) : Prop :=
  ∀ before step after, steps = before ++ step :: after → invalidEstimate step →
    (totals (before ++ after)).tokens ≤ (totals steps).tokens ∧
    (totals (before ++ after)).cost ≤ (totals steps).cost

theorem TypeScript.totals_eq_sums (steps : List (PlanStep α)) : totals steps = sums steps := by
  rw [totals, total_eq, total_eq, sums]

/-- Python adds the estimates that are valid. -/
theorem Python.totals_eq_sums (steps : List (PlanStep α)) :
    totals steps = sums (steps.filter fun step => ¬ invalidEstimate step) :=
  totals_eq_filter steps

/-- Python skips the step, whatever comes before and after. -/
theorem Python.neverLowered (steps : List (PlanStep α)) : NeverLowered totals steps := by
  rintro before step after rfl hinvalid
  have hskip : totals (before ++ step :: after) = totals (before ++ after) := by
    simp [totals_eq_sums, hinvalid]
  rw [hskip]
  exact ⟨le_refl _, le_refl _⟩

/-- TypeScript adds the step, so one of the totals is lowered. -/
theorem TypeScript.neverLowered_iff (steps : List (PlanStep α)) :
    NeverLowered totals steps ↔ ∀ step ∈ steps, ¬ invalidEstimate step := by
  constructor
  · intro h step hstep hinvalid
    rcases List.append_of_mem hstep with ⟨before, after, rfl⟩
    have hle := h before step after rfl hinvalid
    simp only [totals_eq_sums, sums, List.map_append, List.map_cons, List.sum_append,
      List.sum_cons, add_le_add_iff_left, le_add_iff_nonneg_left] at hle
    exact not_invalidEstimate_iff.mpr hle hinvalid
  · rintro h before step after rfl hinvalid
    exact absurd hinvalid (h step (by simp))

/-! ## The issues -/

/-- A reference that is absent or non-empty is the same to both tests. -/
theorem noRef_eq {approval_ref : Option String} (h : approval_ref ≠ some "") :
    Python.noRef approval_ref = TypeScript.noRef approval_ref := by
  have hbeq : (approval_ref == some "") = false := beq_eq_false_iff_ne.mpr h
  rw [Python.noRef, TypeScript.noRef, hbeq, Bool.or_false]

theorem flatMap_stepIssues_eq (policy : PlanPolicy α) (step_by_id : StepById α)
    {steps : List (PlanStep α)} (h : ∀ step ∈ steps, step.approval_ref ≠ some "") :
    steps.flatMap (stepIssues Python.noRef policy step_by_id) =
      steps.flatMap (stepIssues TypeScript.noRef policy step_by_id) := by
  apply List.flatMap_congr
  intro step hstep
  rw [stepIssues, stepIssues, noRef_eq (h step hstep)]

/-- An issue is in both multisets or in neither. -/
theorem issueIf_perm_iff {p q : Prop} [Decidable p] [Decidable q] {step_id : Option String}
    {code : Code} : (issueIf p step_id code).Perm (issueIf q step_id code) ↔ (p ↔ q) := by
  by_cases hp : p <;> by_cases hq : q <;> simp [issueIf, hp, hq]

theorem budgetIssues_perm_iff {policy : PlanPolicy α} {totals totals' : Totals} :
    (budgetIssues policy totals).Perm (budgetIssues policy totals') ↔
      (Exceeds policy totals ↔ Exceeds policy totals') :=
  issueIf_perm_iff

/-- The place of the budget check does not matter to the multiset. -/
theorem move_perm_iff {β : Type} (a b b' c d : List β) :
    (a ++ c ++ b ++ d).Perm (a ++ b' ++ c ++ d) ↔ b.Perm b' := by
  have hmove : (a ++ b' ++ c ++ d).Perm (a ++ c ++ b' ++ d) := by
    rw [List.append_assoc a b' c, List.append_assoc a c b']
    exact (List.perm_append_comm.append_left a).append_right d
  rw [hmove.congr_right, List.perm_append_right_iff, List.perm_append_left_iff]

/-- Both validators return. They report the same multiset of issues exactly if
both totals are over the budget or neither is; and they do so with totals that
no negative estimate lowers exactly on the plans without a negative estimate. -/
theorem same_issues_iff (steps : List (PlanStep α)) (policy : PlanPolicy α) {fuel : ℕ}
    (hfuel : steps.length < fuel) (hrefs : ∀ step ∈ steps, step.approval_ref ≠ some "") :
    ∃ issues issues', Python.validate_plan fuel steps policy = some issues ∧
      TypeScript.validatePlan fuel steps policy = some issues' ∧
      (issues.Perm issues' ↔
        (Exceeds policy (sums (steps.filter fun step => ¬ invalidEstimate step)) ↔
          Exceeds policy (sums steps))) ∧
      ((issues.Perm issues' ∧ NeverLowered Python.totals steps ∧
          NeverLowered TypeScript.totals steps) ↔
        ∀ step ∈ steps, ¬ invalidEstimate step) := by
  refine ⟨_, _, Python.validate_plan_eq hfuel policy, TypeScript.validatePlan_eq hfuel policy, ?_⟩
  rw [flatMap_stepIssues_eq policy _ hrefs, List.append_assoc (tooManySteps steps),
    List.append_assoc (tooManySteps steps ++ _) (buildLookup steps).2, move_perm_iff,
    budgetIssues_perm_iff, ← Python.totals_eq_sums, ← Python.totals]
  refine ⟨Iff.rfl, ?_⟩
  rw [TypeScript.neverLowered_iff]
  constructor
  · exact fun h => h.2.2
  · intro h
    have htotals : Python.totals steps = sums steps := Python.totals_eq h
    exact ⟨by rw [htotals], Python.neverLowered steps, h⟩

/-- A step of the tool `tool_name` that estimates its tokens. -/
def estimatedStep (id tool_name : String) (tokens : ℚ) : PlanStep Unit :=
  ⟨id, [], tool_name, (), tokens, 0, none⟩

/-- A plan with a forbidden tool and over budget: the same two issues, in
another order. -/
theorem same_issues_iff_forbidden :
    Python.validate_plan 2 [estimatedStep "A" "export" 12] searchPolicy =
      some [⟨some "A", .tool_forbidden⟩, ⟨none, .budget_exceeded⟩] ∧
    ∃ issues', TypeScript.validatePlan 2 [estimatedStep "A" "export" 12] searchPolicy =
      some issues' ∧ List.Perm [⟨some "A", .tool_forbidden⟩, ⟨none, .budget_exceeded⟩] issues' := by
  have hpython : Python.validate_plan 2 [estimatedStep "A" "export" 12] searchPolicy =
      some [⟨some "A", .tool_forbidden⟩, ⟨none, .budget_exceeded⟩] := by decide +kernel
  rcases same_issues_iff [estimatedStep "A" "export" 12] searchPolicy (by decide : _ < 2)
    (by decide) with ⟨issues, issues', hissues, hissues', -, hiff⟩
  rw [hpython] at hissues
  cases hissues
  exact ⟨hpython, issues', hissues', (hiff.mpr (by decide +kernel)).1⟩

/-- 15 tokens are over the budget of 10. A second step that gives 10 back hides
that from TypeScript. -/
theorem negative_estimate_hides :
    Python.validate_plan 3 [estimatedStep "A" "search" 15, estimatedStep "B" "search" (-10)]
        searchPolicy = some [⟨some "B", .invalid_estimate⟩, ⟨none, .budget_exceeded⟩] ∧
    TypeScript.validatePlan 3 [estimatedStep "A" "search" 15, estimatedStep "B" "search" (-10)]
        searchPolicy = some [⟨some "B", .invalid_estimate⟩] ∧
    ¬ List.Perm [(⟨some "B", .invalid_estimate⟩ : PlanIssue), ⟨none, .budget_exceeded⟩]
      [⟨some "B", .invalid_estimate⟩] ∧
    ¬ NeverLowered TypeScript.totals
      [estimatedStep "A" "search" 15, estimatedStep "B" "search" (-10)] := by
  refine ⟨by decide +kernel, by decide +kernel, by decide, ?_⟩
  rw [TypeScript.neverLowered_iff]
  exact fun h => h (estimatedStep "B" "search" (-10)) (by simp) (by decide +kernel)

end InterviewPrep.PlanValidator
