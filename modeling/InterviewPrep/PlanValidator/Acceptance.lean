import Mathlib.Algebra.BigOperators.Group.List.Basic
import Mathlib.Algebra.Order.Ring.Nat
import Mathlib.Algebra.Order.Ring.Rat
import InterviewPrep.PlanValidator.Cycles

/-!
# Which plans are accepted

`WellFormed` says what an acceptable plan is, without the validators' maps, sets
and passes. `plan_acceptance` says that both validators return, and return no
issue exactly for the well-formed plans.

Each pass has a lemma `.._eq_nil_iff`; the search for cycles follows the
dependencies of the first step with each id, which is the dependency relation
of the plan once the ids are distinct and the dependencies exist.
-/

namespace InterviewPrep.PlanValidator

open DepthFirst Relation

variable {α : Type}

/-! ## Well-formed plans -/

/-- The step with id `a` depends on `b`. -/
def DependsOn (steps : List (PlanStep α)) (a b : String) : Prop :=
  ∃ step ∈ steps, step.id = a ∧ b ∈ step.depends_on

/-- An acceptable plan, where `HasRef` says what an approval reference is. -/
structure WellFormed (HasRef : Option String → Prop) (policy : PlanPolicy α)
    (steps : List (PlanStep α)) : Prop where
  at_most_twenty : steps.length ≤ 20
  ids_distinct : (steps.map PlanStep.id).Nodup
  deps_distinct : ∀ step ∈ steps, step.depends_on.Nodup
  deps_exist : ∀ step ∈ steps, ∀ dep ∈ step.depends_on, ∃ other ∈ steps, other.id = dep
  acyclic : ∀ id, ¬ TransGen (DependsOn steps) id id
  tools : ∀ step ∈ steps, step.tool_name ∈ policy.allowed_tools ∧
    step.tool_name ∈ policy.authorized_tools
  arguments : ∀ step ∈ steps, policy.validate_args step.tool_name step.args = true
  approvals : ∀ step ∈ steps, step.tool_name ∈ policy.high_risk_tools →
    HasRef step.approval_ref ∧ policy.approval_valid step = true
  estimates : ∀ step ∈ steps, 0 ≤ step.estimated_tokens ∧ 0 ≤ step.estimated_cost_usd
  budget : (steps.map PlanStep.estimated_tokens).sum ≤ policy.max_tokens ∧
    (steps.map PlanStep.estimated_cost_usd).sum ≤ policy.max_cost_usd

/-! ## The passes -/

@[simp] theorem issueIf_eq_nil_iff {p : Prop} [Decidable p] {step_id : Option String}
    {code : Code} : issueIf p step_id code = [] ↔ ¬ p := by
  by_cases hp : p <;> simp [issueIf, hp]

/-- No duplicate is reported exactly if the ids are distinct. -/
theorem buildLookup_issues_eq_nil_iff (steps : List (PlanStep α)) :
    (buildLookup steps).2 = [] ↔ (steps.map PlanStep.id).Nodup := by
  induction steps using List.reverseRecOn with
  | nil => simp [buildLookup]
  | append_singleton steps step ih =>
    have hfold : buildLookup (steps ++ [step]) = addStep (buildLookup steps) step := by
      simp [buildLookup]
    have hcontains := buildLookup_contains steps step.id
    rw [hfold, addStep, List.map_append, List.map_singleton, List.nodup_append]
    split
    · rename_i h
      have hex := hcontains.mp h
      simp only [List.append_eq_nil_iff, reduceCtorEq, and_false, false_iff]
      rintro ⟨-, -, hdisjoint⟩
      rcases hex with ⟨first, hfirst, hid⟩
      exact hdisjoint first.id (List.mem_map_of_mem hfirst) step.id (by simp) hid
    · rename_i h
      rw [hcontains] at h
      rw [ih]
      constructor
      · intro hnodup
        refine ⟨hnodup, List.nodup_singleton _, ?_⟩
        intro a ha b hb hab
        rw [List.mem_singleton] at hb
        rcases List.mem_map.mp ha with ⟨first, hfirst, rfl⟩
        exact h ⟨first, hfirst, hab.trans hb⟩
      · exact fun hnodup => hnodup.1

theorem dependencyIssues_eq_nil_iff (step_by_id : StepById α) (step_id : String) :
    ∀ (seen_deps : Finset String) (deps : List String),
      dependencyIssues step_by_id step_id seen_deps deps = [] ↔
        deps.Nodup ∧ (∀ dep ∈ deps, dep ∉ seen_deps) ∧
          ∀ dep ∈ deps, step_by_id.contains dep = true
  | seen_deps, [] => by simp [dependencyIssues]
  | seen_deps, dep :: deps => by
    have ih := dependencyIssues_eq_nil_iff step_by_id step_id (insert dep seen_deps) deps
    rw [dependencyIssues, List.append_eq_nil_iff, List.append_eq_nil_iff, ih,
      issueIf_eq_nil_iff, issueIf_eq_nil_iff, Bool.not_eq_false, List.nodup_cons]
    constructor
    · rintro ⟨⟨hseen, hcontains⟩, hnodup, hfresh, hexist⟩
      refine ⟨⟨?_, hnodup⟩, ?_, ?_⟩
      · intro hmem
        exact hfresh dep hmem (Finset.mem_insert_self dep seen_deps)
      · intro d hd
        rcases List.mem_cons.mp hd with rfl | hd
        · exact hseen
        · exact fun h => hfresh d hd (Finset.mem_insert_of_mem h)
      · intro d hd
        rcases List.mem_cons.mp hd with rfl | hd
        · exact hcontains
        · exact hexist d hd
    · rintro ⟨⟨hnot, hnodup⟩, hfresh, hexist⟩
      refine ⟨⟨hfresh dep (by simp), hexist dep (by simp)⟩, hnodup, ?_, ?_⟩
      · intro d hd hmem
        rcases Finset.mem_insert.mp hmem with rfl | hmem
        · exact hnot hd
        · exact hfresh d (List.mem_cons_of_mem dep hd) hmem
      · exact fun d hd => hexist d (List.mem_cons_of_mem dep hd)

/-- A step is without issues. -/
structure StepOk (HasRef : Option String → Prop) (policy : PlanPolicy α)
    (steps : List (PlanStep α)) (step : PlanStep α) : Prop where
  estimates : 0 ≤ step.estimated_tokens ∧ 0 ≤ step.estimated_cost_usd
  tools : step.tool_name ∈ policy.allowed_tools ∧ step.tool_name ∈ policy.authorized_tools
  arguments : policy.validate_args step.tool_name step.args = true
  approvals : step.tool_name ∈ policy.high_risk_tools →
    HasRef step.approval_ref ∧ policy.approval_valid step = true
  deps_distinct : step.depends_on.Nodup
  deps_exist : ∀ dep ∈ step.depends_on, ∃ other ∈ steps, other.id = dep

theorem not_invalidEstimate_iff {step : PlanStep α} :
    ¬ invalidEstimate step ↔ 0 ≤ step.estimated_tokens ∧ 0 ≤ step.estimated_cost_usd := by
  rw [invalidEstimate, not_or, not_lt, not_lt]

theorem stepIssues_eq_nil_iff {noRef : Option String → Bool} {HasRef : Option String → Prop}
    (hRef : ∀ ref, noRef ref = false ↔ HasRef ref) (policy : PlanPolicy α)
    (steps : List (PlanStep α)) (step : PlanStep α) :
    stepIssues noRef policy (buildLookup steps).1 step = [] ↔ StepOk HasRef policy steps step := by
  have happroval : ¬ (step.tool_name ∈ policy.high_risk_tools ∧
      (noRef step.approval_ref = true ∨ policy.approval_valid step = false)) ↔
      (step.tool_name ∈ policy.high_risk_tools →
        HasRef step.approval_ref ∧ policy.approval_valid step = true) := by
    rw [not_and, not_or, Bool.not_eq_true, Bool.not_eq_false, hRef]
  have hdeps := dependencyIssues_eq_nil_iff (buildLookup steps).1 step.id ∅ step.depends_on
  simp only [buildLookup_contains, Finset.notMem_empty, not_false_eq_true, implies_true,
    true_and] at hdeps
  simp only [stepIssues, List.append_eq_nil_iff, issueIf_eq_nil_iff, not_invalidEstimate_iff,
    happroval, hdeps, not_or, not_not, Bool.not_eq_false]
  constructor
  · rintro ⟨⟨⟨⟨hest, htools⟩, hargs⟩, happ⟩, hnodup, hexist⟩
    exact ⟨hest, htools, hargs, happ, hnodup, hexist⟩
  · rintro ⟨hest, htools, hargs, happ, hnodup, hexist⟩
    exact ⟨⟨⟨⟨hest, htools⟩, hargs⟩, happ⟩, hnodup, hexist⟩

/-- A negative estimate has an issue of its own. -/
theorem not_invalidEstimate_of_stepIssues {noRef : Option String → Bool}
    {policy : PlanPolicy α} {step_by_id : StepById α} {steps : List (PlanStep α)}
    (h : steps.flatMap (stepIssues noRef policy step_by_id) = []) :
    ∀ step ∈ steps, ¬ invalidEstimate step := by
  intro step hstep
  have hnil := List.flatMap_eq_nil_iff.mp h step hstep
  simp only [stepIssues, List.append_eq_nil_iff, issueIf_eq_nil_iff] at hnil
  exact hnil.1.1.1.1

/-! ## The totals -/

/-- The sums over all steps. -/
def sums (steps : List (PlanStep α)) : Totals :=
  ⟨(steps.map PlanStep.estimated_tokens).sum, (steps.map PlanStep.estimated_cost_usd).sum⟩

/-- The Python totals are the sums over the steps with a valid estimate. -/
theorem Python.totals_eq_filter (steps : List (PlanStep α)) :
    steps.foldl Python.addEstimates ⟨0, 0⟩ =
      sums (steps.filter fun step => ¬ invalidEstimate step) := by
  induction steps using List.reverseRecOn with
  | nil => rfl
  | append_singleton steps step ih =>
    rw [List.foldl_append, ih]
    by_cases hstep : invalidEstimate step <;> simp [Python.addEstimates, hstep, sums]

/-- Where no estimate is negative, the Python totals skip nothing. -/
theorem Python.totals_eq {steps : List (PlanStep α)}
    (h : ∀ step ∈ steps, ¬ invalidEstimate step) :
    steps.foldl Python.addEstimates ⟨0, 0⟩ = sums steps := by
  have hall : (steps.filter fun step => ¬ invalidEstimate step) = steps := by
    rw [List.filter_eq_self]
    exact fun step hstep => decide_eq_true (h step hstep)
  rw [totals_eq_filter, hall]

theorem TypeScript.total_eq (f : PlanStep α → ℚ) (steps : List (PlanStep α)) :
    steps.foldl (fun sum s => sum + f s) 0 = (steps.map f).sum := by
  induction steps using List.reverseRecOn with
  | nil => rfl
  | append_singleton steps step ih => simp [ih]

/-! ## The graph of a plan with distinct ids -/

/-- With distinct ids, a step is the first with its id. -/
theorem find?_id_of_mem {steps : List (PlanStep α)} (hnodup : (steps.map PlanStep.id).Nodup)
    {step : PlanStep α} (hstep : step ∈ steps) :
    steps.find? (fun s => decide (s.id = step.id)) = some step := by
  have hex : ∃ first, steps.find? (fun s => decide (s.id = step.id)) = some first := by
    apply Option.isSome_iff_exists.mp
    rw [List.find?_isSome]
    exact ⟨step, hstep, by simp⟩
  rcases hex with ⟨first, hfirst⟩
  have hmem := List.mem_of_find?_eq_some hfirst
  have hid : first.id = step.id := by simpa using List.find?_some hfirst
  rw [hfirst, List.inj_on_of_nodup_map hnodup hmem hstep hid]

theorem dependency_eq_dependsOn {steps : List (PlanStep α)}
    (hnodup : (steps.map PlanStep.id).Nodup)
    (hexist : ∀ step ∈ steps, ∀ dep ∈ step.depends_on, ∃ other ∈ steps, other.id = dep) :
    Dependency steps = DependsOn steps := by
  funext a b
  apply propext
  constructor
  · rintro ⟨⟨step, hfind, hb⟩, -⟩
    have hid : step.id = a := by simpa using List.find?_some hfind
    exact ⟨step, List.mem_of_find?_eq_some hfind, hid, hb⟩
  · rintro ⟨step, hstep, rfl, hb⟩
    exact ⟨⟨step, find?_id_of_mem hnodup hstep, hb⟩, hexist step hstep b hb⟩

/-- A cycle goes through a step, so that it is enough to search from the
steps. -/
theorem acyclic_iff {steps : List (PlanStep α)} :
    (∀ step ∈ steps, ¬ Cyclic (DependsOn steps) step.id) ↔
      ∀ id, ¬ TransGen (DependsOn steps) id id := by
  rw [← forall_not_cyclic_iff]
  constructor
  · intro h id hcyclic
    rcases cyclic_iff_exists_edge.mp hcyclic with ⟨next, ⟨step, hstep, rfl, -⟩, -⟩
    exact h step hstep hcyclic
  · exact fun h step _ => h step.id

/-! ## Acceptance -/

/-- The issues that the validators look for, up to their order. -/
theorem wellFormed_iff {noRef : Option String → Bool} {HasRef : Option String → Prop}
    (hRef : ∀ ref, noRef ref = false ↔ HasRef ref) (policy : PlanPolicy α)
    (steps : List (PlanStep α)) :
    WellFormed HasRef policy steps ↔
      tooManySteps steps = [] ∧ (buildLookup steps).2 = [] ∧
      steps.flatMap (stepIssues noRef policy (buildLookup steps).1) = [] ∧
      budgetIssues policy (sums steps) = [] ∧ cyclesFrom steps steps = [] := by
  rw [tooManySteps, issueIf_eq_nil_iff, not_lt, buildLookup_issues_eq_nil_iff,
    List.flatMap_eq_nil_iff, cyclesFrom, List.flatMap_eq_nil_iff, budgetIssues,
    issueIf_eq_nil_iff, not_or, not_lt, not_lt]
  simp only [stepIssues_eq_nil_iff hRef, issueIf_eq_nil_iff]
  constructor
  · intro h
    have hgraph := dependency_eq_dependsOn h.ids_distinct h.deps_exist
    refine ⟨h.at_most_twenty, h.ids_distinct, ?_, h.budget, ?_⟩
    · intro step hstep
      exact ⟨h.estimates step hstep, h.tools step hstep, h.arguments step hstep,
        h.approvals step hstep, h.deps_distinct step hstep, h.deps_exist step hstep⟩
    · rw [hgraph]
      exact acyclic_iff.mpr h.acyclic
  · rintro ⟨htwenty, hnodup, hsteps, hbudget, hcycles⟩
    have hexist := fun step hstep => (hsteps step hstep).deps_exist
    rw [dependency_eq_dependsOn hnodup hexist] at hcycles
    exact {
      at_most_twenty := htwenty
      ids_distinct := hnodup
      deps_distinct := fun step hstep => (hsteps step hstep).deps_distinct
      deps_exist := hexist
      acyclic := acyclic_iff.mp hcycles
      tools := fun step hstep => (hsteps step hstep).tools
      arguments := fun step hstep => (hsteps step hstep).arguments
      approvals := fun step hstep => (hsteps step hstep).approvals
      estimates := fun step hstep => (hsteps step hstep).estimates
      budget := hbudget }

/-- What `is None` and `!approvalRef` let pass. -/
theorem Python.noRef_eq_false_iff (ref : Option String) : noRef ref = false ↔ ref ≠ none := by
  cases ref <;> simp [noRef]

theorem TypeScript.noRef_eq_false_iff (ref : Option String) :
    noRef ref = false ↔ ∃ s, ref = some s ∧ s ≠ "" := by
  cases ref <;> simp [noRef]

/-- What the Python validator returns. -/
theorem Python.validate_plan_eq {steps : List (PlanStep α)} {fuel : ℕ}
    (hfuel : steps.length < fuel) (policy : PlanPolicy α) :
    validate_plan fuel steps policy =
      some (tooManySteps steps ++ (buildLookup steps).2 ++
        steps.flatMap (stepIssues noRef policy (buildLookup steps).1) ++
        budgetIssues policy (steps.foldl addEstimates ⟨0, 0⟩) ++ cyclesFrom steps steps) := by
  show (cycleIssues (fun marks => marks) (buildLookup steps).1 fuel steps ⟨∅, ∅⟩).map _ = _
  rw [Python.cycleIssues_eq hfuel, Option.map_some]
  rfl

/-- What the TypeScript validator returns. -/
theorem TypeScript.validatePlan_eq {steps : List (PlanStep α)} {fuel : ℕ}
    (hfuel : steps.length < fuel) (policy : PlanPolicy α) :
    validatePlan fuel steps policy =
      some (tooManySteps steps ++ budgetIssues policy (sums steps) ++ (buildLookup steps).2 ++
        steps.flatMap (stepIssues noRef policy (buildLookup steps).1) ++
        cyclesFrom steps steps) := by
  show (cycleIssues (fun marks => ⟨∅, marks.visited⟩) (buildLookup steps).1 fuel steps
    ⟨∅, ∅⟩).map _ = _
  rw [TypeScript.cycleIssues_eq hfuel, Option.map_some, total_eq, total_eq, sums]
  rfl

/-- Python accepts the well-formed plans. -/
theorem Python.accepts_iff {steps : List (PlanStep α)} {fuel : ℕ}
    (hfuel : steps.length < fuel) (policy : PlanPolicy α) :
    ∃ issues, validate_plan fuel steps policy = some issues ∧
      (issues = [] ↔ WellFormed (· ≠ none) policy steps) := by
  refine ⟨_, validate_plan_eq hfuel policy, ?_⟩
  rw [wellFormed_iff noRef_eq_false_iff]
  simp only [List.append_eq_nil_iff]
  constructor
  · rintro ⟨⟨⟨⟨htwenty, hdup⟩, hsteps⟩, hbudget⟩, hcycles⟩
    -- no estimate is negative, so the totals are the sums
    rw [totals_eq (not_invalidEstimate_of_stepIssues hsteps)] at hbudget
    exact ⟨htwenty, hdup, hsteps, hbudget, hcycles⟩
  · rintro ⟨htwenty, hdup, hsteps, hbudget, hcycles⟩
    rw [totals_eq (not_invalidEstimate_of_stepIssues hsteps)]
    exact ⟨⟨⟨⟨htwenty, hdup⟩, hsteps⟩, hbudget⟩, hcycles⟩

/-- TypeScript accepts the well-formed plans. -/
theorem TypeScript.accepts_iff {steps : List (PlanStep α)} {fuel : ℕ}
    (hfuel : steps.length < fuel) (policy : PlanPolicy α) :
    ∃ issues, validatePlan fuel steps policy = some issues ∧
      (issues = [] ↔ WellFormed (fun ref => ∃ s, ref = some s ∧ s ≠ "") policy steps) := by
  refine ⟨_, validatePlan_eq hfuel policy, ?_⟩
  rw [wellFormed_iff noRef_eq_false_iff]
  simp only [List.append_eq_nil_iff]
  constructor
  · rintro ⟨⟨⟨⟨htwenty, hbudget⟩, hdup⟩, hsteps⟩, hcycles⟩
    exact ⟨htwenty, hdup, hsteps, hbudget, hcycles⟩
  · rintro ⟨htwenty, hdup, hsteps, hbudget, hcycles⟩
    exact ⟨⟨⟨⟨htwenty, hbudget⟩, hdup⟩, hsteps⟩, hcycles⟩

/-- Both validators return, also on cyclic plans, and return no issue exactly
for the well-formed plans. -/
theorem plan_acceptance (steps : List (PlanStep α)) (policy : PlanPolicy α) {fuel : ℕ}
    (hfuel : steps.length < fuel) :
    (∃ issues, Python.validate_plan fuel steps policy = some issues ∧
      (issues = [] ↔ WellFormed (· ≠ none) policy steps)) ∧
    (∃ issues, TypeScript.validatePlan fuel steps policy = some issues ∧
      (issues = [] ↔ WellFormed (fun ref => ∃ s, ref = some s ∧ s ≠ "") policy steps)) :=
  ⟨Python.accepts_iff hfuel policy, TypeScript.accepts_iff hfuel policy⟩

/-- A policy of one tool, "search". -/
def searchPolicy : PlanPolicy Unit where
  allowed_tools := {"search"}
  authorized_tools := {"search"}
  high_risk_tools := ∅
  max_tokens := 10
  max_cost_usd := 1
  validate_args := fun _ _ => true
  approval_valid := fun _ => false

/-- A step that searches. -/
def searchStep (id : String) (depends_on : List String) : PlanStep Unit :=
  ⟨id, depends_on, "search", (), 1, 0, none⟩

/-- The plan of the question, "A depends on B, B depends on A", is rejected
with a cycle at each step. -/
theorem plan_acceptance_mutual :
    Python.validate_plan 3 [searchStep "A" ["B"], searchStep "B" ["A"]] searchPolicy =
      some [⟨some "A", .cycle⟩, ⟨some "B", .cycle⟩] ∧
    ¬ WellFormed (· ≠ none) searchPolicy [searchStep "A" ["B"], searchStep "B" ["A"]] := by
  have hrun : Python.validate_plan 3 [searchStep "A" ["B"], searchStep "B" ["A"]] searchPolicy =
      some [⟨some "A", .cycle⟩, ⟨some "B", .cycle⟩] := by decide +kernel
  refine ⟨hrun, ?_⟩
  rcases (plan_acceptance [searchStep "A" ["B"], searchStep "B" ["A"]] searchPolicy
    (by decide : _ < 3)).1 with ⟨issues, hissues, hiff⟩
  rw [hrun] at hissues
  intro hwf
  have hnil := hiff.mpr hwf
  rw [hnil] at hissues
  cases hissues

end InterviewPrep.PlanValidator
