import InterviewPrep.Lib.Grouping
import InterviewPrep.PlanValidator.Model

/-!
# The cycles that are reported

The graph that `has_cycle` searches has an edge to each existing dependency of
the first step with an id. `cycleIssues_eq` says that the loop over the steps
reports exactly the steps from which a cycle of this graph can be reached,
whether or not the set `visiting` is cleared before each search: what a stopped
search leaves in it reaches a cycle.
-/

namespace InterviewPrep.PlanValidator

open DepthFirst

variable {α : Type}

/-! ## The map of steps -/

/-- The issues do not matter for the map. -/
theorem buildLookup_fst (steps : List (PlanStep α)) :
    (buildLookup steps).1 = firstByKey PlanStep.id steps := by
  refine (List.foldl_hom Prod.fst ?_).symm
  intro acc step
  unfold addStep enterFirst
  split
  · rfl
  · rfl

/-- The map holds the first step with each id. -/
theorem buildLookup_get? (steps : List (PlanStep α)) (id : String) :
    (buildLookup steps).1.get? id = steps.find? (fun step => decide (step.id = id)) := by
  rw [buildLookup_fst]
  exact get?_firstByKey PlanStep.id steps id

theorem buildLookup_contains (steps : List (PlanStep α)) (id : String) :
    (buildLookup steps).1.contains id = true ↔ ∃ step ∈ steps, step.id = id := by
  rw [OrderedDict.contains_eq_isSome, buildLookup_get?, List.find?_isSome]
  simp

/-! ## The graph -/

/-- The graph of a plan: the existing dependencies of the first step with each
id. -/
def Dependency (steps : List (PlanStep α)) (a b : String) : Prop :=
  (∃ step, steps.find? (fun step => decide (step.id = a)) = some step ∧ b ∈ step.depends_on) ∧
    ∃ other ∈ steps, other.id = b

/-- The search follows the edges of the graph. -/
theorem edge_existingDeps (steps : List (PlanStep α)) :
    Edge (existingDeps (buildLookup steps).1) = Dependency steps := by
  funext a b
  apply propext
  rw [Edge, existingDeps, buildLookup_get?, Dependency]
  cases hfind : steps.find? (fun step => decide (step.id = a)) with
  | none => simp
  | some step => simp only [List.mem_filter, buildLookup_contains, Option.some.injEq,
      exists_eq_left']

/-- All the ids of a plan. -/
def ids (steps : List (PlanStep α)) : Finset String := (steps.map PlanStep.id).toFinset

theorem mem_ids {steps : List (PlanStep α)} {id : String} :
    id ∈ ids steps ↔ ∃ step ∈ steps, step.id = id := by
  simp [ids]

theorem card_ids_le (steps : List (PlanStep α)) : (ids steps).card ≤ steps.length := by
  have h := List.toFinset_card_le (steps.map PlanStep.id)
  rwa [List.length_map] at h

/-- The search does not leave the ids. -/
theorem existingDeps_mem_ids (steps : List (PlanStep α)) :
    ∀ v ∈ ids steps, ∀ w ∈ existingDeps (buildLookup steps).1 v, w ∈ ids steps := by
  intro v _ w hw
  have hedge : Dependency steps v w := by
    rw [← edge_existingDeps]
    exact hw
  exact mem_ids.mpr hedge.2

/-! ## The loop -/

open Classical in
/-- One issue for each step from whose id a cycle can be reached. -/
noncomputable def cyclesFrom (all steps : List (PlanStep α)) : List PlanIssue :=
  steps.flatMap fun step => issueIf (Cyclic (Dependency all) step.id) (some step.id) .cycle

/-- The loop reports a step exactly if a cycle can be reached from its id, if
what happens before each search keeps the sets in order. -/
theorem cycleIssues_eq (all : List (PlanStep α)) {before : Marks String → Marks String}
    {fuel : ℕ} (hfuel : all.length < fuel)
    (hbefore : ∀ m, m.Sound (existingDeps (buildLookup all).1) →
      m.Stopped (existingDeps (buildLookup all).1) →
      (before m).Sound (existingDeps (buildLookup all).1) ∧
        (before m).Stopped (existingDeps (buildLookup all).1)) :
    ∀ (steps : List (PlanStep α)) (m : Marks String), (∀ step ∈ steps, step ∈ all) →
      m.Sound (existingDeps (buildLookup all).1) →
      m.Stopped (existingDeps (buildLookup all).1) →
      cycleIssues before (buildLookup all).1 fuel steps m = some (cyclesFrom all steps) := by
  intro steps
  induction steps with
  | nil =>
    intro m _ _ _
    rfl
  | cons step steps ih =>
    intro m hsub hsound hstopped
    rcases hbefore m hsound hstopped with ⟨hsound₀, hstopped₀⟩
    have hmem : step.id ∈ ids all := mem_ids.mpr ⟨step, hsub step (by simp), rfl⟩
    have hcard : (ids all \ (before m).visiting).card < fuel := by
      have hle := Finset.card_le_card (Finset.sdiff_subset (s := ids all) (t := (before m).visiting))
      have hids := card_ids_le all
      omega
    have hfind := search_spec (existingDeps_mem_ids all) fuel step.id (before m) hmem hcard
      hsound₀ (hstopped₀.pending step.id)
    have ih := fun m' => ih m' (fun s hs => hsub s (List.mem_cons_of_mem step hs))
    rw [edge_existingDeps] at hfind
    rw [cycleIssues, has_cycle, cyclesFrom, List.flatMap_cons, ← cyclesFrom]
    generalize search (existingDeps (buildLookup all).1) fuel step.id (before m) = r at hfind ⊢
    cases hfind with
    | @cycle m' hcyclic hsound' hstopped' =>
      show (cycleIssues before (buildLookup all).1 fuel steps m').map _ = _
      rw [ih m' hsound' hstopped']
      simp [issueIf, hcyclic]
    | @none m' hnot hsound' hvisiting =>
      show (cycleIssues before (buildLookup all).1 fuel steps m').map _ = _
      rw [ih m' hsound' (by rw [Marks.Stopped, hvisiting]; exact hstopped₀)]
      simp [issueIf, hnot]

/-- Before the first search. -/
theorem sound_stopped_empty (succ : String → List String) :
    Marks.Sound succ ⟨∅, ∅⟩ ∧ Marks.Stopped succ ⟨∅, ∅⟩ := by
  constructor
  · intro w hw
    exact absurd hw (Finset.notMem_empty w)
  · intro w hw
    exact absurd hw (Finset.notMem_empty w)

variable {steps : List (PlanStep α)} {fuel : ℕ}

/-- Python searches on with what the last search left. -/
theorem Python.cycleIssues_eq (hfuel : steps.length < fuel) :
    cycleIssues (fun marks => marks) (buildLookup steps).1 fuel steps ⟨∅, ∅⟩ =
      some (cyclesFrom steps steps) := by
  have hinit := sound_stopped_empty (existingDeps (buildLookup steps).1)
  apply PlanValidator.cycleIssues_eq steps hfuel _ steps _ (fun _ h => h) hinit.1 hinit.2
  intro m hsound hstopped
  exact ⟨hsound, hstopped⟩

/-- TypeScript clears `visiting` before each search. -/
theorem TypeScript.cycleIssues_eq (hfuel : steps.length < fuel) :
    cycleIssues (fun marks => ⟨∅, marks.visited⟩) (buildLookup steps).1 fuel steps ⟨∅, ∅⟩ =
      some (cyclesFrom steps steps) := by
  have hinit := sound_stopped_empty (existingDeps (buildLookup steps).1)
  apply PlanValidator.cycleIssues_eq steps hfuel _ steps _ (fun _ h => h) hinit.1 hinit.2
  intro m hsound _
  exact ⟨hsound, hinit.2⟩

end InterviewPrep.PlanValidator
