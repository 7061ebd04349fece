import InterviewPrep.Dsa.DependencyOrder
import InterviewPrep.Lib.HashTable

/-!
# The order of the Python version

The search of `dependency_order` finishes every task after its dependencies, but the
function returns `list(visited)`, and a set has an order of its own. CPython iterates
the set of all tasks in ascending order. So the order of the search survives exactly
if every task has a greater number than its dependencies
(`python_keeps_order_iff`), and what the task asks for is returned exactly if the pairs
have a cycle or all go upwards (`cpython_documented_iff`).
-/

namespace InterviewPrep.DependencyOrder

variable {n : ℕ} {pairs : List (ℕ × ℕ)}

/-- Without a cycle, the Python version returns the tasks in ascending order. -/
theorem dependency_order_eq_range (hrange : InRange n pairs) (hacyclic : ¬ CyclicPairs pairs) :
    Python.dependency_order .cpython n pairs = .ok (List.range n) := by
  rcases ordered_spec .keyError .cpython hrange with ⟨hcyclic, -⟩ | ⟨-, visited, hfin, hrun⟩
  · exact absurd hcyclic hacyclic
  · rw [Python.dependency_order, hrun, IterationOrder.cpython_range hfin.perm]

/-- The order of the search is kept exactly if all dependencies have smaller numbers. -/
theorem python_keeps_order_iff (hrange : InRange n pairs) (hacyclic : ¬ CyclicPairs pairs) :
    (∃ order, Python.dependency_order .cpython n pairs = .ok order ∧ Finished n pairs order) ↔
      ∀ pair ∈ pairs, pair.2 < pair.1 := by
  rw [dependency_order_eq_range hrange hacyclic]
  constructor
  · rintro ⟨order, horder, hfin⟩ pair hpair
    rcases Except.ok.inj horder with rfl
    rcases hrange pair hpair with ⟨htask, hdependency⟩
    exact (before_range_iff hdependency htask).mp (hfin.before pair hpair)
  · intro hless
    refine ⟨List.range n, rfl, List.Perm.refl _, ?_⟩
    intro pair hpair
    rcases hrange pair hpair with ⟨htask, hdependency⟩
    exact (before_range_iff hdependency htask).mpr (hless pair hpair)

/-- Read as the task asks for it, an order is right exactly for pairs that all go upwards. -/
theorem cpython_documented_iff (hrange : InRange n pairs) :
    Documented n pairs (Python.dependency_order .cpython n pairs) ↔
      CyclicPairs pairs ∨ ∀ pair ∈ pairs, pair.1 < pair.2 :=
  python_documented_iff (fun _ _ h => IterationOrder.cpython_range h) hrange

/-- Pairs for which the search finishes a task have no cycle. -/
theorem not_cyclicPairs_of_ordered (hrange : InRange n pairs) {t : ℕ} {order : List ℕ}
    (h : TypeScript.dependencyOrder n pairs = .ok (t :: order)) : ¬ CyclicPairs pairs := by
  rcases ordered_spec .typeError .inserted hrange with ⟨-, hrun⟩ | ⟨hacyclic, -⟩
  · rw [TypeScript.dependencyOrder, hrun] at h
    cases h
  · exact hacyclic

theorem python_keeps_order_iff_pair :
    (∃ order, Python.dependency_order .cpython 2 [(1, 0)] = .ok order ∧
      Finished 2 [(1, 0)] order) ↔ ∀ pair ∈ [(1, 0)], pair.2 < pair.1 := by
  have hscript : TypeScript.dependencyOrder 2 [(1, 0)] = .ok [0, 1] := by decide
  exact python_keeps_order_iff (by decide) (not_cyclicPairs_of_ordered (by decide) hscript)

/-- Task 0 needs task 1, which the search finishes first, and which the set has last. -/
theorem dependency_last :
    ¬ CyclicPairs [(0, 1)] ∧ TypeScript.dependencyOrder 2 [(0, 1)] = .ok [1, 0] ∧
      Python.dependency_order .cpython 2 [(0, 1)] = .ok [0, 1] ∧
      ¬ ∃ order, Python.dependency_order .cpython 2 [(0, 1)] = .ok order ∧
        Finished 2 [(0, 1)] order := by
  have hscript : TypeScript.dependencyOrder 2 [(0, 1)] = .ok [1, 0] := by decide
  have hpython : Python.dependency_order .cpython 2 [(0, 1)] = .ok [0, 1] := by decide +kernel
  refine ⟨not_cyclicPairs_of_ordered (by decide) hscript, hscript, hpython, ?_⟩
  rintro ⟨order, horder, hfin⟩
  rw [hpython] at horder
  rcases Except.ok.inj horder with rfl
  exact absurd (hfin.before (0, 1) (by decide)) (by decide)

end InterviewPrep.DependencyOrder
