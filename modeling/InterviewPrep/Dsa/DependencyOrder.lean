import InterviewPrep.Lib.OrderedDict
import InterviewPrep.Lib.PostOrder

/-!
# Dependency order

`dependencyOrder` of `dsa/dependency_order/answer.ts` and `dependency_order` of
`answer.py`: a depth-first search whose finished tasks are the answer
(`Lib/PostOrder.lean`). `question.md` has pairs `[prerequisite, dependent]`; both
functions read a pair as `[task, dependency]` and finish the second component
first (`ordered_spec`). Python moreover returns a set, in the set's own order.
So what is documented holds only where there is nothing to order
(`documented_iff`).

The recursion of `dfs` has no depth limit here.
-/

namespace InterviewPrep.DependencyOrder

open DepthFirst Relation

/-! ## The program -/

/-- The ways in which the functions do not return. -/
inductive Error where
  | typeError
  | keyError
  | outOfFuel
deriving DecidableEq

/-- The first loop: an empty set for each task. -/
def emptyMap (taskCount : ℕ) : OrderedDict ℕ (OrderedSet ℕ) :=
  (List.range taskCount).foldl (fun map task => map.setItem task OrderedSet.empty)
    OrderedDict.empty

/-- `dependencyMap.get(task)!.add(dependency)`, with the error of a missing task. -/
def addDependency (missing : Error) (map : OrderedDict ℕ (OrderedSet ℕ))
    (pair : ℕ × ℕ) : Except Error (OrderedDict ℕ (OrderedSet ℕ)) :=
  match map.get? pair.1 with
  | none => .error missing
  | some dependencies => .ok (map.setItem pair.1 (dependencies.add pair.2))

/-- `dependencyMap` -/
def dependencyMap (missing : Error) (taskCount : ℕ) (dependencies : List (ℕ × ℕ)) :
    Except Error (OrderedDict ℕ (OrderedSet ℕ)) :=
  dependencies.foldlM (addDependency missing) (emptyMap taskCount)

/-- `dependencyMap.get(task) ?? []`, in the order of its iteration. -/
def dependenciesOf (sets : IterationOrder ℕ) (map : OrderedDict ℕ (OrderedSet ℕ)) (task : ℕ) :
    List ℕ :=
  match map.get? task with
  | none => []
  | some dependencies => sets.order dependencies.elems

/-- The function of both languages. They differ in the error and in the order in
which sets are iterated. -/
def ordered (missing : Error) (sets : IterationOrder ℕ) (taskCount : ℕ)
    (dependencies : List (ℕ × ℕ)) : Except Error (List ℕ) := do
  let map ← dependencyMap missing taskCount dependencies
  let dfs := visit (dependenciesOf sets map) (taskCount + dependencies.length + 1)
  match visitAll dfs (List.range taskCount) OrderedMarks.start with
  | none => .error .outOfFuel
  | some (false, _) => .ok []
  | some (true, m) => .ok (sets.order m.visited.elems)

namespace TypeScript

/-- `dependencyOrder` -/
def dependencyOrder (taskCount : ℕ) (dependencies : List (ℕ × ℕ)) : Except Error (List ℕ) :=
  ordered .typeError .inserted taskCount dependencies

end TypeScript

namespace Python

/-- `dependency_order` -/
def dependency_order (sets : IterationOrder ℕ) (task_count : ℕ) (dependencies : List (ℕ × ℕ)) :
    Except Error (List ℕ) :=
  ordered .keyError sets task_count dependencies

end Python

/-! ## The map -/

/-- The map has the tasks, each with the second components of its pairs. -/
structure MapOf (n : ℕ) (pairs : List (ℕ × ℕ)) (map : OrderedDict ℕ (OrderedSet ℕ)) : Prop where
  absent : ∀ t, n ≤ t → map.get? t = none
  present : ∀ t < n, ∃ dependencies, map.get? t = some dependencies ∧
    ∀ d, d ∈ dependencies.elems ↔ (t, d) ∈ pairs

theorem mapOf_emptyMap (n : ℕ) : MapOf n [] (emptyMap n) := by
  induction n with
  | zero => exact ⟨fun _ _ => rfl, fun t ht => absurd ht (Nat.not_lt_zero t)⟩
  | succ n ih =>
    have hstep : emptyMap (n + 1) = (emptyMap n).setItem n OrderedSet.empty := by
      simp [emptyMap, List.range_succ]
    rw [hstep]
    constructor
    · intro t ht
      rw [OrderedDict.get?_setItem_of_ne _ _ (by omega)]
      exact ih.absent t (by omega)
    · intro t ht
      rcases Nat.lt_succ_iff_lt_or_eq.mp ht with ht | rfl
      · rw [OrderedDict.get?_setItem_of_ne _ _ (by omega)]
        exact ih.present t ht
      · exact ⟨OrderedSet.empty, OrderedDict.get?_setItem_self _ _ _, by simp⟩

theorem MapOf.add {n : ℕ} {pairs : List (ℕ × ℕ)} {map : OrderedDict ℕ (OrderedSet ℕ)}
    (h : MapOf n pairs map) (missing : Error) {pair : ℕ × ℕ} (hpair : pair.1 < n) :
    ∃ map', addDependency missing map pair = .ok map' ∧ MapOf n (pairs ++ [pair]) map' := by
  rcases pair with ⟨task, dependency⟩
  rcases h.present task hpair with ⟨dependencies, hget, hmem⟩
  refine ⟨map.setItem task (dependencies.add dependency), by simp [addDependency, hget], ?_, ?_⟩
  · intro t ht
    have hne : t ≠ task := by
      rintro rfl
      exact absurd hpair (Nat.not_lt.mpr ht)
    rw [OrderedDict.get?_setItem_of_ne _ _ hne]
    exact h.absent t ht
  · intro t ht
    by_cases heq : t = task
    · subst heq
      refine ⟨_, OrderedDict.get?_setItem_self _ _ _, fun d => ?_⟩
      simp [hmem]
    · rcases h.present t ht with ⟨others, hothers, hmem'⟩
      refine ⟨others, by rw [OrderedDict.get?_setItem_of_ne _ _ heq, hothers], fun d => ?_⟩
      simp [hmem', heq]

/-- The second loop succeeds when the first components are tasks. -/
theorem dependencyMap_ok {n : ℕ} {pairs : List (ℕ × ℕ)} (hpairs : ∀ pair ∈ pairs, pair.1 < n)
    (missing : Error) : ∃ map, dependencyMap missing n pairs = .ok map ∧ MapOf n pairs map := by
  induction pairs using List.reverseRecOn with
  | nil => exact ⟨emptyMap n, rfl, mapOf_emptyMap n⟩
  | append_singleton pairs pair ih =>
    rw [List.forall_mem_append, List.forall_mem_singleton] at hpairs
    rcases ih hpairs.1 with ⟨map, hmap, hof⟩
    rcases hof.add missing hpairs.2 with ⟨map', hadd, hof'⟩
    refine ⟨map', ?_, hof'⟩
    unfold dependencyMap at hmap ⊢
    rw [List.foldlM_append, hmap]
    simp [bind, Except.bind, hadd, pure, Except.pure]

/-! ## The order -/

/-- The pairs are over the tasks. -/
def InRange (n : ℕ) (pairs : List (ℕ × ℕ)) : Prop := ∀ pair ∈ pairs, pair.1 < n ∧ pair.2 < n

instance (n : ℕ) (pairs : List (ℕ × ℕ)) : Decidable (InRange n pairs) :=
  inferInstanceAs (Decidable (∀ pair ∈ pairs, pair.1 < n ∧ pair.2 < n))

/-- Some task leads back to itself. -/
def CyclicPairs (pairs : List (ℕ × ℕ)) : Prop :=
  ∃ t, TransGen (fun a b => (a, b) ∈ pairs) t t

/-- `a` stands before `b`. -/
def Before (order : List ℕ) (a b : ℕ) : Prop := order.idxOf a < order.idxOf b

instance (order : List ℕ) (a b : ℕ) : Decidable (Before order a b) :=
  inferInstanceAs (Decidable (order.idxOf a < order.idxOf b))

theorem not_cyclicPairs_nil : ¬ CyclicPairs [] := by
  rintro ⟨t, ht⟩
  rcases TransGen.head'_iff.mp ht with ⟨u, hu, -⟩
  simp at hu

section Search

variable {n : ℕ} {pairs : List (ℕ × ℕ)} {map : OrderedDict ℕ (OrderedSet ℕ)}

/-- The search follows the pairs. -/
theorem mem_dependenciesOf (sets : IterationOrder ℕ) (hmap : MapOf n pairs map)
    (hrange : InRange n pairs) {t d : ℕ} :
    d ∈ dependenciesOf sets map t ↔ (t, d) ∈ pairs := by
  unfold dependenciesOf
  rcases Nat.lt_or_ge t n with ht | ht
  · rcases hmap.present t ht with ⟨dependencies, hget, hmem⟩
    rw [hget]
    exact (sets.mem_order).trans (hmem d)
  · rw [hmap.absent t ht]
    refine iff_of_false List.not_mem_nil fun hpair => ?_
    exact absurd (hrange _ hpair).1 (Nat.not_lt.mpr ht)

/-- No task reaches a cycle exactly if there is none. -/
theorem forall_not_cyclic_iff_pairs (sets : IterationOrder ℕ) (hmap : MapOf n pairs map)
    (hrange : InRange n pairs) :
    (∀ t ∈ List.range n, ¬ Cyclic (Edge (dependenciesOf sets map)) t) ↔ ¬ CyclicPairs pairs := by
  have hedge : Edge (dependenciesOf sets map) = fun a b => (a, b) ∈ pairs := by
    funext a b
    exact propext (mem_dependenciesOf sets hmap hrange)
  rw [hedge]
  constructor
  · rintro h ⟨t, ht⟩
    -- a task of a cycle has a pair
    rcases TransGen.head'_iff.mp ht with ⟨u, hu, -⟩
    exact h t (List.mem_range.mpr (hrange _ hu).1) ⟨t, ReflTransGen.refl, ht⟩
  · rintro h t - ⟨u, -, hu⟩
    exact h ⟨u, hu⟩

end Search

/-- What the search finishes: all tasks, the second component of a pair before the
first. -/
structure Finished (n : ℕ) (pairs : List (ℕ × ℕ)) (visited : List ℕ) : Prop where
  perm : visited.Perm (List.range n)
  before : ∀ pair ∈ pairs, Before visited pair.2 pair.1

/-- The functions return. The answer is empty if there is a cycle, and else the
finished tasks, as the set is iterated. -/
theorem ordered_spec (missing : Error) (sets : IterationOrder ℕ) {n : ℕ}
    {pairs : List (ℕ × ℕ)} (hrange : InRange n pairs) :
    CyclicPairs pairs ∧ ordered missing sets n pairs = .ok [] ∨
      ¬ CyclicPairs pairs ∧ ∃ visited, Finished n pairs visited ∧
        ordered missing sets n pairs = .ok (sets.order visited) := by
  rcases dependencyMap_ok (fun pair hp => (hrange pair hp).1) missing with ⟨map, hmap, hof⟩
  have hmem : ∀ {t d}, d ∈ dependenciesOf sets map t ↔ (t, d) ∈ pairs :=
    mem_dependenciesOf sets hof hrange
  have hclosed : ∀ t ∈ Finset.range n, ∀ d ∈ dependenciesOf sets map t, d ∈ Finset.range n := by
    intro t _ d hd
    exact Finset.mem_range.mpr (hrange _ (hmem.mp hd)).2
  have hfuel : (Finset.range n).card < n + pairs.length + 1 := by
    rw [Finset.card_range]
    omega
  have htasks : ∀ t ∈ List.range n, t ∈ Finset.range n := by simp
  rcases visitAll_spec hclosed htasks hfuel with ⟨ok, m, hrun, hok, hpost⟩
  rw [forall_not_cyclic_iff_pairs sets hof hrange] at hok
  have hordered : ordered missing sets n pairs =
      match ok with
      | false => .ok []
      | true => .ok (sets.order m.visited.elems) := by
    simp only [ordered, hmap, bind, Except.bind, hrun]
    cases ok <;> rfl
  cases ok with
  | false =>
    have hcyclic : CyclicPairs pairs := by
      by_contra hnot
      exact absurd (hok.mpr hnot) Bool.false_ne_true
    exact Or.inl ⟨hcyclic, hordered⟩
  | true =>
    rcases hpost rfl with ⟨hpost, hcover, hwithin⟩
    refine Or.inr ⟨hok.mp rfl, m.visited.elems, ⟨?_, ?_⟩, hordered⟩
    · rw [List.perm_ext_iff_of_nodup m.visited.nodup List.nodup_range]
      intro t
      constructor
      · intro ht
        exact List.mem_range.mpr (Finset.mem_range.mp (hwithin t ht))
      · intro ht
        exact hcover ht
    · intro pair hpair
      have htask : pair.1 ∈ m.visited.elems :=
        hcover (List.mem_range.mpr (hrange pair hpair).1)
      exact hpost.idxOf_lt htask (hmem.mpr hpair)

/-- The TypeScript version is the depth-first search that its map of dependencies asks
for: it returns nothing exactly if there are no tasks or a cycle, and otherwise every
task once, each after its dependencies. -/
theorem dependencyOrder_finishes {n : ℕ} {pairs : List (ℕ × ℕ)} (hrange : InRange n pairs) :
    ∃ order, TypeScript.dependencyOrder n pairs = .ok order ∧
      (order = [] ↔ n = 0 ∨ CyclicPairs pairs) ∧
      (¬ (n = 0 ∨ CyclicPairs pairs) → Finished n pairs order) := by
  rcases ordered_spec .typeError .inserted hrange with ⟨hcyclic, hrun⟩ | ⟨hacyclic, order, hfin, hrun⟩
  · exact ⟨[], hrun, iff_of_true rfl (Or.inr hcyclic), fun hnot => absurd (Or.inr hcyclic) hnot⟩
  · refine ⟨order, hrun, ?_, fun _ => hfin⟩
    rw [← List.length_eq_zero_iff, hfin.perm.length_eq, List.length_range]
    exact ⟨Or.inl, fun h => h.resolve_right hacyclic⟩

/-- Two tasks that need a third, one of them twice, and a task alone. -/
theorem dependencyOrder_finishes_shared :
    ∃ order, TypeScript.dependencyOrder 4 [(0, 2), (1, 2), (0, 2), (0, 1)] = .ok order ∧
      (order = [] ↔ 4 = 0 ∨ CyclicPairs [(0, 2), (1, 2), (0, 2), (0, 1)]) ∧
      (¬ (4 = 0 ∨ CyclicPairs [(0, 2), (1, 2), (0, 2), (0, 1)]) →
        Finished 4 [(0, 2), (1, 2), (0, 2), (0, 1)] order) :=
  dependencyOrder_finishes (by decide)

/-! ## What is documented -/

/-- The answer of `question.md` for pairs `[prerequisite, dependent]`: empty exactly
if there are no tasks or a cycle, and otherwise all tasks, each after its
prerequisites. -/
def Documented (n : ℕ) (pairs : List (ℕ × ℕ)) (result : Except Error (List ℕ)) : Prop :=
  ∃ order, result = .ok order ∧ (order = [] ↔ n = 0 ∨ CyclicPairs pairs) ∧
    (¬ (n = 0 ∨ CyclicPairs pairs) →
      order.Perm (List.range n) ∧ ∀ pair ∈ pairs, Before order pair.1 pair.2)

section Documented

variable {n : ℕ} {pairs : List (ℕ × ℕ)}

theorem documented_of_cyclic (h : CyclicPairs pairs) : Documented n pairs (.ok []) :=
  ⟨[], rfl, iff_of_true rfl (Or.inr h), fun hnot => absurd (Or.inr h) hnot⟩

/-- On acyclic pairs, an order of the tasks is what is documented exactly if it
keeps the pairs. -/
theorem documented_order_iff (hacyclic : ¬ CyclicPairs pairs) (hrange : InRange n pairs)
    {order : List ℕ} (hperm : order.Perm (List.range n)) :
    Documented n pairs (.ok order) ↔ ∀ pair ∈ pairs, Before order pair.1 pair.2 := by
  constructor
  · rintro ⟨order', heq, -, horder⟩ pair hpair
    rw [Except.ok.inj heq]
    have htasks : n ≠ 0 := by
      have hlt := (hrange pair hpair).1
      omega
    exact (horder (not_or.mpr ⟨htasks, hacyclic⟩)).2 pair hpair
  · intro hbefore
    refine ⟨order, rfl, ?_, fun _ => ⟨hperm, hbefore⟩⟩
    rw [← List.length_eq_zero_iff, hperm.length_eq, List.length_range]
    exact ⟨Or.inl, fun h => h.resolve_right hacyclic⟩

/-- With no pairs there is nothing to keep. -/
theorem documented_of_no_pairs (missing : Error) (sets : IterationOrder ℕ) :
    Documented n [] (ordered missing sets n []) := by
  have hrange : InRange n [] := by simp [InRange]
  rcases ordered_spec missing sets hrange with ⟨hcyclic, -⟩ | ⟨hacyclic, visited, hfin, hrun⟩
  · exact absurd hcyclic not_cyclicPairs_nil
  · rw [hrun, documented_order_iff hacyclic hrange ((sets.perm visited).trans hfin.perm)]
    simp

/-- In insertion order, acyclic pairs are not kept. -/
theorem not_documented_inserted (missing : Error) (hrange : InRange n pairs)
    (hacyclic : ¬ CyclicPairs pairs) (hpairs : pairs ≠ []) :
    ¬ Documented n pairs (ordered missing .inserted n pairs) := by
  rcases List.exists_mem_of_ne_nil pairs hpairs with ⟨pair, hpair⟩
  rcases ordered_spec missing .inserted hrange with ⟨hcyclic, -⟩ | ⟨-, visited, hfin, hrun⟩
  · exact absurd hcyclic hacyclic
  · rw [hrun]
    change ¬ Documented n pairs (.ok visited)
    rw [documented_order_iff hacyclic hrange hfin.perm]
    intro h
    -- the search has the pair the other way round
    exact absurd (h pair hpair) (Nat.lt_asymm (hfin.before pair hpair))

theorem documented_of_nil_or_cyclic (missing : Error) (sets : IterationOrder ℕ)
    (hrange : InRange n pairs) (h : pairs = [] ∨ CyclicPairs pairs) :
    Documented n pairs (ordered missing sets n pairs) := by
  rcases h with rfl | hcyclic
  · exact documented_of_no_pairs missing sets
  · rcases ordered_spec missing sets hrange with ⟨-, hrun⟩ | ⟨hacyclic, -⟩
    · rw [hrun]
      exact documented_of_cyclic hcyclic
    · exact absurd hcyclic hacyclic

end Documented

/-- The functions return what is documented exactly on pairs that leave nothing to
order: none, or cyclic ones. The TypeScript version already fails on all others. -/
theorem documented_iff (sets : IterationOrder ℕ) {n : ℕ} {pairs : List (ℕ × ℕ)}
    (hrange : InRange n pairs) :
    (Documented n pairs (TypeScript.dependencyOrder n pairs) ↔ pairs = [] ∨ CyclicPairs pairs) ∧
    (Documented n pairs (TypeScript.dependencyOrder n pairs) ∧
        Documented n pairs (Python.dependency_order sets n pairs) ↔
      pairs = [] ∨ CyclicPairs pairs) := by
  have hscript : Documented n pairs (TypeScript.dependencyOrder n pairs) →
      pairs = [] ∨ CyclicPairs pairs := by
    intro h
    by_contra hnot
    rw [not_or] at hnot
    exact not_documented_inserted .typeError hrange hnot.2 hnot.1 h
  refine ⟨⟨hscript, documented_of_nil_or_cyclic .typeError .inserted hrange⟩,
    fun h => hscript h.1, fun h => ?_⟩
  exact ⟨documented_of_nil_or_cyclic .typeError .inserted hrange h,
    documented_of_nil_or_cyclic .keyError sets hrange h⟩

theorem documented_iff_pair :
    (Documented 2 [(0, 1)] (TypeScript.dependencyOrder 2 [(0, 1)]) ↔
      [(0, 1)] = [] ∨ CyclicPairs [(0, 1)]) ∧
    (Documented 2 [(0, 1)] (TypeScript.dependencyOrder 2 [(0, 1)]) ∧
        Documented 2 [(0, 1)] (Python.dependency_order .inserted 2 [(0, 1)]) ↔
      [(0, 1)] = [] ∨ CyclicPairs [(0, 1)]) :=
  documented_iff .inserted (by decide)

/-- With one pair, the dependent comes first. -/
theorem prerequisite_last :
    TypeScript.dependencyOrder 2 [(0, 1)] = .ok [1, 0] ∧
    ¬ Documented 2 [(0, 1)] (TypeScript.dependencyOrder 2 [(0, 1)]) := by
  have hrun : TypeScript.dependencyOrder 2 [(0, 1)] = .ok [1, 0] := by decide
  refine ⟨hrun, ?_⟩
  rintro ⟨order, horder, hempty, hkept⟩
  rw [hrun] at horder
  rcases Except.ok.inj horder with rfl
  have hacyclic := mt hempty.mpr (by decide)
  exact absurd ((hkept hacyclic).2 (0, 1) (by decide)) (by decide)

theorem idxOf_range {n t : ℕ} (ht : t < n) : (List.range n).idxOf t = t := by
  have hlength : t < (List.range n).length := by rwa [List.length_range]
  simpa using List.nodup_range.idxOf_getElem t hlength

/-- In ascending order, tasks come before others as their numbers do. -/
theorem before_range_iff {n a b : ℕ} (ha : a < n) (hb : b < n) :
    Before (List.range n) a b ↔ a < b := by
  rw [Before, idxOf_range ha, idxOf_range hb]

/-- CPython iterates the set of the first natural numbers in their order. There,
acyclic pairs are kept exactly if they all go upwards. -/
theorem python_documented_iff {sets : IterationOrder ℕ}
    (hsets : ∀ l n, l.Perm (List.range n) → sets.order l = List.range n) {n : ℕ}
    {pairs : List (ℕ × ℕ)} (hrange : InRange n pairs) :
    Documented n pairs (Python.dependency_order sets n pairs) ↔
      CyclicPairs pairs ∨ ∀ pair ∈ pairs, pair.1 < pair.2 := by
  have hbefore : ∀ pair ∈ pairs, (Before (List.range n) pair.1 pair.2 ↔ pair.1 < pair.2) := by
    intro pair hpair
    rcases hrange pair hpair with ⟨h, h'⟩
    exact before_range_iff h h'
  rcases ordered_spec .keyError sets hrange with ⟨hcyclic, hrun⟩ | ⟨hacyclic, visited, hfin, hrun⟩
  · rw [Python.dependency_order, hrun]
    exact iff_of_true (documented_of_cyclic hcyclic) (Or.inl hcyclic)
  · rw [Python.dependency_order, hrun, hsets visited n hfin.perm,
      documented_order_iff hacyclic hrange (List.Perm.refl _)]
    constructor
    · intro h
      exact Or.inr fun pair hpair => (hbefore pair hpair).mp (h pair hpair)
    · intro h pair hpair
      exact (hbefore pair hpair).mpr (h.resolve_left hacyclic pair hpair)

end InterviewPrep.DependencyOrder
