import Mathlib.Data.Finset.Card
import Mathlib.Logic.Relation

/-!
# Depth-first search for a cycle

The usual search with a set of vertices in progress and a set of finished ones.
It stops at the first back edge, and then leaves the vertices of its path in
progress. Recursion is on fuel: `search` returns `none` if it runs out, and
`search_spec` says how much is enough.

What is found is whether a cycle can be reached from the start, `Cyclic`. The
sets may be those left by earlier searches, also by one that was stopped:
`Sound` and `Pending` are what a search needs of them.
-/

namespace InterviewPrep.DepthFirst

open Relation

variable {V : Type*}

/-! ## The search -/

section Search

variable [DecidableEq V]

/-- The two sets of a search. -/
structure Marks (V : Type*) where
  visiting : Finset V
  visited : Finset V

/-- Search from the vertices of a list until one search finds a cycle. -/
def searchAny (search : V → Marks V → Option (Bool × Marks V)) :
    List V → Marks V → Option (Bool × Marks V)
  | [], m => some (false, m)
  | w :: ws, m =>
    match search w m with
    | none => none
    | some (true, m') => some (true, m')
    | some (false, m') => searchAny search ws m'

/-- Search from `v` for a cycle along the edges `succ`. -/
def search (succ : V → List V) : ℕ → V → Marks V → Option (Bool × Marks V)
  | 0, _, _ => none
  | fuel + 1, v, m =>
    if v ∈ m.visiting then some (true, m)
    else if v ∈ m.visited then some (false, m)
    else
      match searchAny (search succ fuel) (succ v) ⟨insert v m.visiting, m.visited⟩ with
      | none => none
      | some (true, m') => some (true, m')
      | some (false, m') => some (false, ⟨m'.visiting.erase v, insert v m'.visited⟩)

end Search

/-! ## Cycles -/

section Cycles

variable (edge : V → V → Prop)

/-- A cycle can be reached from `v`. -/
def Cyclic (v : V) : Prop := ∃ w, ReflTransGen edge v w ∧ TransGen edge w w

variable {edge}

theorem Cyclic.of_reaches {v w : V} (h : ReflTransGen edge v w) (hw : Cyclic edge w) :
    Cyclic edge v := by
  rcases hw with ⟨x, hx, hcycle⟩
  exact ⟨x, h.trans hx, hcycle⟩

/-- A vertex that reaches a cycle is followed by one that does. -/
theorem cyclic_iff_exists_edge {v : V} :
    Cyclic edge v ↔ ∃ w, edge v w ∧ Cyclic edge w := by
  constructor
  · rintro ⟨w, hvw, hcycle⟩
    rcases ReflTransGen.cases_head hvw with rfl | ⟨u, hvu, huw⟩
    · -- `v` is on the cycle, and so is what follows it
      rcases TransGen.head'_iff.mp hcycle with ⟨u, hvu, huv⟩
      exact ⟨u, hvu, v, huv, hcycle⟩
    · exact ⟨u, hvu, w, huw, hcycle⟩
  · rintro ⟨w, hvw, hw⟩
    exact hw.of_reaches (ReflTransGen.single hvw)

/-- There is a cycle exactly if one can be reached from somewhere. -/
theorem forall_not_cyclic_iff :
    (∀ v, ¬ Cyclic edge v) ↔ ∀ v, ¬ TransGen edge v v := by
  constructor
  · intro h v hv
    exact h v ⟨v, ReflTransGen.refl, hv⟩
  · rintro h v ⟨w, -, hw⟩
    exact h w hw

end Cycles

/-! ## Correctness -/

/-- The edges of a graph given by lists of successors. -/
def Edge (succ : V → List V) (v w : V) : Prop := w ∈ succ v

namespace Marks

variable {succ : V → List V} {m : Marks V} {v w : V}

/-- The finished vertices reach no cycle. -/
def Sound (succ : V → List V) (m : Marks V) : Prop :=
  ∀ w ∈ m.visited, ¬ Cyclic (Edge succ) w

/-- A vertex in progress reaches a cycle, or lies on the path to `v`. -/
def Pending (succ : V → List V) (m : Marks V) (v : V) : Prop :=
  ∀ w ∈ m.visiting, Cyclic (Edge succ) w ∨ TransGen (Edge succ) w v

/-- Every vertex in progress reaches a cycle: the state after a search that
found one. -/
def Stopped (succ : V → List V) (m : Marks V) : Prop :=
  ∀ w ∈ m.visiting, Cyclic (Edge succ) w

theorem Stopped.pending (h : m.Stopped succ) (v : V) : m.Pending succ v :=
  fun w hw => Or.inl (h w hw)

/-- A cycle at the end of the path is reached from all of it. -/
theorem Pending.stopped (h : m.Pending succ v) (hv : Cyclic (Edge succ) v) :
    m.Stopped succ := by
  intro w hw
  rcases h w hw with hcyclic | hreach
  · exact hcyclic
  · exact hv.of_reaches hreach.to_reflTransGen

/-- The path goes on to a successor. -/
theorem Pending.insert [DecidableEq V] (h : m.Pending succ v) (hw : w ∈ succ v) :
    Pending succ ⟨insert v m.visiting, m.visited⟩ w := by
  intro u hu
  rcases Finset.mem_insert.mp hu with rfl | hu
  · exact Or.inr (TransGen.single hw)
  · rcases h u hu with hcyclic | hreach
    · exact Or.inl hcyclic
    · exact Or.inr (hreach.tail hw)

end Marks

/-- What a search returns that started with the marks `m` and looked for a cycle
that is there exactly if `cyclic`. -/
inductive Finds (succ : V → List V) (cyclic : Prop) (m : Marks V) :
    Option (Bool × Marks V) → Prop where
  /-- it stopped at a cycle -/
  | cycle {m' : Marks V} : cyclic → m'.Sound succ → m'.Stopped succ →
      Finds succ cyclic m (some (true, m'))
  /-- it finished, and nothing more is in progress than before -/
  | none {m' : Marks V} : ¬ cyclic → m'.Sound succ → m'.visiting = m.visiting →
      Finds succ cyclic m (some (false, m'))

section Correctness

variable {succ : V → List V}

/-- The loop over the successors, if each search does what it should. -/
theorem searchAny_spec {find : V → Marks V → Option (Bool × Marks V)} {visiting : Finset V}
    {ws : List V}
    (hfind : ∀ w ∈ ws, ∀ m : Marks V, m.visiting = visiting → m.Sound succ →
      Finds succ (Cyclic (Edge succ) w) m (find w m)) :
    ∀ m : Marks V, m.visiting = visiting → m.Sound succ →
      Finds succ (∃ w ∈ ws, Cyclic (Edge succ) w) m (searchAny find ws m) := by
  induction ws with
  | nil =>
    intro m hm hsound
    exact Finds.none (by simp) hsound rfl
  | cons w ws ih =>
    intro m hm hsound
    have hw := hfind w (by simp) m hm hsound
    have ih := ih (fun u hu => hfind u (List.mem_cons_of_mem w hu))
    rw [searchAny]
    generalize find w m = r at hw ⊢
    cases hw with
    | cycle hcyclic hsound' hstopped =>
      exact Finds.cycle ⟨w, by simp, hcyclic⟩ hsound' hstopped
    | @none m' hnot hsound' hvisiting =>
      -- the next search starts with the marks that this one leaves
      have hrest := ih m' (hvisiting.trans hm) hsound'
      show Finds succ _ m (searchAny find ws m')
      generalize searchAny find ws m' = r at hrest ⊢
      cases hrest with
      | cycle hcyclic hsound'' hstopped =>
        rcases hcyclic with ⟨u, hu, hcyclic⟩
        exact Finds.cycle ⟨u, List.mem_cons_of_mem w hu, hcyclic⟩ hsound'' hstopped
      | none hrest hsound'' hvisiting' =>
        refine Finds.none ?_ hsound'' (hvisiting'.trans hvisiting)
        rintro ⟨u, hu, hcyclic⟩
        rcases List.mem_cons.mp hu with rfl | hu
        · exact hnot hcyclic
        · exact hrest ⟨u, hu, hcyclic⟩

/-- The search returns and is right, if there is fuel for every vertex that is
not in progress. -/
theorem search_spec [DecidableEq V] {U : Finset V} (hU : ∀ v ∈ U, ∀ w ∈ succ v, w ∈ U) :
    ∀ (fuel : ℕ) (v : V) (m : Marks V), v ∈ U → (U \ m.visiting).card < fuel →
      m.Sound succ → m.Pending succ v →
      Finds succ (Cyclic (Edge succ) v) m (search succ fuel v m) := by
  intro fuel
  induction fuel with
  | zero =>
    intro v m hv hfuel
    omega
  | succ fuel ih =>
    intro v m hv hfuel hsound hpending
    rw [search]
    by_cases hvisiting : v ∈ m.visiting
    · -- a back edge: `v` reaches itself
      have hcyclic : Cyclic (Edge succ) v := by
        rcases hpending v hvisiting with hcyclic | hloop
        · exact hcyclic
        · exact ⟨v, ReflTransGen.refl, hloop⟩
      rw [if_pos hvisiting]
      exact Finds.cycle hcyclic hsound (hpending.stopped hcyclic)
    · rw [if_neg hvisiting]
      by_cases hvisited : v ∈ m.visited
      · rw [if_pos hvisited]
        exact Finds.none (hsound v hvisited) hsound rfl
      · rw [if_neg hvisited]
        -- one vertex more is in progress
        have hcard : (U \ insert v m.visiting).card < fuel := by
          have hlt : (U \ insert v m.visiting).card < (U \ m.visiting).card := by
            apply Finset.card_lt_card
            refine Finset.ssubset_iff_subset_ne.mpr ⟨?_, ?_⟩
            · exact Finset.sdiff_subset_sdiff (le_refl U) (Finset.subset_insert v m.visiting)
            · intro heq
              have hmem : v ∈ U \ insert v m.visiting := by
                rw [heq]
                exact Finset.mem_sdiff.mpr ⟨hv, hvisiting⟩
              simp at hmem
          omega
        have hsucc : Finds succ (∃ w ∈ succ v, Cyclic (Edge succ) w)
            ⟨insert v m.visiting, m.visited⟩
            (searchAny (search succ fuel) (succ v) ⟨insert v m.visiting, m.visited⟩) := by
          refine searchAny_spec ?_ ⟨insert v m.visiting, m.visited⟩ rfl hsound
          intro w hw m' hm' hsound'
          apply ih w m' (hU v hv w hw) (by rw [hm']; exact hcard) hsound'
          intro u hu
          rw [hm'] at hu
          exact hpending.insert hw u hu
        generalize searchAny (search succ fuel) (succ v) _ = r at hsucc ⊢
        cases hsucc with
        | cycle hcyclic hsound' hstopped =>
          exact Finds.cycle (cyclic_iff_exists_edge.mpr hcyclic) hsound' hstopped
        | @none m' hnot hsound' hm' =>
          have hv' : ¬ Cyclic (Edge succ) v := fun h => hnot (cyclic_iff_exists_edge.mp h)
          refine Finds.none hv' ?_ ?_
          · intro w hw
            rcases Finset.mem_insert.mp hw with rfl | hw
            · exact hv'
            · exact hsound' w hw
          · show m'.visiting.erase v = m.visiting
            rw [hm']
            exact Finset.erase_insert hvisiting

end Correctness

end InterviewPrep.DepthFirst
