import Mathlib.Data.Set.Card
import Mathlib.Logic.Relation

/-!
# Functional graphs

A relation in which everything has at most one successor. What can be reached
from a vertex is then a path, which either ends or runs into a cycle and stays
there. So no vertex reaches two cycles: the vertices on cycles that it reaches
are those of one cycle (`cycleFrom_eq`).
-/

namespace InterviewPrep

namespace FunctionalGraph

open Relation

variable {κ : Type*} {R : κ → κ → Prop}

/-- A vertex that leads back to itself. -/
def OnCycle (R : κ → κ → Prop) (t : κ) : Prop := TransGen R t t

/-- The cycles, as sets of vertices: what a vertex on a cycle reaches. -/
def cycles (R : κ → κ → Prop) : Set (Set κ) :=
  {C | ∃ t, OnCycle R t ∧ C = {u | ReflTransGen R t u}}

/-- The vertices on cycles that a vertex reaches. -/
def cycleFrom (R : κ → κ → Prop) (s : κ) : Set κ := {t | ReflTransGen R s t ∧ OnCycle R t}

theorem OnCycle.exists_successor {t : κ} (h : OnCycle R t) :
    ∃ u, R t u ∧ ReflTransGen R u t :=
  TransGen.head'_iff.mp h

section RightUnique

variable (U : Relator.RightUnique R)

include U

/-- From a cycle one only reaches what leads back. -/
theorem OnCycle.back {t u : κ} (h : OnCycle R t) (hu : ReflTransGen R t u) :
    ReflTransGen R u t := by
  induction hu with
  | refl => exact ReflTransGen.refl
  | @tail u v _ huv ih =>
    -- the only successor of `u` is `v`
    rcases ReflTransGen.cases_head ih with rfl | ⟨w, huw, hwt⟩
    · rcases h.exists_successor with ⟨w, huw, hwt⟩
      rwa [U huv huw]
    · rwa [U huv huw]

theorem OnCycle.of_reach {t u : κ} (h : OnCycle R t) (hu : ReflTransGen R t u) :
    OnCycle R u :=
  TransGen.trans_right (h.back U hu) (TransGen.trans_left h hu)

/-- A vertex on a cycle is reached from everything on the way to it, and from
what comes after. -/
theorem OnCycle.reach_of_common {s t u : κ} (hu : OnCycle R u) (hst : ReflTransGen R s t)
    (hsu : ReflTransGen R s u) : ReflTransGen R t u := by
  rcases ReflTransGen.total_of_right_unique U hst hsu with htu | hut
  · exact htu
  · exact hu.back U hut

/-- What a vertex reaches of cycles is one cycle. -/
theorem cycleFrom_eq {s t : κ} (ht : OnCycle R t) (hst : ReflTransGen R s t) :
    cycleFrom R s = {u | ReflTransGen R t u} := by
  ext u
  constructor
  · rintro ⟨hsu, hu⟩
    exact hu.reach_of_common U hst hsu
  · intro htu
    exact ⟨hst.trans htu, ht.of_reach U htu⟩

theorem cycleFrom_mem_cycles {s t : κ} (ht : OnCycle R t) (hst : ReflTransGen R s t) :
    cycleFrom R s ∈ cycles R :=
  ⟨t, ht, cycleFrom_eq U ht hst⟩

end RightUnique

/-! ## Representatives -/

/-- A list of vertices that reach each cycle once: every one reaches a cycle, no
two the same, and every cycle is reached. -/
structure Represents (R : κ → κ → Prop) (starts : List κ) : Prop where
  reaches : ∀ s ∈ starts, ∃ t, ReflTransGen R s t ∧ OnCycle R t
  apart : starts.Pairwise (fun s s' => ∀ t, ReflTransGen R s t → ReflTransGen R s' t →
    ¬ OnCycle R t)
  covers : ∀ t, OnCycle R t → ∃ s ∈ starts, ReflTransGen R s t

namespace Represents

variable {starts : List κ}

/-- Different representatives have different cycles. -/
theorem nodup (h : Represents R starts) : (starts.map (cycleFrom R)).Nodup := by
  rw [List.Nodup, List.pairwise_map]
  refine h.apart.imp_of_mem fun {s s'} hs _ hne heq => ?_
  rcases h.reaches s hs with ⟨t, hst, ht⟩
  have hs't : t ∈ cycleFrom R s' := heq ▸ ⟨hst, ht⟩
  exact hne t hst hs't.1 ht

/-- The cycles of the representatives are all cycles. -/
theorem mem_iff (U : Relator.RightUnique R) (h : Represents R starts) (C : Set κ) :
    C ∈ starts.map (cycleFrom R) ↔ C ∈ cycles R := by
  rw [List.mem_map]
  constructor
  · rintro ⟨s, hs, rfl⟩
    rcases h.reaches s hs with ⟨t, hst, ht⟩
    exact cycleFrom_mem_cycles U ht hst
  · rintro ⟨t, ht, rfl⟩
    rcases h.covers t ht with ⟨s, hs, hst⟩
    exact ⟨s, hs, cycleFrom_eq U ht hst⟩

/-- There are as many cycles as representatives. -/
theorem ncard (U : Relator.RightUnique R) (h : Represents R starts) :
    (cycles R).Finite ∧ starts.length = (cycles R).ncard := by
  classical
  have hset : cycles R = ↑(starts.map (cycleFrom R)).toFinset := by
    ext C
    rw [Finset.mem_coe, List.mem_toFinset, h.mem_iff U]
  rw [hset, Set.ncard_coe_finset, List.toFinset_card_of_nodup h.nodup, List.length_map]
  exact ⟨Finset.finite_toSet _, rfl⟩

end Represents

end FunctionalGraph

end InterviewPrep
