import Mathlib.Data.Finset.Card
import Mathlib.Logic.Relation
import Mathlib.SetTheory.Cardinal.Finite

/-!
# Flood fill

A region of a graph is explored from a vertex by marking it and exploring its
neighbours in turn, and the connected parts of the region are counted by exploring
from every vertex that has no mark yet. The marks are keys of the vertices.

A visit marks what its vertex reaches, and leaves no unmarked neighbour behind what it
marks (`Fills`, `explore_fills`). Hence, between two visits of a count, the marked
vertices are those of whole parts, one for each start (`Counted`), and at the end
there are as many parts as starts (`Counted.card_parts`).
-/

namespace InterviewPrep

namespace FloodFill

open Relation

variable {V ε : Type*} {κ : Type}

/-! ## The search -/

/-- Mark a vertex if it is to be entered, and explore its neighbours. -/
def explore [DecidableEq κ] (exhausted : ε) (enter : V → Finset κ → Except ε Bool) (key : V → κ)
    (next : V → List V) : ℕ → V → Finset κ → Except ε (Finset κ)
  | 0, _, _ => .error exhausted
  | fuel + 1, v, visited => do
    if ← enter v visited then
      (next v).foldlM (fun visited w => explore exhausted enter key next fuel w visited)
        (insert (key v) visited)
    else return visited

/-- The marks and the number of starts. -/
structure Tally (κ : Type) where
  visited : Finset κ
  count : ℕ

/-- Explore from a vertex if it is to be a start. -/
def tally (starts : V → Finset κ → Except ε Bool) (explore : V → Finset κ → Except ε (Finset κ))
    (t : Tally κ) (v : V) : Except ε (Tally κ) := do
  if ← starts v t.visited then
    let visited ← explore v t.visited
    return ⟨visited, t.count + 1⟩
  else return t

/-! ## One visit -/

section Region

variable {land : V → Prop} {next : V → List V} {key : V → κ}

/-- The edges of the region. -/
def Joins (land : V → Prop) (next : V → List V) (a b : {v // land v}) : Prop := b.1 ∈ next a.1

/-- What visits of the vertices `ws` do to the marks. -/
structure Fills (land : V → Prop) (next : V → List V) (key : V → κ) (ws : List V)
    (old new : Finset κ) : Prop where
  keeps : old ⊆ new
  covers : ∀ v : {v // land v}, v.1 ∈ ws → key v ∈ new
  closed : ∀ a b, Joins land next a b → key a ∈ new → key a ∈ old ∨ key b ∈ new
  reached : ∀ k ∈ new, k ∈ old ∨ ∃ a b : {v // land v}, a.1 ∈ ws ∧
    ReflTransGen (Joins land next) a b ∧ key b = k

namespace Fills

variable {v : V} {ws : List V} {old mid new : Finset κ}

/-- Vertices that are marked, or not in the region, change nothing. -/
theorem skip (h : ∀ v : {v // land v}, v.1 ∈ ws → key v ∈ old) :
    Fills land next key ws old old where
  keeps := Finset.Subset.refl old
  covers := h
  closed := fun _ _ _ ha => Or.inl ha
  reached := fun _ hk => Or.inl hk

theorem cons (hv : Fills land next key [v] old mid) (hws : Fills land next key ws mid new) :
    Fills land next key (v :: ws) old new where
  keeps := Finset.Subset.trans hv.keeps hws.keeps
  covers := by
    intro u hu
    rcases List.mem_cons.mp hu with hu | hu
    · exact hws.keeps (hv.covers u (List.mem_singleton.mpr hu))
    · exact hws.covers u hu
  closed := by
    intro a b hab ha
    -- what the first visit left behind, the others do not reopen
    rcases hws.closed a b hab ha with hmid | hnew
    · exact (hv.closed a b hab hmid).imp_right fun hb => hws.keeps hb
    · exact Or.inr hnew
  reached := by
    intro k hk
    rcases hws.reached k hk with hmid | ⟨a, b, ha, hab, hb⟩
    · rcases hv.reached k hmid with hold | ⟨a, b, ha, hab, hb⟩
      · exact Or.inl hold
      · exact Or.inr ⟨a, b, List.mem_cons.mpr (Or.inl (List.mem_singleton.mp ha)), hab, hb⟩
    · exact Or.inr ⟨a, b, List.mem_cons_of_mem v ha, hab, hb⟩

/-- A vertex is marked, and then its neighbours are visited. -/
theorem mark [DecidableEq κ] (hkey : ∀ a b : {v // land v}, key a = key b → a = b) (hv : land v)
    (h : Fills land next key (next v) (insert (key v) old) new) :
    Fills land next key [v] old new where
  keeps := Finset.Subset.trans (Finset.subset_insert _ _) h.keeps
  covers := by
    intro u hu
    rw [List.mem_singleton.mp hu]
    exact h.keeps (Finset.mem_insert_self _ _)
  closed := by
    intro a b hab ha
    rcases h.closed a b hab ha with hmarked | hnew
    · rcases Finset.mem_insert.mp hmarked with heq | hold
      · -- the neighbours of `v` are visited
        have hav := hkey a ⟨v, hv⟩ heq
        subst hav
        exact Or.inr (h.covers b hab)
      · exact Or.inl hold
    · exact Or.inr hnew
  reached := by
    intro k hk
    rcases h.reached k hk with hmarked | ⟨a, b, ha, hab, hb⟩
    · rcases Finset.mem_insert.mp hmarked with rfl | hold
      · exact Or.inr ⟨⟨v, hv⟩, ⟨v, hv⟩, List.mem_singleton.mpr rfl, ReflTransGen.refl, rfl⟩
      · exact Or.inl hold
    · exact Or.inr ⟨⟨v, hv⟩, b, List.mem_singleton.mpr rfl, ReflTransGen.head ha hab, hb⟩

end Fills

/-- The vertex is entered if it is in the region and has no mark. -/
def Enters (enter : V → Finset κ → Except ε Bool) (land : V → Prop) (key : V → κ) (v : V) : Prop :=
  ∀ visited, enter v visited = .ok true ∧ land v ∧ key v ∉ visited ∨
    enter v visited = .ok false ∧ (land v → key v ∈ visited)

section Visit

variable [DecidableEq κ]

/-- The vertices of `U` without a mark. -/
def unmarked (U : Finset V) (key : V → κ) (visited : Finset κ) : ℕ :=
  (U.filter fun v => key v ∉ visited).card

theorem unmarked_le (U : Finset V) {old new : Finset κ} (h : old ⊆ new) :
    unmarked U key new ≤ unmarked U key old := by
  apply Finset.card_le_card
  intro v hv
  rw [Finset.mem_filter] at hv ⊢
  exact ⟨hv.1, fun hold => hv.2 (h hold)⟩

theorem unmarked_insert_lt {U : Finset V} {v : V} {visited : Finset κ} (hv : v ∈ U)
    (hnot : key v ∉ visited) : unmarked U key (insert (key v) visited) < unmarked U key visited := by
  apply Finset.card_lt_card
  rw [Finset.ssubset_iff_of_subset]
  · refine ⟨v, Finset.mem_filter.mpr ⟨hv, hnot⟩, ?_⟩
    simp
  · intro u hu
    rw [Finset.mem_filter, Finset.mem_insert, not_or] at hu
    exact Finset.mem_filter.mpr ⟨hu.1, hu.2.2⟩

/-- Visits that fill are made one after the other. -/
theorem foldlM_fills {visit : Finset κ → V → Except ε (Finset κ)} {U : Finset V} {fuel : ℕ}
    (hvisit : ∀ w visited, unmarked U key visited < fuel →
      ∃ visited', visit visited w = .ok visited' ∧ Fills land next key [w] visited visited')
    (ws : List V) {visited : Finset κ} (hfuel : unmarked U key visited < fuel) :
    ∃ visited', ws.foldlM visit visited = .ok visited' ∧
      Fills land next key ws visited visited' := by
  induction ws generalizing visited with
  | nil => exact ⟨visited, rfl, Fills.skip (by simp)⟩
  | cons w ws ih =>
    rcases hvisit w visited hfuel with ⟨mid, hmid, hw⟩
    rcases ih (lt_of_le_of_lt (unmarked_le U hw.keeps) hfuel) with ⟨new, hnew, hws⟩
    refine ⟨new, ?_, hw.cons hws⟩
    rw [List.foldlM_cons, hmid]
    exact hnew

/-- A visit with fuel for all vertices without a mark fills. -/
theorem explore_fills {exhausted : ε} {enter : V → Finset κ → Except ε Bool} {U : Finset V}
    (hU : ∀ v, land v → v ∈ U) (hkey : ∀ a b : {v // land v}, key a = key b → a = b)
    (henter : ∀ v, Enters enter land key v) {fuel : ℕ} (v : V) {visited : Finset κ}
    (hfuel : unmarked U key visited < fuel) :
    ∃ visited', explore exhausted enter key next fuel v visited = .ok visited' ∧
      Fills land next key [v] visited visited' := by
  -- over the fuel: a vertex that is entered leaves fewer without a mark
  induction fuel generalizing v visited with
  | zero => omega
  | succ fuel ih =>
    rcases henter v visited with ⟨hgo, hv, hnot⟩ | ⟨hstop, hmarked⟩
    · have hless := unmarked_insert_lt (hU v hv) hnot
      have hrest : unmarked U key (insert (key v) visited) < fuel := by omega
      rcases foldlM_fills (fun w visited h => ih w h) (next v) hrest with ⟨new, hnew, hfills⟩
      refine ⟨new, ?_, hfills.mark hkey hv⟩
      rw [explore, hgo]
      exact hnew
    · refine ⟨visited, ?_, Fills.skip ?_⟩
      · rw [explore, hstop]
        rfl
      · rintro ⟨u, hu⟩ hmem
        rcases List.mem_singleton.mp hmem with rfl
        exact hmarked hu

end Visit

/-! ## The count -/

/-- Vertices reach each other if every edge has its reverse. -/
theorem reaches_symm (hsymm : ∀ a b, Joins land next a b → Joins land next b a)
    {a b : {v // land v}} (h : ReflTransGen (Joins land next) a b) :
    ReflTransGen (Joins land next) b a := by
  induction h with
  | refl => exact ReflTransGen.refl
  | tail _ hbc ih => exact ReflTransGen.head (hsymm _ _ hbc) ih

/-- The parts of the region: the vertices that reach each other. -/
def parts (hsymm : ∀ a b, Joins land next a b → Joins land next b a) : Setoid {v // land v} where
  r := ReflTransGen (Joins land next)
  iseqv := ⟨fun _ => ReflTransGen.refl, fun h => reaches_symm hsymm h,
    fun h h' => h.trans h'⟩

/-- After visits of the vertices `done`, of which `starts` were explored, the marked
vertices are what the starts reach, each by itself. -/
structure Counted (land : V → Prop) (next : V → List V) (key : V → κ) (done : List V)
    (starts : List {v // land v}) (t : Tally κ) : Prop where
  count : t.count = starts.length
  apart : starts.Pairwise fun a b => ¬ ReflTransGen (Joins land next) a b
  marked : ∀ k, k ∈ t.visited ↔ ∃ a ∈ starts, ∃ b, ReflTransGen (Joins land next) a b ∧ key b = k
  covers : ∀ v : {v // land v}, v.1 ∈ done → key v ∈ t.visited

theorem counted_start : Counted land next key [] [] ⟨∅, 0⟩ where
  count := rfl
  apart := List.Pairwise.nil
  marked := by simp
  covers := by simp

section Count

variable {done : List V} {starts : List {v // land v}} {t : Tally κ}

/-- What a marked vertex reaches is marked. -/
theorem Counted.closed (h : Counted land next key done starts t)
    (hkey : ∀ a b : {v // land v}, key a = key b → a = b) {a b : {v // land v}}
    (ha : key a ∈ t.visited) (hab : ReflTransGen (Joins land next) a b) : key b ∈ t.visited := by
  rcases (h.marked _).mp ha with ⟨s, hs, a', hsa, heq⟩
  rcases hkey a' a heq with rfl
  exact (h.marked _).mpr ⟨s, hs, b, hsa.trans hab, rfl⟩

/-- A visit marks exactly what its vertex reaches besides what was marked. -/
theorem Counted.mem_fills (h : Counted land next key done starts t)
    (hkey : ∀ a b : {v // land v}, key a = key b → a = b) {v : {v // land v}} {new : Finset κ}
    (hfills : Fills land next key [v.1] t.visited new) (k : κ) :
    k ∈ new ↔ k ∈ t.visited ∨ ∃ b, ReflTransGen (Joins land next) v b ∧ key b = k := by
  constructor
  · intro hk
    refine (hfills.reached k hk).imp_right ?_
    rintro ⟨a, b, ha, hab, hb⟩
    rcases Subtype.ext (List.mem_singleton.mp ha) with rfl
    exact ⟨b, hab, hb⟩
  · rintro (hold | ⟨b, hvb, rfl⟩)
    · exact hfills.keeps hold
    · -- along the way, nothing is left behind
      induction hvb with
      | refl => exact hfills.covers v (List.mem_singleton.mpr rfl)
      | @tail b c _ hbc ih =>
        rcases hfills.closed b c hbc ih with hold | hnew
        · exact hfills.keeps (h.closed hkey hold (ReflTransGen.single hbc))
        · exact hnew

/-- One step of the count. -/
theorem Counted.tally (h : Counted land next key done starts t)
    (hkey : ∀ a b : {v // land v}, key a = key b → a = b)
    (hsymm : ∀ a b, Joins land next a b → Joins land next b a)
    {isStart : V → Finset κ → Except ε Bool} {visit : V → Finset κ → Except ε (Finset κ)} {v : V}
    (hstart : Enters isStart land key v)
    (hvisit : ∀ visited, ∃ new, visit v visited = .ok new ∧ Fills land next key [v] visited new) :
    ∃ starts' t', tally isStart visit t v = .ok t' ∧
      Counted land next key (done ++ [v]) starts' t' := by
  rcases hstart t.visited with ⟨hgo, hv, hnot⟩ | ⟨hstop, hmarked⟩
  · rcases hvisit t.visited with ⟨new, hnew, hfills⟩
    have hmem := h.mem_fills hkey (v := ⟨v, hv⟩) hfills
    refine ⟨⟨v, hv⟩ :: starts, ⟨new, t.count + 1⟩, ?_, ?_, ?_, ?_, ?_⟩
    · rw [FloodFill.tally, hgo]
      simp [bind, Except.bind, hnew, pure, Except.pure]
    · rw [h.count, List.length_cons]
    · refine List.pairwise_cons.mpr ⟨?_, h.apart⟩
      -- a start that `v` reaches would have marked `v`
      intro s hs hvs
      have hsv := reaches_symm hsymm hvs
      exact hnot ((h.marked _).mpr ⟨s, hs, ⟨v, hv⟩, hsv, rfl⟩)
    · intro k
      rw [hmem k, h.marked k, List.exists_mem_cons_iff]
      exact or_comm
    · intro u hu
      rcases List.mem_append.mp hu with hu | hu
      · exact hfills.keeps (h.covers u hu)
      · exact hfills.covers u hu
  · refine ⟨starts, t, ?_, h.count, h.apart, h.marked, ?_⟩
    · rw [FloodFill.tally, hstop]
      rfl
    · rintro ⟨u, hu⟩ hmem
      rcases List.mem_append.mp hmem with hmem | hmem
      · exact h.covers ⟨u, hu⟩ hmem
      · rcases List.mem_singleton.mp hmem with rfl
        exact hmarked hu

/-- A whole count. -/
theorem Counted.foldlM_tally (h : Counted land next key done starts t)
    (hkey : ∀ a b : {v // land v}, key a = key b → a = b)
    (hsymm : ∀ a b, Joins land next a b → Joins land next b a)
    {isStart : V → Finset κ → Except ε Bool} {visit : V → Finset κ → Except ε (Finset κ)}
    {vs : List V} (hstart : ∀ v ∈ vs, Enters isStart land key v)
    (hvisit : ∀ v visited, ∃ new, visit v visited = .ok new ∧
      Fills land next key [v] visited new) :
    ∃ starts' t', vs.foldlM (FloodFill.tally isStart visit) t = .ok t' ∧
      Counted land next key (done ++ vs) starts' t' := by
  induction vs generalizing done starts t with
  | nil =>
    rw [List.append_nil]
    exact ⟨starts, t, rfl, h⟩
  | cons v vs ih =>
    rw [List.forall_mem_cons] at hstart
    rcases h.tally hkey hsymm hstart.1 (hvisit v) with ⟨starts', t', hstep, h'⟩
    rcases ih h' hstart.2 with ⟨starts'', t'', hrest, h''⟩
    refine ⟨starts'', t'', ?_, ?_⟩
    · rw [List.foldlM_cons, hstep]
      exact hrest
    · rwa [List.append_assoc, List.singleton_append] at h''

/-- When all vertices of the region were visited, the marks are theirs. -/
theorem Counted.mem_visited_iff (h : Counted land next key done starts t)
    (hall : ∀ v, land v → v ∈ done) (k : κ) : k ∈ t.visited ↔ ∃ v, land v ∧ key v = k := by
  constructor
  · intro hk
    rcases (h.marked k).mp hk with ⟨-, -, b, -, rfl⟩
    exact ⟨b, b.2, rfl⟩
  · rintro ⟨v, hv, rfl⟩
    exact h.covers ⟨v, hv⟩ (hall v hv)

/-- When all vertices of the region were visited, there are as many parts as starts. -/
theorem Counted.card_parts (h : Counted land next key done starts t)
    (hkey : ∀ a b : {v // land v}, key a = key b → a = b)
    (hsymm : ∀ a b, Joins land next a b → Joins land next b a)
    (hall : ∀ v, land v → v ∈ done) :
    Finite (Quotient (parts hsymm)) ∧ Nat.card (Quotient (parts hsymm)) = t.count := by
  let part : Fin starts.length → Quotient (parts hsymm) := fun i => Quotient.mk _ starts[i]
  -- no two starts are in one part, and no part is without a start
  have hinj : Function.Injective part := by
    intro i j heq
    have hreach : ReflTransGen (Joins land next) starts[i] starts[j] := Quotient.exact heq
    by_contra hne
    rcases Nat.lt_or_gt_of_ne (Fin.val_ne_of_ne hne) with hlt | hlt
    · exact List.pairwise_iff_getElem.mp h.apart _ _ _ _ hlt hreach
    · exact List.pairwise_iff_getElem.mp h.apart _ _ _ _ hlt (reaches_symm hsymm hreach)
  have hsurj : Function.Surjective part := by
    intro q
    rcases Quotient.exists_rep q with ⟨v, rfl⟩
    rcases (h.marked _).mp (h.covers v (hall v.1 v.2)) with ⟨s, hs, b, hsb, heq⟩
    rcases hkey b v heq with rfl
    rcases List.mem_iff_getElem.mp hs with ⟨i, hi, rfl⟩
    exact ⟨⟨i, hi⟩, Quotient.sound hsb⟩
  have hcard := Nat.card_eq_of_bijective part ⟨hinj, hsurj⟩
  rw [Nat.card_fin, ← h.count] at hcard
  exact ⟨Finite.of_surjective part hsurj, hcard.symm⟩

end Count

end Region

end FloodFill

end InterviewPrep
