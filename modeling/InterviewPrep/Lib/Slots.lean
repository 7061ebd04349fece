import Mathlib.Algebra.Order.Ring.Nat
import Mathlib.Data.List.Induction

/-!
# Reading lists of slots

A list whose elements are addressed by position, such as the tasks, the workers
or the callers of a machine, changes in two ways: one slot is overwritten, or a
slot is added at the end. These are the inversion lemmas for reading it
afterwards, and how sums and counts over the slots change.
-/

namespace InterviewPrep

universe u

variable {α : Type u} {l : List α} {i j : ℕ} {a b : α}

/-- After one slot was overwritten. -/
theorem getElem?_set_cases (h : (l.set i a)[j]? = some b) :
    (j = i ∧ b = a) ∨ (j ≠ i ∧ l[j]? = some b) := by
  by_cases hj : j = i
  · subst hj
    rw [List.getElem?_set] at h
    simp only [if_true] at h
    split at h
    · exact Or.inl ⟨rfl, (Option.some.inj h).symm⟩
    · cases h
  · rw [List.getElem?_set_ne (fun hij => hj hij.symm)] at h
    exact Or.inr ⟨hj, h⟩

/-- The slot that was overwritten. -/
theorem getElem?_set_of_some (h : l[i]? = some b) : (l.set i a)[i]? = some a := by
  rcases List.getElem?_eq_some_iff.mp h with ⟨hlt, -⟩
  exact List.getElem?_set_self hlt

/-- Nothing changes if the slot is overwritten by what it holds. -/
theorem set_eq_self (h : l[i]? = some a) : l.set i a = l := by
  rcases List.getElem?_eq_some_iff.mp h with ⟨hlt, rfl⟩
  exact List.set_getElem_self hlt

/-- After a slot was added. -/
theorem getElem?_concat_cases (h : (l ++ [a])[j]? = some b) :
    (j = l.length ∧ b = a) ∨ l[j]? = some b := by
  rcases Nat.lt_trichotomy j l.length with hlt | heq | hgt
  · rw [List.getElem?_append_left hlt] at h
    exact Or.inr h
  · subst heq
    rw [List.getElem?_concat_length] at h
    exact Or.inl ⟨rfl, (Option.some.inj h).symm⟩
  · rw [List.getElem?_eq_none] at h
    · cases h
    · rw [List.length_append, List.length_singleton]
      omega

/-- The slots that were there. -/
theorem getElem?_concat_of_some (h : l[j]? = some b) : (l ++ [a])[j]? = some b := by
  rcases List.getElem?_eq_some_iff.mp h with ⟨hlt, -⟩
  rw [List.getElem?_append_left hlt]
  exact h

/-- How a sum over the slots changes when one is overwritten. -/
theorem sum_map_set (f : α → ℕ) (h : l[i]? = some b) :
    ((l.set i a).map f).sum + f b = (l.map f).sum + f a := by
  induction l generalizing i with
  | nil => cases h
  | cons x l ih =>
    cases i with
    | zero =>
      cases h
      simp only [List.set_cons_zero, List.map_cons, List.sum_cons]
      omega
    | succ i =>
      have hrest := ih h
      simp only [List.set_cons_succ, List.map_cons, List.sum_cons]
      omega

/-! ## Counting slots -/

section Count

variable {p : α → Bool}

/-- How a count changes when a slot is overwritten. -/
theorem countP_set_add (p : α → Bool) (h : l[i]? = some b) :
    (l.set i a).countP p + (if p b then 1 else 0) = l.countP p + (if p a then 1 else 0) := by
  rcases List.getElem?_eq_some_iff.mp h with ⟨hlt, heq⟩
  rw [List.countP_set hlt, heq]
  -- the old slot is counted, so that nothing is cut off
  have hpos : p b = true → 0 < l.countP p := fun hb =>
    List.countP_pos_iff.mpr ⟨b, List.mem_of_getElem? h, hb⟩
  split
  · have hpos := hpos ‹_›
    omega
  · omega

theorem countP_range_getElem? (p : α → Bool) (l : List α) :
    (List.range l.length).countP (fun i => (l[i]?).any p) = l.countP p := by
  induction l using List.reverseRecOn with
  | nil => rfl
  | append_singleton l x ih =>
    have hsame : (List.range l.length).countP (fun i => ((l ++ [x])[i]?).any p) =
        (List.range l.length).countP (fun i => (l[i]?).any p) := by
      apply List.countP_congr
      intro i hi
      rw [List.getElem?_append_left (List.mem_range.mp hi)]
    rw [List.length_append, List.length_singleton, List.range_succ, List.countP_append, hsame, ih,
      List.countP_append, List.countP_singleton, List.getElem?_concat_length, Option.any_some,
      List.countP_singleton]

/-- If each slot that counts is held by one of `n` holders, then at most `n` slots
count. -/
theorem countP_le_of_holders (n : ℕ) (holds : ℕ → Option ℕ)
    (h : ∀ (i : ℕ) x, l[i]? = some x → p x = true → ∃ w, w < n ∧ holds w = some i) :
    l.countP p ≤ n := by
  have hsubset : (List.range l.length).filter (fun i => (l[i]?).any p) ⊆
      (List.range n).filterMap holds := by
    intro i hi
    rw [List.mem_filter, Option.any_eq_true] at hi
    rcases hi with ⟨-, x, hx, hp⟩
    rcases h i x hx hp with ⟨w, hw, hholds⟩
    exact List.mem_filterMap.mpr ⟨w, List.mem_range.mpr hw, hholds⟩
  have hnodup : ((List.range l.length).filter (fun i => (l[i]?).any p)).Nodup :=
    List.nodup_range.filter _
  calc l.countP p = ((List.range l.length).filter fun i => (l[i]?).any p).length := by
        rw [← countP_range_getElem?, List.countP_eq_length_filter]
    _ ≤ ((List.range n).filterMap holds).length := List.Nodup.length_le_of_subset hnodup hsubset
    _ ≤ (List.range n).length := List.length_filterMap_le holds _
    _ = n := List.length_range

end Count

/-- What counts once stands in one slot. -/
theorem getElem?_unique_of_count_le_one [DecidableEq α] (h : l.count a ≤ 1)
    (hi : l[i]? = some a) (hj : l[j]? = some a) : i = j := by
  induction l generalizing i j with
  | nil => simp at hi
  | cons x l ih =>
    cases i with
    | zero =>
      cases j with
      | zero => rfl
      | succ j =>
        -- once at the head and once behind it
        have hpos := List.count_pos_iff.mpr (List.mem_of_getElem? (l := l) (by simpa using hj))
        simp only [List.getElem?_cons_zero, Option.some.injEq] at hi
        rw [hi, List.count_cons_self] at h
        omega
    | succ i =>
      cases j with
      | zero =>
        have hpos := List.count_pos_iff.mpr (List.mem_of_getElem? (l := l) (by simpa using hi))
        simp only [List.getElem?_cons_zero, Option.some.injEq] at hj
        rw [hj, List.count_cons_self] at h
        omega
      | succ j =>
        have hle : l.count a ≤ (x :: l).count a := List.count_le_count_cons
        have hij : i = j :=
          ih (Nat.le_trans hle h) (by simpa using hi) (by simpa using hj)
        rw [hij]

end InterviewPrep
