import Mathlib.Order.Bounds.Defs
import Mathlib.Tactic.Positivity
import InterviewPrep.Lib.WhileLoop

/-!
# Container with most water

`maxContainerArea` of `dsa/container_with_most_water/answer.py` and `answer.ts`: two
pointers that start at both ends, of which the one at the lower line moves inwards. A
pair of lines outside the pointers holds no more than the best pair so far
(`Inv.outside`), because the lower line limits all pairs it is in. So the last best
area is the greatest (`maxContainerArea_greatest`).
-/

namespace InterviewPrep.ContainerWithMostWater

/-! ## The program -/

inductive Error where
  | outOfRange
deriving DecidableEq

/-- The variables of the loop. -/
structure Pointers where
  left : ℤ
  right : ℤ
  bestArea : ℤ

/-- `heights[i]` for an index in range. The functions read no other. -/
def read (heights : List ℕ) (i : ℤ) : Except Error ℤ :=
  if 0 ≤ i then
    match heights[i.toNat]? with
    | none => .error .outOfRange
    | some height => .ok height
  else .error .outOfRange

/-- The loop. The languages write the update of the best area differently. -/
def loop (better : ℤ → ℤ → ℤ → ℤ) (heights : List ℕ) : WhileLoop Pointers Error where
  guard s := s.left < s.right
  body s := do
    let leftHeight ← read heights s.left
    let rightHeight ← read heights s.right
    let bestArea := better s.bestArea (min leftHeight rightHeight) (s.right - s.left)
    return if leftHeight ≤ rightHeight then ⟨s.left + 1, s.right, bestArea⟩
      else ⟨s.left, s.right - 1, bestArea⟩

/-- The variables before the loop. -/
def start (heights : List ℕ) : Pointers := ⟨0, heights.length - 1, 0⟩

namespace Python

/-- `max(height * width, best_area)` -/
def better (best_area height width : ℤ) : ℤ := max (height * width) best_area

/-- Nothing where the bound is too small for the loop. -/
def maxContainerArea (heights : List ℕ) (bound : ℕ) : Option (Except Error ℤ) :=
  ((loop better heights).run bound (start heights)).map fun r => r.map Pointers.bestArea

end Python

namespace TypeScript

/-- `Math.max(bestArea, width * minHeight)` -/
def better (bestArea minHeight width : ℤ) : ℤ := max bestArea (width * minHeight)

/-- Nothing where the bound is too small for the loop. -/
def maxContainerArea (heights : List ℕ) (bound : ℕ) : Option (Except Error ℤ) :=
  ((loop better heights).run bound (start heights)).map fun r => r.map Pointers.bestArea

end TypeScript

/-! ## Areas -/

/-- The lines at `i` and `j` hold the area `a`. -/
def Holds (heights : List ℕ) (i j : ℕ) (a : ℤ) : Prop :=
  ∃ x y : ℕ, heights[i]? = some x ∧ heights[j]? = some y ∧ a = ((j : ℤ) - i) * min (x : ℤ) y

/-- The areas that two lines hold. -/
def areas (heights : List ℕ) : Set ℤ := {a | ∃ i j, i < j ∧ Holds heights i j a}

section Loop

variable {heights : List ℕ} {s : Pointers} {better : ℤ → ℤ → ℤ → ℤ}

theorem read_eq {i : ℤ} (h0 : 0 ≤ i) (hn : i < heights.length) :
    ∃ x : ℕ, heights[i.toNat]? = some x ∧ read heights i = .ok (x : ℤ) := by
  have hlt : i.toNat < heights.length := by omega
  refine ⟨heights[i.toNat], List.getElem?_eq_getElem hlt, ?_⟩
  rw [read, if_pos h0, List.getElem?_eq_getElem hlt]

theorem Holds.nonneg {i j : ℕ} {a : ℤ} (hij : i < j) (h : Holds heights i j a) : 0 ≤ a := by
  rcases h with ⟨x, y, -, -, rfl⟩
  exact mul_nonneg (by omega) (by omega)

/-- A pair of lines holds no more than a wider one whose lower line is one of its own. -/
theorem Holds.le {i j : ℕ} {a width : ℤ} {z : ℕ} (hij : i < j) (h : Holds heights i j a)
    (hwidth : (j : ℤ) - i ≤ width) (hlower : heights[i]? = some z ∨ heights[j]? = some z) :
    a ≤ width * z := by
  rcases h with ⟨x, y, hx, hy, rfl⟩
  have hmin : min (x : ℤ) y ≤ z := by
    rcases hlower with hz | hz
    · rw [hx, Option.some.injEq] at hz
      omega
    · rw [hy, Option.some.injEq] at hz
      omega
  exact mul_le_mul hwidth hmin (by omega) (by omega)

/-- What the loop keeps: the pointers are in range, no pair outside them holds more than
the best area, and this is 0 or an area. -/
structure Inv (heights : List ℕ) (s : Pointers) : Prop where
  left : 0 ≤ s.left
  right : s.right < heights.length
  nonneg : 0 ≤ s.bestArea
  outside : ∀ i j a, i < j → Holds heights i j a → s.left ≤ i ∧ j ≤ s.right ∨ a ≤ s.bestArea
  attained : s.bestArea = 0 ∨ s.bestArea ∈ areas heights

theorem inv_start (heights : List ℕ) : Inv heights (start heights) where
  left := Int.le_refl 0
  right := by
    show (heights.length : ℤ) - 1 < heights.length
    omega
  nonneg := Int.le_refl 0
  outside := by
    rintro i j a hij ⟨x, y, hx, hy, -⟩
    have hlt := (List.getElem?_eq_some_iff.mp hy).1
    left
    show (0 : ℤ) ≤ i ∧ (j : ℤ) ≤ heights.length - 1
    omega
  attained := Or.inl rfl

/-- Counting an area keeps the best area 0 or an area. -/
theorem attained_max {best a : ℤ} (hbest : best = 0 ∨ best ∈ areas heights)
    (ha : a ∈ areas heights) : max best a = 0 ∨ max best a ∈ areas heights := by
  rcases max_choice best a with hmax | hmax
  · rw [hmax]
    exact hbest
  · rw [hmax]
    exact Or.inr ha

/-- One round: the pair at the pointers is counted, and its lower line left behind. -/
theorem Inv.round
    (hbetter : ∀ best height width, better best height width = max best (width * height))
    (h : Inv heights s) (hguard : (loop better heights).guard s = true) :
    ∃ t, (loop better heights).body s = .ok t ∧ Inv heights t ∧
      (t.right - t.left).toNat < (s.right - s.left).toNat := by
  rcases h with ⟨hleft, hright, hnonneg, houtside, hattained⟩
  have hlt : s.left < s.right := of_decide_eq_true hguard
  have hleft' : s.left < heights.length := by omega
  have hright' : 0 ≤ s.right := by omega
  rcases read_eq hleft hleft' with ⟨x, hx, hreadx⟩
  rcases read_eq hright' hright with ⟨y, hy, hready⟩
  have harea : (s.right - s.left) * min (x : ℤ) y ∈ areas heights := by
    refine ⟨s.left.toNat, s.right.toNat, by omega, x, y, hx, hy, ?_⟩
    rw [Int.toNat_of_nonneg hleft, Int.toNat_of_nonneg hright']
  have hbody : (loop better heights).body s = .ok
      (if (x : ℤ) ≤ y then
        ⟨s.left + 1, s.right, max s.bestArea ((s.right - s.left) * min (x : ℤ) y)⟩
      else ⟨s.left, s.right - 1, max s.bestArea ((s.right - s.left) * min (x : ℤ) y)⟩) := by
    simp [loop, hreadx, hready, hbetter, bind, Except.bind, pure, Except.pure]
  rw [hbody]
  refine ⟨_, rfl, ?_⟩
  have hbest := le_max_left s.bestArea ((s.right - s.left) * min (x : ℤ) y)
  have hcounted := le_max_right s.bestArea ((s.right - s.left) * min (x : ℤ) y)
  have hattained' := attained_max hattained harea
  -- of the best area only these three facts matter
  generalize hmax : max s.bestArea ((s.right - s.left) * min (x : ℤ) y) = best at *
  split
  · -- the left line is the lower one: it is in no better pair
    rename_i hle
    rw [min_eq_left hle] at hcounted
    refine ⟨⟨?_, hright, le_trans hnonneg hbest, ?_, hattained'⟩, ?_⟩
    · show 0 ≤ s.left + 1
      omega
    · intro i j a hij hholds
      rcases houtside i j a hij hholds with ⟨hi, hj⟩ | ha
      · rcases Int.lt_or_eq_of_le hi with hi | hi
        · exact Or.inl ⟨hi, hj⟩
        · have hline : heights[i]? = some x := by
            rw [← hx, hi, Int.toNat_natCast]
          exact Or.inr (le_trans (hholds.le hij (by omega) (Or.inl hline)) hcounted)
      · exact Or.inr (le_trans ha hbest)
    · show (s.right - (s.left + 1)).toNat < (s.right - s.left).toNat
      omega
  · rename_i hgt
    rw [min_eq_right (by omega)] at hcounted
    refine ⟨⟨hleft, ?_, le_trans hnonneg hbest, ?_, hattained'⟩, ?_⟩
    · show s.right - 1 < heights.length
      omega
    · intro i j a hij hholds
      rcases houtside i j a hij hholds with ⟨hi, hj⟩ | ha
      · rcases Int.lt_or_eq_of_le hj with hj | hj
        · exact Or.inl ⟨hi, Int.le_sub_one_of_lt hj⟩
        · have hline : heights[j]? = some y := by
            rw [← hy, ← hj, Int.toNat_natCast]
          exact Or.inr (le_trans (hholds.le hij (by omega) (Or.inr hline)) hcounted)
      · exact Or.inr (le_trans ha hbest)
    · show (s.right - 1 - s.left).toNat < (s.right - s.left).toNat
      omega

/-- With the pointers together, every pair is outside. -/
theorem Inv.done (h : Inv heights s) (hguard : (loop better heights).guard s = false) :
    (heights.length < 2 → s.bestArea = 0) ∧
      (2 ≤ heights.length → IsGreatest (areas heights) s.bestArea) := by
  have hmet : ¬ s.left < s.right := of_decide_eq_false hguard
  -- no two lines are between pointers that have met
  have hbest : ∀ i j a, i < j → Holds heights i j a → a ≤ s.bestArea := by
    intro i j a hij hholds
    rcases h.outside i j a hij hholds with hin | ha
    · omega
    · exact ha
  constructor
  · intro hshort
    rcases h.attained with hzero | ⟨i, j, hij, x, y, -, hy, -⟩
    · exact hzero
    · have hlt := (List.getElem?_eq_some_iff.mp hy).1
      omega
  · intro hlong
    refine ⟨?_, fun a ⟨i, j, hij, hholds⟩ => hbest i j a hij hholds⟩
    rcases h.attained with hzero | harea
    · -- then the first two lines hold nothing either
      have hfirst : ∃ a, Holds heights 0 1 a :=
        ⟨_, heights[0], heights[1], List.getElem?_eq_getElem (by omega),
          List.getElem?_eq_getElem (by omega), rfl⟩
      rcases hfirst with ⟨a, ha⟩
      have hzero' : s.bestArea = a := by
        have hle := hbest 0 1 a Nat.zero_lt_one ha
        have hnonneg := ha.nonneg Nat.zero_lt_one
        omega
      rw [hzero']
      exact ⟨0, 1, Nat.zero_lt_one, ha⟩
    · exact harea

/-- The loop ends, with a number of rounds below the length, and has read in range. -/
theorem loop_returns
    (hbetter : ∀ best height width, better best height width = max best (width * height))
    (heights : List ℕ) {bound : ℕ} (hbound : heights.length < bound) :
    ∃ s, (loop better heights).run bound (start heights) = some (.ok s) ∧
      (heights.length < 2 → s.bestArea = 0) ∧
      (2 ≤ heights.length → IsGreatest (areas heights) s.bestArea) := by
  have hstart : ((start heights).right - (start heights).left).toNat < bound := by
    show ((heights.length : ℤ) - 1 - 0).toNat < bound
    omega
  rcases WhileLoop.returns_of_variant (fun s h hguard => Inv.round hbetter h hguard)
    (inv_start heights) hstart with ⟨s, hrun, hinv, hdone⟩
  exact ⟨s, hrun, hinv.done hdone⟩

end Loop

/-- Both versions return, without an error of reading: 0 for less than two lines, and
otherwise the greatest area that two lines hold. -/
theorem maxContainerArea_greatest (heights : List ℕ) {bound : ℕ} (hbound : heights.length < bound) :
    ∃ area, Python.maxContainerArea heights bound = some (.ok area) ∧
      TypeScript.maxContainerArea heights bound = some (.ok area) ∧
      (heights.length < 2 → area = 0) ∧ (2 ≤ heights.length → IsGreatest (areas heights) area) := by
  have hpython : ∀ best height width, Python.better best height width = max best (width * height) := by
    intro best height width
    rw [Python.better, max_comm, mul_comm]
  have htypeScript : ∀ best height width,
      TypeScript.better best height width = max best (width * height) := fun _ _ _ => rfl
  rcases loop_returns hpython heights hbound with ⟨s, hs, hshort, hlong⟩
  rcases loop_returns htypeScript heights hbound with ⟨t, ht, hshort', hlong'⟩
  refine ⟨s.bestArea, by rw [Python.maxContainerArea, hs]; rfl, ?_, hshort, hlong⟩
  have heq : t.bestArea = s.bestArea := by
    rcases Nat.lt_or_ge heights.length 2 with hlt | hge
    · rw [hshort hlt, hshort' hlt]
    · exact (hlong' hge).unique (hlong hge)
  rw [TypeScript.maxContainerArea, ht, ← heq]
  rfl

/-- The best lines are not the highest. -/
theorem maxContainerArea_greatest_example :
    IsGreatest (areas [1, 8, 6, 2, 5, 4, 8, 3, 7]) 49 := by
  rcases maxContainerArea_greatest [1, 8, 6, 2, 5, 4, 8, 3, 7] (by decide : _ < 10) with
    ⟨area, hpython, -, -, hlong⟩
  have hrun : Python.maxContainerArea [1, 8, 6, 2, 5, 4, 8, 3, 7] 10 = some (.ok 49) := by rfl
  rw [hrun] at hpython
  rcases Except.ok.inj (Option.some.inj hpython) with rfl
  exact hlong (by decide)

end InterviewPrep.ContainerWithMostWater
