import Mathlib.Algebra.Order.Ring.Nat
import Mathlib.Data.Nat.Basic
import InterviewPrep.Dsa.FirstAndLastMatch

/-!
# The probe of the Python searches

`firstAndLastMatch` of `dsa/first_and_last_match/answer.py` probes
`(right - left) // 2`, which is the middle of the interval only while `left` is
zero. Until then `right` is halved; once the search goes right, it probes the same
elements for ever, unless the interval was a single element
(`terminates_iff_of_pos`). So both loops end only if no element is at most the
target, or one element is and halving ends at a single one
(`python_terminates_iff`).
-/

namespace InterviewPrep.FirstAndLastMatch

/-! ## Halving -/

/-- In binary the number begins with a one and a zero. -/
def BeginsWithOneZero (m : ℕ) : Prop := ∃ j, 2 * 2 ^ j ≤ m ∧ m < 3 * 2 ^ j

theorem beginsWithOneZero_two : BeginsWithOneZero 2 := ⟨0, by omega⟩

theorem not_beginsWithOneZero_three : ¬ BeginsWithOneZero 3 := by
  rintro ⟨j, hlow, hhigh⟩
  cases j with
  | zero => simp at hhigh
  | succ j =>
    have hpos : 0 < 2 ^ j := Nat.two_pow_pos j
    rw [Nat.pow_succ] at hlow
    omega

/-- The last digit does not matter. -/
theorem beginsWithOneZero_half {m : ℕ} (hm : 4 ≤ m) :
    BeginsWithOneZero m ↔ BeginsWithOneZero (m / 2) := by
  constructor
  · rintro ⟨j, hlow, hhigh⟩
    cases j with
    | zero => omega
    | succ j =>
      rw [Nat.pow_succ] at hlow hhigh
      exact ⟨j, by omega, by omega⟩
  · rintro ⟨j, hlow, hhigh⟩
    refine ⟨j + 1, ?_, ?_⟩ <;> rw [Nat.pow_succ] <;> omega

namespace Python

/-! ## The loops -/

/-- A loop over `n` elements that goes right from the first `k` of them and left from
the others. -/
structure Probes (L : WhileLoop Search Error) (n k : ℕ) : Prop where
  guard : ∀ s : Search, L.guard s = true ↔ s.left ≤ s.right
  body : ∀ s : Search, 0 ≤ s.left → s.left ≤ s.right → s.right < n → ∃ t, L.body s = .ok t ∧
    (midpoint s < k ∧ t.left = midpoint s + 1 ∧ t.right = s.right ∨
      k ≤ midpoint s ∧ t.left = s.left ∧ t.right = midpoint s - 1)

section Loops

variable {values : List ℤ} {target : ℤ}

theorem midpoint_lt {s : Search} {n : ℕ} (h0 : 0 ≤ s.left) (hle : s.left ≤ s.right)
    (hn : s.right < n) : 0 ≤ midpoint s ∧ midpoint s < n := by
  unfold midpoint
  omega

/-- The first search goes right from the elements below the target. -/
theorem probes_first (hsorted : values.Pairwise (· ≤ ·)) :
    Probes (first_search values target) values.length (below values target) where
  guard _ := decide_eq_true_iff
  body s h0 hle hn := by
    rcases midpoint_lt h0 hle hn with ⟨hlow, hhigh⟩
    rcases body_cases hsorted target (reads values) midpoint keepLeft s
      hlow hhigh with ⟨t, hbody, hcases⟩
    have hcounts := below_le_upTo values target
    refine ⟨t, hbody, ?_⟩
    rcases hcases with ⟨hb, -, rfl⟩ | ⟨hb, rfl⟩ | ⟨hu, rfl⟩
    · exact Or.inr ⟨hb, rfl, rfl⟩
    · exact Or.inl ⟨hb, rfl, rfl⟩
    · exact Or.inr ⟨by omega, rfl, rfl⟩

/-- The last search also goes right from the matches. -/
theorem probes_last (hsorted : values.Pairwise (· ≤ ·)) :
    Probes (last_search values target) values.length (upTo values target) where
  guard _ := decide_eq_true_iff
  body s h0 hle hn := by
    rcases midpoint_lt h0 hle hn with ⟨hlow, hhigh⟩
    rcases body_cases hsorted target (reads values) midpoint keepRight s
      hlow hhigh with ⟨t, hbody, hcases⟩
    have hcounts := below_le_upTo values target
    refine ⟨t, hbody, ?_⟩
    rcases hcases with ⟨-, hu, rfl⟩ | ⟨hb, rfl⟩ | ⟨hu, rfl⟩
    · exact Or.inl ⟨hu, rfl, rfl⟩
    · exact Or.inl ⟨by omega, rfl, rfl⟩
    · exact Or.inr ⟨hu, rfl, rfl⟩

end Loops

namespace Probes

variable {L : WhileLoop Search Error} {n k : ℕ} {s : Search}

/-- A search that never goes right ends. -/
theorem terminates_of_zero (h : Probes L n 0) (hleft : s.left = 0) (hright : s.right < n) :
    L.Terminates s := by
  have hround : ∀ s : Search, s.left = 0 ∧ s.right < n → L.guard s = true → ∃ t, L.body s = .ok t ∧
      (t.left = 0 ∧ t.right < n) ∧ (t.right + 1).toNat < (s.right + 1).toNat := by
    rintro s ⟨h0, hn⟩ hguard
    have hle := (h.guard s).mp hguard
    rcases h.body s (by omega) hle hn with ⟨t, hbody, ⟨hneg, -⟩ | ⟨-, hl, hr⟩⟩
    · have hmid := midpoint_lt (by omega) hle hn
      omega
    · refine ⟨t, hbody, ?_⟩
      rw [hl, hr, midpoint]
      omega
  rcases WhileLoop.returns_of_variant hround ⟨hleft, hright⟩ (Nat.lt_succ_self _) with ⟨t, ht, -⟩
  exact ⟨_, by rw [ht]; rfl⟩

/-- Once all probes are in the part from which the search goes right, it does not end. -/
theorem not_terminates (h : Probes L n k) {r : ℕ} (hr : 1 ≤ r) (hn : r < n) (hk : r / 2 < k)
    (h0 : 0 ≤ s.left) (hle : s.left ≤ s.right) (hright : s.right = r) : ¬ L.Terminates s := by
  have hround : ∀ s : Search, (0 ≤ s.left ∧ s.left ≤ s.right ∧ s.right = r) →
      ∃ t, L.Round s t ∧ (0 ≤ t.left ∧ t.left ≤ t.right ∧ t.right = r) := by
    rintro s ⟨h0, hle, hright⟩
    rcases h.body s h0 hle (by omega) with ⟨t, hbody, ⟨-, hl, hr'⟩ | ⟨hge, -⟩⟩
    · -- the probe is in the lower half, so `left` does not pass `right`
      refine ⟨t, ⟨(h.guard s).mpr hle, hbody⟩, ?_⟩
      rw [hl, hr', midpoint]
      omega
    · rw [midpoint] at hge
      omega
  exact WhileLoop.not_terminates hround ⟨h0, hle, hright⟩

/-- A search that goes right from some elements ends exactly if it is from one, and
halving the interval ends at a single element. The induction is on `right`, while
`left` is zero. -/
theorem terminates_iff_of_pos (h : Probes L n k) (hk : 1 ≤ k) {r : ℕ} (hkr : k ≤ r + 1)
    (hn : r < n) (hleft : s.left = 0) (hright : s.right = r) :
    L.Terminates s ↔ k = 1 ∧ BeginsWithOneZero (r + 2) := by
  induction r using Nat.strong_induction_on generalizing s with
  | _ r ih =>
    have hguard : L.guard s = true := (h.guard s).mpr (by omega)
    rcases h.body s (by omega) (by omega) (by omega) with ⟨t, hbody, ⟨hlt, hl, hr⟩ | ⟨hge, hl, hr⟩⟩
    · rw [midpoint] at hlt
      rcases Nat.eq_zero_or_pos r with rfl | hpos
      · -- a single element: the interval is empty now
        have hend : L.guard t = false := by
          rw [← Bool.not_eq_true, h.guard, hl, hr, midpoint]
          omega
        refine iff_of_true ?_ ⟨by omega, beginsWithOneZero_two⟩
        rw [WhileLoop.terminates_iff_of_round ⟨hguard, hbody⟩]
        exact WhileLoop.terminates_of_not_guard hend
      · refine iff_of_false (h.not_terminates hpos hn (by omega) (by omega) (by omega) hright) ?_
        rintro ⟨rfl, hbegins⟩
        obtain rfl : r = 1 := by omega
        exact not_beginsWithOneZero_three hbegins
    · rw [midpoint] at hge hr
      rw [WhileLoop.terminates_iff_of_round ⟨hguard, hbody⟩,
        ih (r / 2 - 1) (by omega) (by omega) (by omega) (by omega) (by omega),
        beginsWithOneZero_half (by omega : 4 ≤ r + 2)]
      have hhalf : r / 2 - 1 + 2 = (r + 2) / 2 := by omega
      rw [hhalf]

/-- When a search over a list ends. -/
theorem terminates_iff {values : List ℤ} (h : Probes L values.length k)
    (hk : k ≤ values.length) :
    L.Terminates (Search.start values) ↔
      k = 0 ∨ k = 1 ∧ BeginsWithOneZero (values.length + 1) := by
  rcases Nat.eq_zero_or_pos k with rfl | hpos
  · refine iff_of_true (h.terminates_of_zero rfl ?_) (Or.inl rfl)
    simp only [Search.start]
    omega
  · have hright : (Search.start values).right = ((values.length - 1 : ℕ) : ℤ) := by
      simp only [Search.start]
      omega
    rw [h.terminates_iff_of_pos hpos (by omega) (by omega) rfl hright, or_iff_right (by omega)]
    have hlen : values.length - 1 + 2 = values.length + 1 := by omega
    rw [hlen]

end Probes

end Python

/-- On a sorted list both loops of the Python version end exactly if no element is at
most the target, or exactly one is and the length plus one begins with a one and a
zero in binary. -/
theorem python_terminates_iff {values : List ℤ} (hsorted : values.Pairwise (· ≤ ·))
    (target : ℤ) :
    (Python.first_search values target).Terminates (Search.start values) ∧
        (Python.last_search values target).Terminates (Search.start values) ↔
      values.countP (fun v => v ≤ target) = 0 ∨
        values.countP (fun v => v ≤ target) = 1 ∧ BeginsWithOneZero (values.length + 1) := by
  have hle := below_le_upTo values target
  have hlen := upTo_le_length values target
  rw [(Python.probes_first hsorted).terminates_iff (by omega),
    (Python.probes_last hsorted).terminates_iff hlen]
  change _ ↔ upTo values target = 0 ∨ upTo values target = 1 ∧ _
  -- the last search goes right wherever the first does
  constructor
  · exact fun h => h.2
  · rintro (hzero | ⟨hone, hbegins⟩)
    · exact ⟨Or.inl (by omega), Or.inl hzero⟩
    · refine ⟨?_, Or.inr ⟨hone, hbegins⟩⟩
      rcases Nat.eq_zero_or_pos (below values target) with hb | hb
      · exact Or.inl hb
      · exact Or.inr ⟨by omega, hbegins⟩

theorem python_terminates_iff_duplicates :
    (Python.first_search [1, 2, 2, 2, 4] 2).Terminates (Search.start [1, 2, 2, 2, 4]) ∧
        (Python.last_search [1, 2, 2, 2, 4] 2).Terminates (Search.start [1, 2, 2, 2, 4]) ↔
      [1, 2, 2, 2, 4].countP (fun v => v ≤ (2 : ℤ)) = 0 ∨
        [1, 2, 2, 2, 4].countP (fun v => v ≤ (2 : ℤ)) = 1 ∧
          BeginsWithOneZero (([1, 2, 2, 2, 4] : List ℤ).length + 1) :=
  python_terminates_iff (by decide : List.Pairwise (· ≤ ·) [(1 : ℤ), 2, 2, 2, 4]) 2

/-- On the first example of the question the last search does not end. -/
theorem python_example_diverges :
    ¬ (Python.last_search [1, 2, 2, 2, 4] 2).Terminates (Search.start [1, 2, 2, 2, 4]) := by
  have hsorted : List.Pairwise (· ≤ ·) [(1 : ℤ), 2, 2, 2, 4] := by decide
  rw [(Python.probes_last hsorted).terminates_iff (upTo_le_length _ _)]
  have hfour : upTo [1, 2, 2, 2, 4] 2 = 4 := by decide
  omega

end InterviewPrep.FirstAndLastMatch
