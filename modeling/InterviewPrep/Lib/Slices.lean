import Mathlib.Data.List.Basic

/-!
# Cutting a list into slices

`slices n l` are the pieces `l[0:n]`, `l[n:2n]`, … of a list, as a loop over
`range(0, len(l), n)` cuts them. The slices are the list again (`slices_flatten`),
and none is empty or longer than `n` (`length_of_mem_slices`).
-/

namespace InterviewPrep

universe u

variable {α : Type u}

/-- The slices of length `n`, where the last may be shorter. -/
def slices (n : ℕ) (l : List α) : List (List α) :=
  (List.range ((l.length + (n - 1)) / n)).map fun k => (l.drop (n * k)).take n

theorem flatten_map_range_slice (n : ℕ) (l : List α) (m : ℕ) :
    ((List.range m).map fun k => (l.drop (n * k)).take n).flatten = l.take (n * m) := by
  induction m with
  | zero => simp
  | succ m ih =>
    rw [List.range_succ, List.map_append, List.flatten_append, ih, Nat.mul_succ, List.take_add]
    simp only [List.map_cons, List.map_nil, List.flatten_cons, List.flatten_nil,
      List.append_nil]

/-- The last slice reaches the end. -/
theorem length_le_mul_slices {n : ℕ} (hn : 0 < n) (m : ℕ) : m ≤ n * ((m + (n - 1)) / n) := by
  have hdiv := Nat.div_add_mod (m + (n - 1)) n
  have hmod := Nat.mod_lt (m + (n - 1)) hn
  omega

theorem slices_flatten {n : ℕ} (hn : 0 < n) (l : List α) : (slices n l).flatten = l := by
  unfold slices
  rw [flatten_map_range_slice]
  exact List.take_of_length_le (length_le_mul_slices hn l.length)

theorem length_of_mem_slices {n : ℕ} (hn : 0 < n) {l s : List α} (hs : s ∈ slices n l) :
    1 ≤ s.length ∧ s.length ≤ n := by
  unfold slices at hs
  rcases List.mem_map.mp hs with ⟨k, hk, rfl⟩
  have hk := List.mem_range.mp hk
  -- the slice starts before the end of the list
  have hstart : n * k < l.length := by
    have hmul : n * (k + 1) ≤ n * ((l.length + (n - 1)) / n) := Nat.mul_le_mul_left n hk
    have hdiv := Nat.mul_div_le (l.length + (n - 1)) n
    rw [Nat.mul_succ] at hmul
    omega
  rw [List.length_take, List.length_drop]
  omega

end InterviewPrep
