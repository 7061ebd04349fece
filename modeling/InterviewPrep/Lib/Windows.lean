import InterviewPrep.Lib.Slices

/-!
# Overlapping slices

`slice l a b` is `l[a:b]`, and `windows size step l` are the pieces `l[0:size]`,
`l[step:step + size]`, … that a loop over `range(0, len(l), step)` cuts. Where
`step` is smaller than `size` they overlap: their heads are the slices of length
`step` (`map_take_windows`), and a passage `l[a:b]` lies in one of them exactly if
it ends in the last one that starts at `a` or before (`exists_window_iff`).
-/

namespace InterviewPrep

universe u

variable {α : Type u}

/-- `l[a:b]` -/
def slice (l : List α) (a b : ℕ) : List α := (l.drop a).take (b - a)

/-- The slices of length `size` from every multiple of `step`; the last ones may be
shorter. -/
def windows (size step : ℕ) (l : List α) : List (List α) :=
  (List.range ((l.length + (step - 1)) / step)).map fun k => slice l (step * k) (step * k + size)

/-! ## Slices -/

theorem length_slice (l : List α) (a b : ℕ) : (slice l a b).length = min b l.length - a := by
  rw [slice, List.length_take, List.length_drop]
  omega

/-- A slice of a slice, as far as it does not leave it. -/
theorem slice_slice (l : List α) {a b i j : ℕ} (h : a + j ≤ b) :
    slice (slice l a b) i j = slice l (a + i) (a + j) := by
  rw [slice, slice, slice, List.drop_take, List.take_take, List.drop_drop]
  congr 1
  omega

theorem slice_append_left (l m : List α) {a b : ℕ} (h : b ≤ l.length) :
    slice (l ++ m) a b = slice l a b := by
  rw [slice, slice]
  rcases Nat.le_total a l.length with ha | ha
  · rw [List.drop_append_of_le_length ha, List.take_append_of_le_length]
    rw [List.length_drop]
    omega
  · have hzero : b - a = 0 := by omega
    rw [hzero, List.take_zero, List.take_zero]

theorem slice_append_right (l m : List α) {a b : ℕ} (h : l.length ≤ a) :
    slice (l ++ m) a b = slice m (a - l.length) (b - l.length) := by
  rw [slice, slice, List.drop_append, List.drop_eq_nil_of_le h, List.nil_append]
  congr 1
  omega

/-! ## Windows -/

variable {size step : ℕ}

/-- The loop runs while its index is in the list. -/
theorem lt_count_iff (hstep : 0 < step) (m k : ℕ) :
    k < (m + (step - 1)) / step ↔ step * k < m := by
  rw [Nat.lt_iff_add_one_le, Nat.le_div_iff_mul_le hstep, Nat.mul_comm, Nat.mul_add_one]
  omega

theorem getElem?_windows (hstep : 0 < step) (l : List α) (k : ℕ) :
    (windows size step l)[k]? =
      if step * k < l.length then some (slice l (step * k) (step * k + size)) else none := by
  rw [windows, List.getElem?_map]
  split
  · rename_i hlt
    rw [List.getElem?_range ((lt_count_iff hstep _ _).mpr hlt)]
    rfl
  · rename_i hge
    rw [← lt_count_iff hstep] at hge
    rw [List.getElem?_eq_none (by rw [List.length_range]; omega)]
    rfl

theorem map_take_windows (h : step ≤ size) (l : List α) :
    (windows size step l).map (List.take step) = slices step l := by
  rw [windows, slices, List.map_map]
  apply List.map_congr_left
  intro k _
  rw [Function.comp_apply, slice, List.take_take]
  congr 1
  omega

/-- The list is put together from the heads of its windows. -/
theorem flatten_take_windows (hstep : 0 < step) (h : step ≤ size) (l : List α) :
    ((windows size step l).map (List.take step)).flatten = l := by
  rw [map_take_windows h, slices_flatten hstep]

/-- A passage lies in a window exactly if it ends in the last one that starts before it. -/
theorem exists_window_iff (hstep : 0 < step) (l : List α) {a b : ℕ} (hab : a < b)
    (hb : b ≤ l.length) :
    (∃ (k : ℕ) (w : List α), (windows size step l)[k]? = some w ∧ step * k ≤ a ∧
        slice w (a - step * k) (b - step * k) = slice l a b) ↔
      b ≤ step * (a / step) + size := by
  have hlast : step * (a / step) ≤ a := Nat.mul_div_le a step
  constructor
  · rintro ⟨k, w, hw, hk, hslice⟩
    rw [getElem?_windows hstep] at hw
    split at hw
    · cases hw
      -- the window is long enough to hold the passage
      have hlength := congrArg List.length hslice
      rw [length_slice, length_slice, length_slice] at hlength
      have hle : step * k ≤ step * (a / step) :=
        Nat.mul_le_mul_left step ((Nat.le_div_iff_mul_le hstep).mpr (Nat.mul_comm step k ▸ hk))
      omega
    · cases hw
  · intro h
    refine ⟨a / step, slice l (step * (a / step)) (step * (a / step) + size), ?_, hlast, ?_⟩
    · rw [getElem?_windows hstep, if_pos (by omega)]
    · rw [slice_slice l (by omega)]
      congr 1
      · omega
      · omega

end InterviewPrep
