import Mathlib.Data.Int.Log
import Mathlib.Data.Rat.Floor
import Mathlib.Tactic.Linarith
import InterviewPrep.Lib.JavaScript

/-!
# Double-precision numbers

`JavaScript.Number.round` rounds an exact value to a double: to the nearest one,
at a midpoint to the even one, and to an infinity from `2 ^ 1024` on. A natural
number is a double exactly if it is `Representable`: 53 significant bits and
below `2 ^ 1024` (`round_natCast_eq_self_iff`).
-/

namespace InterviewPrep

namespace Binary64

/-! ## Rounding to an integer -/

/-- The nearest integer, and at a midpoint the even one. -/
def roundEven (q : ℚ) : ℤ :=
  if q - ⌊q⌋ < 1 / 2 then ⌊q⌋
  else if 1 / 2 < q - ⌊q⌋ then ⌊q⌋ + 1
  else ⌊q⌋ + ⌊q⌋ % 2

theorem roundEven_intCast (k : ℤ) : roundEven k = k := by
  simp [roundEven]

theorem floor_le_roundEven (q : ℚ) : ⌊q⌋ ≤ roundEven q := by
  unfold roundEven
  split
  · exact le_refl _
  · split
    · omega
    · omega

/-! ## Rounding a magnitude -/

/-- The distance between the doubles around a magnitude. -/
def ulp (a : ℚ) : ℚ := 2 ^ max (Int.log 2 a - 52) (-1074)

/-- The nearest double, as if there were no largest one. -/
def roundMagnitude (a : ℚ) : ℚ := roundEven (a / ulp a) * ulp a

theorem ulp_pos (a : ℚ) : 0 < ulp a := zpow_pos (by norm_num) _

theorem ulp_le_self {a : ℚ} (ha : 1 ≤ a) : ulp a ≤ a := by
  have hpos : (0 : ℚ) < a := lt_of_lt_of_le one_pos ha
  have hlog : 0 ≤ Int.log 2 a := by
    rw [Int.log_of_one_le_right 2 ha]
    exact Int.natCast_nonneg _
  calc ulp a ≤ 2 ^ Int.log 2 a := zpow_le_zpow_right₀ (by norm_num) (by omega)
    _ ≤ a := by exact_mod_cast Int.zpow_log_le_self (b := 2) (by norm_num) hpos

theorem roundMagnitude_nonneg {a : ℚ} (ha : 0 ≤ a) : 0 ≤ roundMagnitude a := by
  have hfloor : 0 ≤ ⌊a / ulp a⌋ := Int.floor_nonneg.mpr (div_nonneg ha (le_of_lt (ulp_pos a)))
  have hround := floor_le_roundEven (a / ulp a)
  have hnonneg : 0 ≤ roundEven (a / ulp a) := by omega
  exact mul_nonneg (by exact_mod_cast hnonneg) (le_of_lt (ulp_pos a))

theorem roundMagnitude_pos {a : ℚ} (ha : 1 ≤ a) : 0 < roundMagnitude a := by
  have hulp := ulp_pos a
  have hone : 1 ≤ a / ulp a := (one_le_div hulp).mpr (ulp_le_self ha)
  have hfloor : 1 ≤ ⌊a / ulp a⌋ := Int.le_floor.mpr (by exact_mod_cast hone)
  have hround := floor_le_roundEven (a / ulp a)
  have hpos : 0 < roundEven (a / ulp a) := by omega
  exact mul_pos (by exact_mod_cast hpos) hulp

/-- A magnitude is rounded to itself exactly if it is a multiple of its unit. -/
theorem roundMagnitude_eq_self_iff (a : ℚ) :
    roundMagnitude a = a ↔ ∃ j : ℤ, a = j * ulp a := by
  constructor
  · intro h
    exact ⟨roundEven (a / ulp a), h.symm⟩
  · rintro ⟨j, hj⟩
    have hquotient : a / ulp a = j := by
      rw [div_eq_iff (ne_of_gt (ulp_pos a))]
      exact hj
    rw [roundMagnitude, hquotient, roundEven_intCast]
    exact hj.symm

/-! ## Natural numbers -/

/-- A natural number that is a double: 53 significant bits, and not too large. -/
def Representable (n : ℕ) : Prop :=
  (∃ m k, m < 2 ^ 53 ∧ n = m * 2 ^ k) ∧ n < 2 ^ 1024

theorem ulp_natCast (n : ℕ) : ulp n = 2 ^ ((Nat.log 2 n : ℤ) - 52) := by
  have hlog : Int.log 2 (n : ℚ) = Nat.log 2 n := Int.log_natCast 2 n
  rw [ulp, hlog, max_eq_left (by omega)]

/-- Above 53 bits, a number has 53 significant bits exactly if it is a multiple of
its unit. -/
theorem exists_significand_iff {n d : ℕ} (hle : 2 ^ (52 + d + 1) ≤ n)
    (hlt : n < 2 ^ (52 + d + 1 + 1)) :
    (∃ j, n = j * 2 ^ (d + 1)) ↔ ∃ m k, m < 2 ^ 53 ∧ n = m * 2 ^ k := by
  constructor
  · rintro ⟨j, hj⟩
    refine ⟨j, d + 1, ?_, hj⟩
    have hpow : 2 ^ (52 + d + 1 + 1) = 2 ^ 53 * 2 ^ (d + 1) := by ring
    rw [hpow, hj] at hlt
    exact lt_of_mul_lt_mul_right hlt (Nat.zero_le _)
  · rintro ⟨m, k, hm, hn⟩
    rcases Nat.lt_or_ge k (d + 1) with hk | hk
    · -- too small for its number of bits
      have hpow : 2 ^ (52 + d + 1) = 2 ^ 53 * 2 ^ d := by ring
      have hmul : m * 2 ^ k < 2 ^ 53 * 2 ^ d :=
        Nat.mul_lt_mul_of_lt_of_le hm (Nat.pow_le_pow_right (by norm_num) (by omega))
          (by positivity)
      omega
    · rcases Nat.exists_eq_add_of_le hk with ⟨c, hc⟩
      refine ⟨m * 2 ^ c, ?_⟩
      rw [hn, hc]
      ring

/-- A multiple by an integer is one by a natural number. -/
theorem exists_int_multiple_iff (n u : ℕ) (hu : 0 < u) :
    (∃ j : ℤ, (n : ℚ) = j * (u : ℚ)) ↔ ∃ j : ℕ, n = j * u := by
  constructor
  · rintro ⟨j, hj⟩
    have hj' : (n : ℤ) = j * u := by exact_mod_cast hj
    have hnonneg : 0 ≤ j := by
      by_contra hneg
      have hneg' := mul_neg_of_neg_of_pos (not_le.mp hneg) (by omega : (0 : ℤ) < u)
      omega
    rcases Int.eq_ofNat_of_zero_le hnonneg with ⟨m, rfl⟩
    exact ⟨m, by exact_mod_cast hj'⟩
  · rintro ⟨j, rfl⟩
    exact ⟨j, by push_cast; rfl⟩

/-- Up to 53 bits all natural numbers are doubles; beyond, those with 53
significant bits. -/
theorem roundMagnitude_natCast_iff (n : ℕ) :
    roundMagnitude n = n ↔ ∃ m k, m < 2 ^ 53 ∧ n = m * 2 ^ k := by
  rw [roundMagnitude_eq_self_iff, ulp_natCast]
  have hlt : n < 2 ^ (Nat.log 2 n + 1) := Nat.lt_pow_succ_log_self (by norm_num) n
  rcases Nat.lt_or_ge 52 (Nat.log 2 n) with hlarge | hsmall
  · have hne : n ≠ 0 := by
      rintro rfl
      simp at hlarge
    have hle : 2 ^ Nat.log 2 n ≤ n := Nat.pow_log_le_self 2 hne
    rcases Nat.exists_eq_add_of_lt hlarge with ⟨d, hd⟩
    have hexp : (Nat.log 2 n : ℤ) - 52 = ((d + 1 : ℕ) : ℤ) := by omega
    have hunit : (2 : ℚ) ^ ((Nat.log 2 n : ℤ) - 52) = ((2 ^ (d + 1) : ℕ) : ℚ) := by
      rw [hexp, zpow_natCast]
      push_cast
      rfl
    rw [hd] at hlt hle
    rw [hunit, exists_int_multiple_iff n _ (by positivity)]
    exact exists_significand_iff hle hlt
  · constructor
    · intro _
      refine ⟨n, 0, ?_, by simp⟩
      exact lt_of_lt_of_le hlt (Nat.pow_le_pow_right (by norm_num) (by omega))
    · intro _
      rcases Nat.exists_eq_add_of_le hsmall with ⟨c, hc⟩
      refine ⟨(n * 2 ^ c : ℕ), ?_⟩
      have hexp : (Nat.log 2 n : ℤ) - 52 = -(c : ℤ) := by omega
      rw [hexp, zpow_neg, zpow_natCast]
      push_cast
      field_simp

end Binary64

namespace JavaScript.Number

open Binary64

/-- The number value of an exact value. -/
def round (q : ℚ) : Number :=
  let magnitude := roundMagnitude |q|
  if 2 ^ 1024 ≤ magnitude then if q < 0 then negInfinity else infinity
  else finite (if q < 0 then -magnitude else magnitude)

theorem round_natCast_eq_self_iff (n : ℕ) : round n = .finite n ↔ Representable n := by
  have hnonneg : ¬ (n : ℚ) < 0 := not_lt.mpr (Nat.cast_nonneg n)
  rw [Representable, ← roundMagnitude_natCast_iff, round, Nat.abs_cast]
  simp only [hnonneg, if_false]
  split
  · rename_i hlarge
    simp only [reduceCtorEq, false_iff, not_and, not_lt]
    intro h
    rw [h] at hlarge
    exact_mod_cast hlarge
  · rename_i hsmall
    rw [Number.finite.injEq]
    constructor
    · intro h
      rw [h] at hsmall
      exact ⟨h, by exact_mod_cast not_le.mp hsmall⟩
    · exact fun h => h.1

/-- No negative integer is rounded to zero. -/
theorem round_neg_natCast {n : ℕ} (hn : n ≠ 0) : (round (-n)).isNonnegative = false := by
  have hone : (1 : ℚ) ≤ n := by exact_mod_cast Nat.one_le_iff_ne_zero.mpr hn
  have hneg : -(n : ℚ) < 0 := by linarith
  have hpos := roundMagnitude_pos hone
  rw [round, abs_neg, Nat.abs_cast]
  simp only [hneg, if_true]
  split
  · rfl
  · simp only [isNonnegative, decide_eq_false_iff_not, not_le]
    linarith

/-- A natural number is rounded to a natural number or to infinity. -/
theorem round_natCast_cases (n : ℕ) :
    round n = .infinity ∨ ∃ q, 0 ≤ q ∧ round n = .finite q := by
  have hnonneg : ¬ (n : ℚ) < 0 := not_lt.mpr (Nat.cast_nonneg n)
  rw [round, Nat.abs_cast]
  simp only [hnonneg, if_false]
  split
  · exact Or.inl rfl
  · refine Or.inr ⟨_, ?_, rfl⟩
    exact roundMagnitude_nonneg (Nat.cast_nonneg n)

end JavaScript.Number

end InterviewPrep
