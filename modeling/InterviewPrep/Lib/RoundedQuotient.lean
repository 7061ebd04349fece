import Mathlib.Algebra.Order.Floor.Semifield
import Mathlib.Data.Nat.Size
import InterviewPrep.Lib.Binary64

/-!
# Rounded quotients

What is left of the integer part of a quotient that was rounded to a double. Below
`2 ^ 53` the next integer is a double too, and it is reached exactly if it is no farther
than half a unit (`floor_roundMagnitude_eq_iff_of_lt`). From there on doubles are integers,
and the integer part is kept exactly if it is a double (`floor_roundMagnitude_eq_iff_of_le`).
For quotients of natural numbers both are `QuotientKept`.
-/

namespace InterviewPrep

namespace Binary64

/-! ## Units -/

/-- What is rounded to at most an integer. -/
theorem roundEven_le_iff (q : ℚ) (k : ℤ) :
    roundEven q ≤ k ↔ q < k + 1 / 2 ∨ q = k + 1 / 2 ∧ k % 2 = 0 := by
  have hfloor := Int.floor_le q
  have hlt := Int.lt_floor_add_one q
  unfold roundEven
  split
  · rename_i hlow
    constructor
    · intro h
      have hk : (⌊q⌋ : ℚ) ≤ k := by exact_mod_cast h
      exact Or.inl (by linarith)
    · intro h
      have hk : (⌊q⌋ : ℚ) < k + 1 := by
        rcases h with h | ⟨h, -⟩
        · linarith
        · linarith
      exact Int.lt_add_one_iff.mp (by exact_mod_cast hk)
  · split
    · rename_i hhigh
      constructor
      · intro h
        have hk : (⌊q⌋ : ℚ) + 1 ≤ k := by exact_mod_cast h
        exact Or.inl (by linarith)
      · intro h
        have hk : (⌊q⌋ : ℚ) < k := by
          rcases h with h | ⟨h, -⟩
          · linarith
          · linarith
        exact Int.add_one_le_iff.mpr (by exact_mod_cast hk)
    · -- the midpoint
      rename_i hlow hhigh
      have hmid : q = ⌊q⌋ + 1 / 2 := by linarith
      have hless : q < k + 1 / 2 ↔ ⌊q⌋ < k := by
        rw [hmid, add_lt_add_iff_right, Int.cast_lt, ← hmid]
      have heq : q = k + 1 / 2 ↔ ⌊q⌋ = k := by
        constructor
        · intro h
          have hk : (⌊q⌋ : ℚ) = k := by linarith
          exact_mod_cast hk
        · intro h
          rw [← h]
          exact hmid
      rw [hless, heq]
      omega

/-- From a half on, the unit is 53 bits below the integer part. -/
theorem ulp_eq_of_half_le {x : ℚ} (hx : 1 / 2 ≤ x) : ulp x = 2 ^ ((⌊x⌋₊.size : ℤ) - 53) := by
  have hpos : 0 < x := by linarith
  have hlower : (2 : ℚ) ^ ((⌊x⌋₊.size : ℤ) - 1) ≤ x := by
    rcases Nat.eq_zero_or_pos ⌊x⌋₊ with hzero | hpositive
    · rw [hzero, Nat.size_zero]
      norm_num
      linarith
    · rcases Nat.exists_eq_succ_of_ne_zero (Nat.size_pos.mpr hpositive).ne' with ⟨t, ht⟩
      have hbits : 2 ^ t ≤ ⌊x⌋₊ := Nat.lt_size.mp (by omega)
      have hexp : (⌊x⌋₊.size : ℤ) - 1 = (t : ℤ) := by omega
      rw [hexp, zpow_natCast]
      calc (2 : ℚ) ^ t ≤ ⌊x⌋₊ := by exact_mod_cast hbits
        _ ≤ x := Nat.floor_le (le_of_lt hpos)
  have hupper : x < (2 : ℚ) ^ (⌊x⌋₊.size : ℤ) := by
    have hbits : ⌊x⌋₊ + 1 ≤ 2 ^ ⌊x⌋₊.size := Nat.lt_size_self _
    rw [zpow_natCast]
    calc x < ⌊x⌋₊ + 1 := Nat.lt_floor_add_one x
      _ ≤ 2 ^ ⌊x⌋₊.size := by exact_mod_cast hbits
  have hlog : Int.log 2 x = (⌊x⌋₊.size : ℤ) - 1 := by
    apply le_antisymm
    · exact Int.le_sub_one_of_lt
        ((Int.lt_zpow_iff_log_lt (b := 2) (by norm_num) hpos).mp (by exact_mod_cast hupper))
    · exact (Int.zpow_le_iff_le_log (b := 2) (by norm_num) hpos).mp (by exact_mod_cast hlower)
  rw [ulp, hlog, max_eq_left (by omega)]
  congr 1
  omega

/-- Below 1 the unit is no more than 1. -/
theorem ulp_le_one {x : ℚ} (hx : x < 1) : ulp x ≤ 1 := by
  have hlog : Int.log 2 x ≤ 0 := by
    rcases lt_or_ge 0 x with hpos | hneg
    · have hlt := (Int.lt_zpow_iff_log_lt (b := 2) (x := 0) (by norm_num) hpos).mp (by simpa using hx)
      exact le_of_lt hlt
    · exact le_of_eq (Int.log_of_right_le_zero 2 hneg)
  exact zpow_le_one_of_nonpos₀ (by norm_num) (by omega)

theorem roundEven_le_add_half (q : ℚ) : (roundEven q : ℚ) ≤ q + 1 / 2 := by
  have hnot : ¬ roundEven q ≤ roundEven q - 1 := by omega
  rw [roundEven_le_iff, not_or] at hnot
  have hle := not_lt.mp hnot.1
  push_cast at hle
  linarith

/-! ## Integer parts -/

/-- Below a half, nothing is rounded up to 1. -/
theorem roundMagnitude_lt_one {x : ℚ} (hhalf : x < 1 / 2) : roundMagnitude x < 1 := by
  have hulp := ulp_pos x
  have hone := ulp_le_one (x := x) (by linarith)
  calc roundMagnitude x ≤ (x / ulp x + 1 / 2) * ulp x :=
        mul_le_mul_of_nonneg_right (roundEven_le_add_half _) (le_of_lt hulp)
    _ = x + ulp x / 2 := by field_simp
    _ < 1 := by linarith

/-- Where an integer is a multiple of the unit, a number that is rounded keeps it as its
integer part if it is not rounded up to the next one. -/
theorem floor_mul_roundEven_iff {x : ℚ} {n N : ℕ} (hN : 0 < N) (hn : n ≤ x) :
    ⌊(roundEven (x * N) : ℚ) * (N : ℚ)⁻¹⌋ = n ↔ 1 < (n + 1 - x) * (2 * N) ∨
      (n + 1 - x) * (2 * N) = 1 ∧ (((n : ℤ) + 1) * N - 1) % 2 = 0 := by
  have hNpos : (0 : ℚ) < N := by exact_mod_cast hN
  -- the integer part is a multiple of the unit, so nothing is rounded below it
  have hlower : ((n * N : ℤ) : ℚ) ≤ roundEven (x * N) := by
    have hfloor : (n * N : ℤ) ≤ ⌊x * N⌋ := by
      apply Int.le_floor.mpr
      push_cast
      exact mul_le_mul_of_nonneg_right hn (le_of_lt hNpos)
    exact_mod_cast hfloor.trans (floor_le_roundEven _)
  have hupper : (roundEven (x * N) : ℚ) * (N : ℚ)⁻¹ < n + 1 ↔
      roundEven (x * N) ≤ ((n : ℤ) + 1) * N - 1 := by
    rw [← div_eq_mul_inv, div_lt_iff₀ hNpos, Int.le_sub_one_iff]
    exact_mod_cast Iff.rfl
  rw [Int.floor_eq_iff]
  constructor
  · rintro ⟨-, hlt⟩
    have hcases := (roundEven_le_iff _ _).mp (hupper.mp (by exact_mod_cast hlt))
    push_cast at hcases
    rcases hcases with h | ⟨h, hparity⟩
    · exact Or.inl (by linarith)
    · exact Or.inr ⟨by linarith, hparity⟩
  · intro h
    constructor
    · rw [← div_eq_mul_inv, le_div_iff₀ hNpos]
      exact_mod_cast hlower
    · have hle : roundEven (x * N) ≤ ((n : ℤ) + 1) * N - 1 := by
        rw [roundEven_le_iff]
        push_cast
        rcases h with h | ⟨h, hparity⟩
        · exact Or.inl (by linarith)
        · exact Or.inr ⟨by linarith, hparity⟩
      exact_mod_cast hupper.mpr hle

/-- In front of an integer a tie goes down only if the unit is 1. -/
theorem tie_iff {n : ℕ} (hn : n < 2 ^ 53) :
    (((n : ℤ) + 1) * ((2 ^ (53 - n.size) : ℕ) : ℤ) - 1) % 2 = 0 ↔ 2 ^ 52 ≤ n ∧ n % 2 = 0 := by
  rcases Nat.lt_or_ge 52 n.size with hlarge | hsmall
  · -- the unit is 1, so the integer part itself is the even one
    have hbits : n.size = 53 := le_antisymm (Nat.size_le.mpr hn) hlarge
    have hle : 2 ^ 52 ≤ n := Nat.lt_size.mp hlarge
    rw [hbits]
    simp only [hle, true_and, Nat.sub_self, pow_zero, Nat.cast_one, mul_one]
    omega
  · -- an integer is an even multiple of the unit, so the tie goes up to the next one
    have hlt : n < 2 ^ 52 := Nat.size_le.mp hsmall
    have heven : (2 : ℕ) ^ (53 - n.size) = 2 * 2 ^ (52 - n.size) := by
      rw [← pow_succ']
      congr 1
      omega
    have hproduct : ((n : ℤ) + 1) * ((2 ^ (53 - n.size) : ℕ) : ℤ) =
        2 * (((n : ℤ) + 1) * 2 ^ (52 - n.size)) := by
      rw [heven]
      push_cast
      ring
    rw [hproduct]
    omega

/-- Below `2 ^ 53` the integer part is kept exactly if the next integer is farther than half
a unit, or as far, where the integer part is the even one. -/
theorem floor_roundMagnitude_eq_iff_of_lt {x : ℚ} (hx : 0 ≤ x) (hn : ⌊x⌋₊ < 2 ^ 53) :
    ⌊roundMagnitude x⌋ = ⌊x⌋₊ ↔ 1 < (⌊x⌋₊ + 1 - x) * 2 ^ (54 - ⌊x⌋₊.size) ∨
      (⌊x⌋₊ + 1 - x) * 2 ^ (54 - ⌊x⌋₊.size) = 1 ∧ 2 ^ 52 ≤ ⌊x⌋₊ ∧ ⌊x⌋₊ % 2 = 0 := by
  rcases lt_or_ge x (1 / 2) with hhalf | hhalf
  · -- here the unit may be smaller than 53 bits below the integer part
    have hzero : ⌊x⌋₊ = 0 := Nat.floor_eq_zero.mpr (by linarith)
    rw [hzero, Nat.size_zero]
    constructor
    · intro _
      left
      norm_num
      linarith
    · intro _
      rw [Int.floor_eq_iff]
      simpa using ⟨roundMagnitude_nonneg hx, roundMagnitude_lt_one hhalf⟩
  · have hbits : ⌊x⌋₊.size ≤ 53 := Nat.size_le.mpr hn
    have hulp : ulp x = ((2 ^ (53 - ⌊x⌋₊.size) : ℕ) : ℚ)⁻¹ := by
      have hexp : (⌊x⌋₊.size : ℤ) - 53 = -((53 - ⌊x⌋₊.size : ℕ) : ℤ) := by omega
      rw [ulp_eq_of_half_le hhalf, hexp, zpow_neg, zpow_natCast]
      push_cast
      rfl
    have hdouble : (2 : ℚ) ^ (54 - ⌊x⌋₊.size) = 2 * ((2 ^ (53 - ⌊x⌋₊.size) : ℕ) : ℚ) := by
      have hexp : 54 - ⌊x⌋₊.size = 53 - ⌊x⌋₊.size + 1 := by omega
      rw [hexp, pow_succ']
      push_cast
      rfl
    rw [roundMagnitude, hulp, div_inv_eq_mul,
      floor_mul_roundEven_iff (by positivity) (Nat.floor_le hx), hdouble]
    apply or_congr_right
    apply and_congr_right
    intro _
    exact tie_iff hn

/-- Where the unit is an even number, the integer part is kept exactly if it is a multiple. -/
theorem floor_roundEven_mul_iff {x : ℚ} {n U : ℕ} (hU : 2 ≤ U) (hn : n ≤ x) (hlt : x < n + 1) :
    ⌊(roundEven (x / U) : ℚ) * U⌋ = n ↔ ∃ j, n = j * U := by
  have hpos : (0 : ℚ) < U := by exact_mod_cast lt_of_lt_of_le two_pos hU
  have htwo : (2 : ℚ) ≤ U := by exact_mod_cast hU
  have hinteger : ⌊(roundEven (x / U) : ℚ) * U⌋ = roundEven (x / U) * U := by
    rw [← Int.cast_natCast, ← Int.cast_mul, Int.floor_intCast]
  rw [hinteger]
  constructor
  · intro h
    refine (exists_int_multiple_iff n U (by omega)).mp ⟨roundEven (x / U), ?_⟩
    exact_mod_cast h.symm
  · rintro ⟨j, rfl⟩
    push_cast at hn hlt
    have hupper : roundEven (x / U) ≤ j := by
      rw [roundEven_le_iff]
      left
      rw [div_lt_iff₀ hpos]
      push_cast
      linarith
    have hlower : (j : ℤ) ≤ roundEven (x / U) := by
      have hfloor : (j : ℤ) ≤ ⌊x / U⌋ := by
        apply Int.le_floor.mpr
        rw [le_div_iff₀ hpos]
        exact_mod_cast hn
      exact hfloor.trans (floor_le_roundEven _)
    rw [le_antisymm hupper hlower]
    push_cast
    rfl

/-- From `2 ^ 53` on the integer part is kept exactly if it has 53 significant bits. -/
theorem floor_roundMagnitude_eq_iff_of_le {x : ℚ} (hx : 0 ≤ x) (hn : 2 ^ 53 ≤ ⌊x⌋₊) :
    ⌊roundMagnitude x⌋ = ⌊x⌋₊ ↔ ∃ m k, m < 2 ^ 53 ∧ ⌊x⌋₊ = m * 2 ^ k := by
  have hle : (⌊x⌋₊ : ℚ) ≤ x := Nat.floor_le hx
  have hhalf : 1 / 2 ≤ x := by
    have hone : (1 : ℚ) ≤ ⌊x⌋₊ := by exact_mod_cast le_trans Nat.one_le_two_pow hn
    linarith
  rcases Nat.exists_eq_add_of_lt (Nat.lt_size.mpr hn) with ⟨d, hd⟩
  have hulp : ulp x = ((2 ^ (d + 1) : ℕ) : ℚ) := by
    have hexp : (⌊x⌋₊.size : ℤ) - 53 = ((d + 1 : ℕ) : ℤ) := by omega
    rw [ulp_eq_of_half_le hhalf, hexp, zpow_natCast]
    push_cast
    rfl
  have hlower : 2 ^ (52 + d + 1) ≤ ⌊x⌋₊ := Nat.lt_size.mp (by omega)
  have hupper : ⌊x⌋₊ < 2 ^ (52 + d + 1 + 1) := Nat.size_le.mp (by omega)
  rw [← exists_significand_iff hlower hupper, roundMagnitude, hulp]
  apply floor_roundEven_mul_iff ?_ hle (Nat.lt_floor_add_one x)
  calc 2 = 2 ^ 1 := rfl
    _ ≤ 2 ^ (d + 1) := Nat.pow_le_pow_right (by norm_num) (by omega)

/-! ## Quotients of natural numbers -/

/-- The integer part of `a / b` is still that of the quotient rounded to a double. Below
`2 ^ 53` this asks for the distance `b - a % b` to the next integer, in units of `1 / b`. -/
def QuotientKept (a b : ℕ) : Prop :=
  if a / b < 2 ^ 53 then
    b < (b - a % b) * 2 ^ (54 - (a / b).size) ∨
      b = (b - a % b) * 2 ^ (54 - (a / b).size) ∧ 2 ^ 52 ≤ a / b ∧ a / b % 2 = 0
  else Representable (a / b)

/-- The distance of a quotient to the next integer. -/
theorem div_add_one_sub_div {a b : ℕ} (hb : 0 < b) :
    ((a / b : ℕ) : ℚ) + 1 - a / b = ((b - a % b : ℕ) : ℚ) / b := by
  have hbpos : (0 : ℚ) < b := by exact_mod_cast hb
  have hdivision : (a : ℚ) = b * (a / b : ℕ) + (a % b : ℕ) := by
    exact_mod_cast (Nat.div_add_mod a b).symm
  rw [Nat.cast_sub (le_of_lt (Nat.mod_lt a hb)), eq_div_iff (ne_of_gt hbpos), sub_mul,
    div_mul_cancel₀ _ (ne_of_gt hbpos)]
  linarith

theorem quotientKept_iff {a b : ℕ} (hb : 0 < b) :
    QuotientKept a b ↔ ⌊roundMagnitude ((a : ℚ) / b)⌋ = (a / b : ℕ) ∧
      roundMagnitude ((a : ℚ) / b) < 2 ^ 1024 := by
  have hbpos : (0 : ℚ) < b := by exact_mod_cast hb
  have hnonneg : 0 ≤ (a : ℚ) / b := div_nonneg (Nat.cast_nonneg a) (Nat.cast_nonneg b)
  have hfloor : ⌊(a : ℚ) / b⌋₊ = a / b := Nat.floor_div_eq_div a b
  have hbelow : ⌊roundMagnitude ((a : ℚ) / b)⌋ = (a / b : ℕ) → a / b < 2 ^ 1024 →
      roundMagnitude ((a : ℚ) / b) < 2 ^ 1024 := by
    intro hkept hlt
    have hround := Int.lt_floor_add_one (roundMagnitude ((a : ℚ) / b))
    have hle : ((a / b : ℕ) : ℚ) + 1 ≤ 2 ^ 1024 := by exact_mod_cast hlt
    rw [hkept, Int.cast_natCast] at hround
    exact lt_of_lt_of_le hround hle
  unfold QuotientKept
  split
  · rename_i hlt
    have hkept := floor_roundMagnitude_eq_iff_of_lt hnonneg (by rwa [hfloor])
    rw [hfloor, div_add_one_sub_div hb, div_mul_eq_mul_div, one_lt_div hbpos,
      div_eq_one_iff_eq (ne_of_gt hbpos)] at hkept
    have hcond : ⌊roundMagnitude ((a : ℚ) / b)⌋ = (a / b : ℕ) ↔
        b < (b - a % b) * 2 ^ (54 - (a / b).size) ∨
          b = (b - a % b) * 2 ^ (54 - (a / b).size) ∧ 2 ^ 52 ≤ a / b ∧ a / b % 2 = 0 := by
      rw [hkept, eq_comm (b := (b : ℚ))]
      exact_mod_cast Iff.rfl
    rw [← hcond, iff_self_and]
    intro hkept'
    have hlarge : 2 ^ 53 ≤ 2 ^ 1024 := pow_le_pow_right₀ one_le_two (by omega)
    exact hbelow hkept' (lt_of_lt_of_le hlt hlarge)
  · rename_i hle
    have hkept := floor_roundMagnitude_eq_iff_of_le hnonneg (by rw [hfloor]; omega)
    rw [hfloor] at hkept
    rw [Representable, ← hkept]
    apply and_congr_right
    intro hkept'
    constructor
    · exact hbelow hkept'
    · intro hround
      have hfloor' := Int.floor_le (roundMagnitude ((a : ℚ) / b))
      rw [hkept', Int.cast_natCast] at hfloor'
      have hlt : ((a / b : ℕ) : ℚ) < 2 ^ 1024 := lt_of_le_of_lt hfloor' hround
      exact_mod_cast hlt

/-- The integer part is kept where both numbers are no larger than `2 ^ 53`. -/
theorem quotientKept_of_le {a b : ℕ} (hb : 0 < b) (ha : a < 2 ^ 53) (hb53 : b ≤ 2 ^ 53) :
    QuotientKept a b := by
  have hlt : a / b < 2 ^ 53 := (Nat.div_le_self a b).trans_lt ha
  have hgap : 1 ≤ b - a % b := Nat.sub_pos_of_lt (Nat.mod_lt a hb)
  have hunit : b < 2 ^ (54 - (a / b).size) := by
    rcases Nat.eq_zero_or_pos (a / b).size with hzero | hpos
    · -- a quotient below 1
      rw [hzero]
      exact hb53.trans_lt (by norm_num)
    · rcases Nat.exists_eq_succ_of_ne_zero hpos.ne' with ⟨t, ht⟩
      have hquotient : 2 ^ t ≤ a / b := Nat.lt_size.mp (by omega)
      have ht53 : t < 53 := by
        have hsize := Nat.size_le.mpr hlt
        omega
      have hproduct : 2 ^ t * b < 2 ^ t * 2 ^ (53 - t) := by
        rw [← pow_add, Nat.add_sub_cancel' (le_of_lt ht53)]
        exact ((Nat.le_div_iff_mul_le hb).mp hquotient).trans_lt ha
      have hexp : 54 - (a / b).size = 53 - t := by omega
      rw [hexp]
      exact lt_of_mul_lt_mul_left hproduct (Nat.zero_le _)
  rw [QuotientKept, if_pos hlt]
  left
  calc b < 1 * 2 ^ (54 - (a / b).size) := by rwa [one_mul]
    _ ≤ (b - a % b) * 2 ^ (54 - (a / b).size) := Nat.mul_le_mul_right _ hgap

end Binary64

end InterviewPrep
