import InterviewPrep.Lib.RoundedQuotient

/-!
# Arithmetic of doubles

The operators `+`, `-`, `*` and `/` of JavaScript's numbers and `Math.trunc`. The sign of
a zero is not kept. On integers that are exact doubles the operators are those of the
integers, as long as their results are (`add_intCast`, `sub_intCast`, `mul_intCast`), and
a quotient of integers is truncated as expected exactly if `QuotientKept` holds
(`truncate_round_div_iff`).
-/

namespace InterviewPrep

namespace Binary64

/-- The integer part towards zero. -/
def truncate (q : ℚ) : ℤ := if q < 0 then ⌈q⌉ else ⌊q⌋

theorem truncate_of_nonneg {q : ℚ} (h : 0 ≤ q) : truncate q = ⌊q⌋ := if_neg (not_lt.mpr h)

theorem truncate_neg {q : ℚ} (h : 0 ≤ q) : truncate (-q) = -⌊q⌋ := by
  unfold truncate
  split
  · exact Int.ceil_neg
  · have hzero : q = 0 := by linarith
    simp [hzero]

/-- The truncated quotient of integers by that of their absolute values. -/
theorem tdiv_eq (left right : ℤ) : left.tdiv right =
    if (left : ℚ) / right < 0 then -((left.natAbs / right.natAbs : ℕ) : ℤ)
    else ((left.natAbs / right.natAbs : ℕ) : ℤ) := by
  have hquotient : ∀ a b : ℕ, ¬ (a : ℚ) / b < 0 := fun a b =>
    not_lt.mpr (div_nonneg (Nat.cast_nonneg a) (Nat.cast_nonneg b))
  -- a quotient that is not below zero with the sign of one is zero
  have hzero : ∀ a b : ℕ, (a : ℚ) / b ≤ 0 → -((a : ℤ) / b) = a / b := by
    intro a b h
    have hdiv : (a : ℚ) / b = 0 := le_antisymm h (not_lt.mp (hquotient a b))
    rcases div_eq_zero_iff.mp hdiv with ha | hb
    · simp [Nat.cast_eq_zero.mp ha]
    · simp [Nat.cast_eq_zero.mp hb]
  rcases Int.eq_nat_or_neg left with ⟨a, rfl | rfl⟩
  · rcases Int.eq_nat_or_neg right with ⟨b, rfl | rfl⟩
    · simp [hquotient]
    · simpa [Int.tdiv_neg, div_neg] using hzero a b
  · rcases Int.eq_nat_or_neg right with ⟨b, rfl | rfl⟩
    · simpa [Int.neg_tdiv, neg_div] using hzero a b
    · simp [Int.neg_tdiv, Int.tdiv_neg, hquotient]

end Binary64

namespace JavaScript.Number

open Binary64

/-! ## Operators -/

/-- `-x` -/
def neg : Number → Number
  | finite p => finite (-p)
  | infinity => negInfinity
  | negInfinity => infinity
  | nan => nan

/-- `x + y` -/
def add : Number → Number → Number
  | finite p, finite q => round (p + q)
  | nan, _ => nan
  | _, nan => nan
  | infinity, negInfinity => nan
  | negInfinity, infinity => nan
  | infinity, _ => infinity
  | _, infinity => infinity
  | negInfinity, _ => negInfinity
  | _, negInfinity => negInfinity

/-- `x - y` -/
def sub (x y : Number) : Number := x.add y.neg

/-- An infinity with the sign of a product. -/
def signedInfinity (x y : Number) : Number :=
  if x.isNegative = y.isNegative then infinity else negInfinity

/-- `x * y` -/
def mul (x y : Number) : Number :=
  match x, y with
  | finite p, finite q => round (p * q)
  | nan, _ => nan
  | _, nan => nan
  | x, y => if x = finite 0 ∨ y = finite 0 then nan else signedInfinity x y

/-- `x / y`, where `y` is no zero. -/
def div (x y : Number) : Number :=
  match x, y with
  | finite p, finite q => round (p / q)
  | nan, _ => nan
  | _, nan => nan
  | finite _, _ => finite 0
  | x, finite q => signedInfinity x (finite q)
  | _, _ => nan

/-- `Math.trunc(x)` -/
def trunc : Number → Number
  | finite q => finite (truncate q)
  | x => x

/-! ## Integers -/

theorem round_eq_finite_iff {x q : ℚ} : round x = .finite q ↔ roundMagnitude |x| < 2 ^ 1024 ∧
    (if x < 0 then -roundMagnitude |x| else roundMagnitude |x|) = q := by
  unfold round
  simp only
  split
  · rename_i hlarge
    constructor
    · intro h
      split at h
      · cases h
      · cases h
    · rintro ⟨hsmall, -⟩
      exact absurd hlarge (not_le.mpr hsmall)
  · rename_i hsmall
    rw [Number.finite.injEq]
    exact ⟨fun h => ⟨not_le.mp hsmall, h⟩, fun h => h.2⟩

/-- Integers of up to 53 bits are doubles. -/
theorem round_intCast {k : ℤ} (h : |k| ≤ 2 ^ 53) : round k = .finite k := by
  have hbits : k.natAbs ≤ 2 ^ 53 := by
    zify
    exact h
  -- `2 ^ 53` itself is a power of two
  have hsignificand : ∃ m e, m < 2 ^ 53 ∧ k.natAbs = m * 2 ^ e := by
    rcases Nat.lt_or_ge k.natAbs (2 ^ 53) with hlt | hge
    · exact ⟨k.natAbs, 0, hlt, by simp⟩
    · exact ⟨2 ^ 52, 1, by norm_num, le_antisymm hbits hge⟩
  have hmagnitude : roundMagnitude |(k : ℚ)| = |(k : ℚ)| := by
    have habs : |(k : ℚ)| = k.natAbs := by rw [Nat.cast_natAbs, Int.cast_abs]
    rw [habs]
    exact (roundMagnitude_natCast_iff _).mpr hsignificand
  rw [round_eq_finite_iff, hmagnitude]
  constructor
  · have hle : |(k : ℚ)| ≤ 2 ^ 53 := by exact_mod_cast h
    exact hle.trans_lt (pow_lt_pow_right₀ one_lt_two (by omega))
  · split
    · rename_i hneg
      rw [abs_of_neg hneg, neg_neg]
    · rename_i hnonneg
      exact abs_of_nonneg (not_lt.mp hnonneg)

theorem add_intCast {j k : ℤ} (h : |j + k| ≤ 2 ^ 53) :
    (finite j).add (finite k) = finite (j + k : ℤ) := by
  rw [add, ← Int.cast_add, round_intCast h]

theorem sub_intCast {j k : ℤ} (h : |j - k| ≤ 2 ^ 53) :
    (finite j).sub (finite k) = finite (j - k : ℤ) := by
  rw [sub, neg, ← Int.cast_neg, add_intCast h]
  rfl

theorem mul_intCast {j k : ℤ} (h : |j * k| ≤ 2 ^ 53) :
    (finite j).mul (finite k) = finite (j * k : ℤ) := by
  rw [mul, ← Int.cast_mul, round_intCast h]

/-- When the rounded quotient of integers is finite and truncated to that of the integers. -/
theorem truncate_round_div_iff {left right : ℤ} (h : right ≠ 0) :
    (∃ q, round ((left : ℚ) / right) = .finite q ∧ truncate q = left.tdiv right) ↔
      QuotientKept left.natAbs right.natAbs := by
  have habs : |(left : ℚ) / right| = (left.natAbs : ℚ) / right.natAbs := by
    rw [abs_div, Nat.cast_natAbs, Nat.cast_natAbs, Int.cast_abs, Int.cast_abs]
  have hnonneg : 0 ≤ roundMagnitude |(left : ℚ) / right| := roundMagnitude_nonneg (abs_nonneg _)
  -- both sides are about the absolute value, with the sign of the quotient
  rw [quotientKept_iff (Int.natAbs_pos.mpr h), ← habs, tdiv_eq]
  have hkept : (∃ q, round ((left : ℚ) / right) = .finite q ∧ truncate q =
      if (left : ℚ) / right < 0 then -((left.natAbs / right.natAbs : ℕ) : ℤ)
      else ((left.natAbs / right.natAbs : ℕ) : ℤ)) ↔
      roundMagnitude |(left : ℚ) / right| < 2 ^ 1024 ∧
        ⌊roundMagnitude |(left : ℚ) / right|⌋ = (left.natAbs / right.natAbs : ℕ) := by
    simp only [round_eq_finite_iff, and_assoc, exists_and_left, exists_eq_left']
    apply and_congr_right
    intro _
    split
    · rw [truncate_neg hnonneg, neg_inj]
    · rw [truncate_of_nonneg hnonneg]
  rw [hkept, and_comm]

end JavaScript.Number

end InterviewPrep
