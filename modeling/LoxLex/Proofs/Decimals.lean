import LoxLex.Proofs.CorrectRounding

/-! Decimals as rational numbers: how they compare with each other and with what they are rounded to, and
how many digits they have. -/

namespace LoxLex

/-- A number of more than one digit is at least the power of ten below its digits. -/
theorem exists_length_toDigits (number : Nat) :
    ∃ count, (Nat.toDigits 10 number).length = count + 1 ∧ number < Nat.pow 10 (count + 1) ∧
      (0 < count → Nat.pow 10 count ≤ number) := by
  have some : 0 < (Nat.toDigits 10 number).length := Nat.length_toDigits_pos
  obtain ⟨count, length⟩ := Nat.exists_eq_succ_of_ne_zero (Nat.ne_of_gt some)
  refine ⟨count, length, ?_, ?_⟩
  · exact (Nat.length_toDigits_le_iff (by decide) (Nat.succ_pos count)).mp (Nat.le_of_eq length)
  · intro more
    apply Nat.le_of_not_lt
    intro small
    have shorter := (Nat.length_toDigits_le_iff (by decide) more).mpr small
    omega

namespace Decimal

/-- How many digits the coefficient has. -/
def length (decimal : Decimal) : Nat := (Nat.toDigits 10 decimal.coefficient).length

theorem length_le_iff {decimal : Decimal} {count : Nat} (positive : 0 < count) :
    decimal.length ≤ count ↔ decimal.coefficient < Nat.pow 10 count :=
  Nat.length_toDigits_le_iff (by decide) positive

theorem value_shift (coefficient zeros : Nat) (exponent : ℤ) :
    value ⟨coefficient * Nat.pow 10 zeros, exponent - zeros⟩ = value ⟨coefficient, exponent⟩ := by
  have power : (10 : ℚ) ^ zeros ≠ 0 := pow_ne_zero _ (by norm_num)
  rw [value, value, zpow_sub₀ (by norm_num), zpow_natCast, Nat.pow_eq]
  push_cast
  field_simp

theorem value_trimZeros (coefficient : Nat) (exponent : ℤ) :
    (trimZeros coefficient exponent).value = value ⟨coefficient, exponent⟩ := by
  fun_induction trimZeros coefficient exponent with
  | case1 coefficient exponent zero ih =>
    have whole : coefficient / 10 * Nat.pow 10 1 = coefficient := by
      rw [show Nat.pow 10 1 = 10 from rfl]
      omega
    have shifted := value_shift (coefficient / 10) 1 (exponent + 1)
    rw [whole, Nat.cast_one, add_sub_cancel_right] at shifted
    rw [ih, shifted]
  | case2 => rfl

theorem coefficient_trimZeros_le (coefficient : Nat) (exponent : ℤ) :
    (trimZeros coefficient exponent).coefficient ≤ coefficient := by
  fun_induction trimZeros coefficient exponent with
  | case1 coefficient exponent zero ih => omega
  | case2 => exact Nat.le_refl _

theorem coefficient_trimZeros_mod {coefficient : Nat} (positive : 0 < coefficient) (exponent : ℤ) :
    (trimZeros coefficient exponent).coefficient % 10 ≠ 0 := by
  fun_induction trimZeros coefficient exponent with
  | case1 coefficient exponent zero ih => exact ih (by omega)
  | case2 coefficient exponent last =>
    intro zero
    exact last ⟨positive, zero⟩

/-- What reads back on one grid does so on every finer one. -/
theorem exists_finer (coefficient : Nat) {exponent finer : ℤ} (less : finer ≤ exponent) :
    ∃ more, magnitude ⟨more, finer⟩ = magnitude ⟨coefficient, exponent⟩ := by
  have shifted := magnitude_shift ⟨coefficient, exponent⟩ (exponent - finer).toNat
  have same : exponent - ((exponent - finer).toNat : ℤ) = finer := by omega
  rw [same] at shifted
  exact ⟨_, shifted⟩

theorem value_le_value {coefficient other : Nat} (exponent : ℤ) (less : coefficient ≤ other) :
    value ⟨coefficient, exponent⟩ ≤ value ⟨other, exponent⟩ := by
  have cast : (coefficient : ℚ) ≤ other := Nat.cast_le.mpr less
  exact mul_le_mul_of_nonneg_right cast (by positivity)

theorem value_succ (coefficient : Nat) (exponent : ℤ) :
    value ⟨coefficient + 1, exponent⟩ = value ⟨coefficient, exponent⟩ + 10 ^ exponent := by
  rw [value, value, Nat.cast_add, Nat.cast_one, add_one_mul]

theorem coefficient_lt_of_value_lt {coefficient other : Nat} {exponent : ℤ}
    (less : value ⟨coefficient, exponent⟩ < value ⟨other, exponent⟩) : coefficient < other := by
  apply Nat.lt_of_not_le
  intro above
  exact absurd less (not_lt_of_ge (value_le_value exponent above))

/-- With less than some count of digits, a decimal stays below that power of ten. -/
theorem value_lt_pow {decimal : Decimal} {count : Nat} (small : decimal.coefficient < Nat.pow 10 count) :
    decimal.value < 10 ^ (count + decimal.exponent) := by
  have cast : (decimal.coefficient : ℚ) < (Nat.pow 10 count : ℕ) := Nat.cast_lt.mpr small
  rw [Nat.pow_eq, Nat.cast_pow, Nat.cast_ofNat] at cast
  rw [value, zpow_add₀ (by norm_num), zpow_natCast]
  exact mul_lt_mul_of_pos_right cast (by positivity)

theorem coefficient_lt_of_value_lt_pow {decimal : Decimal} {count : Nat}
    (small : decimal.value < 10 ^ (count + decimal.exponent)) : decimal.coefficient < Nat.pow 10 count := by
  rw [value, zpow_add₀ (by norm_num), zpow_natCast] at small
  have cast := lt_of_mul_lt_mul_right small (by positivity)
  rw [← Nat.cast_lt (α := ℚ), Nat.pow_eq]
  push_cast
  exact cast

theorem value_one (exponent : ℤ) : value ⟨1, exponent⟩ = 10 ^ exponent := by
  rw [value, Nat.cast_one, one_mul]

/-- The exponent of the leading digit. -/
def leading (decimal : Decimal) : ℤ := decimal.exponent + decimal.length - 1

theorem pow_le_value_iff {decimal : Decimal} (positive : 0 < decimal.coefficient) (power : ℤ) :
    10 ^ power ≤ decimal.value ↔ power ≤ decimal.leading := by
  have base : (1 : ℚ) < 10 := by norm_num
  obtain ⟨count, length, upper, lower⟩ := exists_length_toDigits decimal.coefficient
  have leading : decimal.leading = count + decimal.exponent := by
    rw [Decimal.leading, Decimal.length, length]
    omega
  rw [leading]
  constructor
  · intro less
    have between := (zpow_lt_zpow_iff_right₀ base).mp (lt_of_le_of_lt less (value_lt_pow upper))
    omega
  · intro less
    have lower : Nat.pow 10 count ≤ decimal.coefficient := by
      rcases Nat.eq_zero_or_pos count with rfl | more
      · exact positive
      · exact lower more
    have cast : ((Nat.pow 10 count : ℕ) : ℚ) ≤ decimal.coefficient := Nat.cast_le.mpr lower
    rw [Nat.pow_eq, Nat.cast_pow, Nat.cast_ofNat] at cast
    apply le_trans (zpow_le_zpow_right₀ (le_of_lt base) less)
    rw [zpow_add₀ (by norm_num), zpow_natCast, value]
    exact mul_le_mul_of_nonneg_right cast (by positivity)

theorem magnitude_le_of_value_le {decimal : Decimal} {magnitude : Nat}
    (less : decimal.value ≤ Binary64.value magnitude) : decimal.magnitude ≤ magnitude := by
  obtain ⟨own, closest, rounded⟩ := decimal.exists_isClosest
  have bound := closest.mono (Binary64.isClosest_value magnitude) less
  rw [rounded]
  exact Nat.le_trans (Nat.min_le_left ..) bound

theorem le_magnitude_of_le_value {decimal : Decimal} {magnitude : Nat} (finite : magnitude < Binary64.infinity)
    (less : Binary64.value magnitude ≤ decimal.value) : magnitude ≤ decimal.magnitude := by
  obtain ⟨own, closest, rounded⟩ := decimal.exists_isClosest
  have bound := (Binary64.isClosest_value magnitude).mono closest less
  rw [rounded]
  exact Nat.le_min.mpr ⟨bound, Nat.le_of_lt finite⟩

end Decimal

end LoxLex
