import LoxLex.Proofs.Magnitudes
import Mathlib.Algebra.Order.Field.Power
import Mathlib.Algebra.Order.Field.Rat
import Mathlib.Tactic.FieldSimp
import Mathlib.Tactic.Linarith
import Mathlib.Tactic.Ring

/-! The magnitude nearest to a rational number: none comes nearer, and of two that come as near the even
one is meant. That depends on the number alone and grows with it, and a quotient is rounded to it. -/

namespace LoxLex

namespace Binary64

/-- The number that a finite magnitude stands for. Below an exponent of eleven bits there is a fraction
of 52, with a one before it unless the exponent is zero. -/
def value (magnitude : Nat) : ℚ :=
  let exponent := magnitude / Nat.pow 2 52
  let fraction := magnitude % Nat.pow 2 52
  if exponent = 0 then fraction * 2 ^ (-1074 : ℤ) else (2 ^ 52 + fraction) * 2 ^ ((exponent : ℤ) - 1075)

theorem value_eq_units (magnitude : Nat) : value magnitude = units magnitude * 2 ^ (-1074 : ℤ) := by
  rcases Nat.lt_or_ge magnitude (Nat.pow 2 52) with subnormal | normal
  · rw [value, units_of_subnormal subnormal, Nat.div_eq_of_lt subnormal, Nat.mod_eq_of_lt subnormal]
    exact if_pos rfl
  · have positive : 0 < magnitude / Nat.pow 2 52 := Nat.div_pos normal (by decide)
    have exponent : ((magnitude / Nat.pow 2 52 : ℕ) : ℤ) - 1075 = ((magnitude / Nat.pow 2 52 - 1 : ℕ) : ℤ) + -1074 := by
      omega
    rw [value, units, if_neg (Nat.ne_of_gt positive), if_neg (Nat.not_lt_of_le normal), exponent,
      zpow_add₀ (by norm_num), zpow_natCast]
    generalize (2 : ℚ) ^ (-1074 : ℤ) = unit
    push_cast [Nat.pow_eq]
    ring

theorem value_lt_value {magnitude other : Nat} (less : magnitude < other) : value magnitude < value other := by
  rw [value_eq_units, value_eq_units]
  have units : (units magnitude : ℚ) < units other := Nat.cast_lt.mpr (units_lt_units less)
  exact mul_lt_mul_of_pos_right units (by positivity)

theorem value_le_value {magnitude other : Nat} (less : magnitude ≤ other) : value magnitude ≤ value other := by
  rcases Nat.lt_or_eq_of_le less with less | rfl
  · exact le_of_lt (value_lt_value less)
  · exact le_refl _

theorem value_le_value_iff {magnitude other : Nat} : value magnitude ≤ value other ↔ magnitude ≤ other := by
  refine ⟨?_, value_le_value⟩
  intro less
  apply Nat.le_of_not_lt
  intro greater
  exact absurd less (not_le_of_gt (value_lt_value greater))

/-- Two magnitudes are further apart than the `10 ^ 16`th part of either. -/
private theorem value_gap {magnitude other : Nat} (differ : other ≠ magnitude) :
    value magnitude < 10 ^ 16 * |value other - value magnitude| := by
  have positive : (0 : ℚ) < 2 ^ (-1074 : ℤ) := by positivity
  have scaled : |value other - value magnitude| =
      |(units other : ℚ) - units magnitude| * 2 ^ (-1074 : ℤ) := by
    rw [value_eq_units, value_eq_units, ← sub_mul, abs_mul, abs_of_pos positive]
  rw [scaled, value_eq_units, ← mul_assoc]
  apply mul_lt_mul_of_pos_right _ positive
  rcases Nat.lt_or_gt_of_ne differ with below | above
  · have gap : ((units magnitude + Nat.pow 10 16 * units other : ℕ) : ℚ) < (Nat.pow 10 16 * units magnitude : ℕ) :=
      Nat.cast_lt.mpr (units_gap_below below)
    have less : (units other : ℚ) < units magnitude := Nat.cast_lt.mpr (units_lt_units below)
    push_cast [Nat.pow_eq] at gap
    rw [abs_of_neg (sub_neg.mpr less)]
    linarith
  · have gap : ((units magnitude + Nat.pow 10 16 * units magnitude : ℕ) : ℚ) < (Nat.pow 10 16 * units other : ℕ) :=
      Nat.cast_lt.mpr (units_gap_above above)
    have less : (units magnitude : ℚ) < units other := Nat.cast_lt.mpr (units_lt_units above)
    push_cast [Nat.pow_eq] at gap
    rw [abs_of_pos (sub_pos.mpr less)]
    linarith

/-- No magnitude comes nearer to a size, and where another comes as near, this one is even. -/
structure IsClosest (magnitude : Nat) (size : ℚ) : Prop where
  closest : ∀ other, |size - value magnitude| ≤ |size - value other|
  even : ∀ other, other ≠ magnitude → |size - value magnitude| = |size - value other| → magnitude % 2 = 0

/-- Of the two magnitudes around a size, the middle between them decides. -/
theorem isClosest_of_between {size : ℚ} {below : Nat} (lower : value below ≤ size) (upper : size < value (below + 1)) :
    IsClosest (if 2 * size < value below + value (below + 1) ∨
      2 * size = value below + value (below + 1) ∧ below % 2 = 0 then below else below + 1) size := by
  have sides (other : Nat) :
      (value other ≤ value below ∧ |size - value other| = size - value other ∧ (other ≠ below → value other < value below)) ∨
      value (below + 1) ≤ value other ∧ |size - value other| = value other - size ∧
        (other ≠ below + 1 → value (below + 1) < value other) := by
    rcases Nat.lt_or_ge below other with above | under
    · have least := value_le_value above
      refine .inr ⟨least, ?_, ?_⟩
      · rw [abs_of_neg (by linarith), neg_sub]
      · intro differ
        exact value_lt_value (Nat.lt_of_le_of_ne above (Ne.symm differ))
    · have most := value_le_value under
      refine .inl ⟨most, abs_of_nonneg (by linarith), ?_⟩
      intro differ
      exact value_lt_value (Nat.lt_of_le_of_ne under differ)
  split
  next near =>
    have own : |size - value below| = size - value below := abs_of_nonneg (by linarith)
    have half : 2 * size ≤ value below + value (below + 1) := by
      rcases near with less | ⟨equal, _⟩ <;> linarith
    constructor
    · intro other
      rcases sides other with ⟨most, distance, _⟩ | ⟨least, distance, _⟩ <;> rw [own, distance] <;> linarith
    · intro other differ equal
      rw [own] at equal
      rcases sides other with ⟨most, distance, strict⟩ | ⟨least, distance, _⟩
      · have less := strict differ
        rw [distance] at equal
        linarith
      · rw [distance] at equal
        rcases near with less | ⟨_, even⟩
        · linarith
        · exact even
  next far =>
    obtain ⟨half, odd⟩ := not_or.mp far
    have own : |size - value (below + 1)| = value (below + 1) - size := by
      rw [abs_of_neg (by linarith), neg_sub]
    have half := le_of_not_gt half
    constructor
    · intro other
      rcases sides other with ⟨most, distance, _⟩ | ⟨least, distance, _⟩ <;> rw [own, distance] <;> linarith
    · intro other differ equal
      rw [own] at equal
      rcases sides other with ⟨most, distance, _⟩ | ⟨_, distance, strict⟩
      · rw [distance] at equal
        have middle : 2 * size = value below + value (below + 1) := by linarith
        have parity := not_and.mp odd middle
        omega
      · have less := strict differ
        rw [distance] at equal
        linarith

theorem isClosest_value (magnitude : Nat) : IsClosest magnitude (value magnitude) := by
  constructor
  · intro other
    rw [sub_self, abs_zero]
    exact abs_nonneg _
  · intro other differ equal
    rw [sub_self, abs_zero] at equal
    have same := sub_eq_zero.mp (abs_eq_zero.mp equal.symm)
    rcases Nat.lt_or_gt_of_ne differ with less | greater
    · exact absurd same.symm (ne_of_lt (value_lt_value less))
    · exact absurd same (ne_of_lt (value_lt_value greater))

namespace IsClosest

variable {magnitude other : Nat} {size further : ℚ}

/-- The greater size has the greater magnitude. -/
theorem mono (first : IsClosest magnitude size) (second : IsClosest other further) (less : size ≤ further) :
    magnitude ≤ other := by
  apply Nat.le_of_not_lt
  intro crossed
  have apart := value_lt_value crossed
  -- Crossed over, both sizes are in the middle between the two, and there is no third.
  have near := first.closest other
  have far := second.closest magnitude
  have middle : 2 * size = value other + value magnitude ∧ further = size := by
    have lower : value other + value magnitude ≤ 2 * size := by
      by_contra under
      rw [abs_of_neg (by linarith), neg_sub] at near
      rcases abs_cases (size - value other) with ⟨distance, _⟩ | ⟨distance, _⟩ <;>
        rw [distance] at near <;> linarith
    have upper : 2 * further ≤ value other + value magnitude := by
      by_contra above
      rw [abs_of_pos (by linarith)] at far
      rcases abs_cases (further - value magnitude) with ⟨distance, _⟩ | ⟨distance, _⟩ <;>
        rw [distance] at far <;> linarith
    constructor <;> linarith
  obtain ⟨middle, rfl⟩ := middle
  have own : |further - value magnitude| = value magnitude - further := by
    rw [abs_of_neg (by linarith), neg_sub]
  have other_own : |further - value other| = further - value other := abs_of_pos (by linarith)
  have even := first.even other (Nat.ne_of_lt crossed) (by rw [own, other_own]; linarith)
  have otherEven := second.even magnitude (Nat.ne_of_gt crossed) (by rw [own, other_own]; linarith)
  have between : other + 1 < magnitude := by omega
  have above := value_lt_value (Nat.lt_succ_self other)
  have below := value_lt_value between
  have third := first.closest (other + 1)
  rw [own] at third
  rcases abs_cases (further - value (other + 1)) with ⟨distance, _⟩ | ⟨distance, _⟩ <;>
    rw [distance] at third <;> linarith

theorem unique (first : IsClosest magnitude size) (second : IsClosest other size) : magnitude = other :=
  Nat.le_antisymm (first.mono second (le_refl size)) (second.mono first (le_refl size))

/-- Sixteen digits more than those before them are enough to know a magnitude. -/
theorem eq_of_near (closest : IsClosest magnitude size)
    (near : 2 * 10 ^ 16 * |size - value other| ≤ value other) : magnitude = other := by
  by_contra differ
  have gap := value_gap differ
  have nearer := closest.closest other
  have triangle : |value magnitude - value other| ≤ |size - value magnitude| + |size - value other| := by
    rw [abs_sub_comm size (value magnitude)]
    exact abs_sub_le _ _ _
  linarith

end IsClosest

theorem two_pow_mul_unit {bits : Nat} (least : bits = 1074) :
    ((Nat.pow 2 bits : ℕ) : ℚ) * 2 ^ (-1074 : ℤ) = 1 := by
  have exponent : (-1074 : ℤ) = -bits := by omega
  rw [exponent, Nat.pow_eq, Nat.cast_pow, Nat.cast_ofNat, zpow_neg, zpow_natCast]
  exact mul_inv_cancel₀ (pow_ne_zero _ two_ne_zero)

/-- On one scale, whole numbers compare as the sizes that they are. -/
theorem natCast_mul_lt_iff {unit : ℚ} (scale : 0 < unit) (first second : Nat) :
    (first : ℚ) * unit < second * unit ↔ first < second := by
  rw [mul_lt_mul_iff_left₀ scale, Nat.cast_lt]

theorem natCast_mul_inj {unit : ℚ} (scale : 0 < unit) (first second : Nat) :
    (first : ℚ) * unit = second * unit ↔ first = second := by
  rw [mul_left_inj' (ne_of_gt scale), Nat.cast_inj]

/-- The nearest magnitude to a quotient is what it is said to be, with all above the finite ones taken
for infinite. -/
theorem exists_isClosest_nearest (numerator : Nat) {denominator : Nat} (positive : 0 < denominator) :
    ∃ magnitude, IsClosest magnitude ((numerator : ℚ) / denominator) ∧
      nearest numerator denominator = min magnitude infinity := by
  obtain ⟨bits, least⟩ : ∃ bits, bits = 1074 := ⟨1074, rfl⟩
  obtain ⟨scaled, same⟩ : ∃ scaled, numerator * Nat.pow 2 bits = scaled := ⟨_, rfl⟩
  obtain ⟨below, lower, upper, rounded⟩ := exists_nearest_eq least positive same
  dsimp only at rounded
  have scale : (0 : ℚ) < 2 ^ (-1074 : ℤ) / denominator := div_pos (by positivity) (Nat.cast_pos.mpr positive)
  have size : (numerator : ℚ) / denominator = (scaled : ℚ) * (2 ^ (-1074 : ℤ) / denominator) := by
    rw [← same, Nat.cast_mul, mul_assoc, ← mul_div_assoc, two_pow_mul_unit least, mul_one_div]
  have worth (magnitude : Nat) :
      value magnitude = ((units magnitude * denominator : ℕ) : ℚ) * (2 ^ (-1074 : ℤ) / denominator) := by
    rw [value_eq_units, Nat.cast_mul]
    field_simp
  generalize (2 : ℚ) ^ (-1074 : ℤ) / denominator = unit at *
  have less := natCast_mul_lt_iff scale
  have equal := natCast_mul_inj scale
  have doubled : 2 * ((numerator : ℚ) / denominator) = ((2 * scaled : ℕ) : ℚ) * unit := by
    rw [size, Nat.cast_mul, Nat.cast_ofNat, mul_assoc]
  have middle : value below + value (below + 1) =
      (((units below + units (below + 1)) * denominator : ℕ) : ℚ) * unit := by
    rw [worth, worth, ← add_mul, Nat.add_mul, Nat.cast_add]
  have lower : value below ≤ (numerator : ℚ) / denominator := by
    rw [worth, size, ← not_lt, less]
    exact Nat.not_lt_of_le lower
  have upper : (numerator : ℚ) / denominator < value (below + 1) := by
    rw [worth, size, less]
    exact upper
  refine ⟨_, isClosest_of_between lower upper, ?_⟩
  simp only [doubled, middle, less, equal]
  exact rounded

end Binary64

end LoxLex
