import LoxLex.Proofs.Nearest
import LoxLex.Proofs.Numerals

/-! Rounding as it is understood of binary64 numbers: to the nearest finite one, of two as near to the
one whose last bit is zero, and to infinity from half a unit in the last place beyond the greatest
finite number on. Numerals are rounded in this way, and in no other. -/

namespace LoxLex

namespace Binary64

theorem magnitude_ofMagnitude {magnitude : Nat} (small : magnitude ≤ infinity) :
    (ofMagnitude magnitude).magnitude = magnitude := by
  rw [show infinity = 9218868437227405312 from rfl] at small
  rw [ofMagnitude, Binary64.magnitude, UInt64.toNat_ofNat', show Nat.pow 2 63 = 9223372036854775808 from rfl]
  omega

theorem isNegative_ofMagnitude {magnitude : Nat} (small : magnitude ≤ infinity) :
    (ofMagnitude magnitude).isNegative = false := by
  rw [show infinity = 9218868437227405312 from rfl] at small
  rw [ofMagnitude, isNegative, decide_eq_false_iff_not, UInt64.toNat_ofNat',
    show Nat.pow 2 63 = 9223372036854775808 from rfl]
  omega

/-- The size of a finite number: its value without its sign. -/
def size (number : Binary64) : ℚ := value number.magnitude

/-- A number is what rounding makes of a size with a sign. -/
structure Rounds (number : Binary64) (isNegative : Bool) (size : ℚ) : Prop where
  sign : number.isNegative = isNegative
  isNumber : number.isNaN = false
  infinite : number.isInfinite ↔ 2 ^ 1024 - 2 ^ 970 ≤ size
  closest : number.isFinite → ∀ other : Binary64, other.isFinite → |size - number.size| ≤ |size - other.size|
  even : number.isFinite → ∀ other : Binary64, other.isFinite → other.size ≠ number.size →
    |size - number.size| = |size - other.size| → number.magnitude % 2 = 0

private theorem value_infinity : value (infinity - 1) + value infinity = 2 * (2 ^ 1024 - 2 ^ 970) := by
  have power (more : Nat) : (2 : ℚ) ^ ((970 : ℕ) + more : ℤ) = 2 ^ 970 * 2 ^ more := by
    rw [← Nat.cast_add, zpow_natCast, pow_add]
  have threshold : (2 : ℚ) ^ 1024 = 2 ^ 970 * 2 ^ 54 := pow_add 2 970 54
  have first : value infinity = 2 ^ 52 * 2 ^ ((970 : ℕ) + (2 : ℕ) : ℤ) := by
    norm_num [value, infinity]
  have last : value (infinity - 1) = (2 ^ 53 - 1) * 2 ^ ((970 : ℕ) + (1 : ℕ) : ℤ) := by
    norm_num [value, infinity]
  rw [first, last, power, power, threshold]
  generalize (2 : ℚ) ^ 970 = unit
  ring

/-- What lies half a spacing beyond the greatest finite magnitude is no longer closest to it. -/
private theorem IsClosest.infinity_le_iff {magnitude : Nat} {size : ℚ} (closest : IsClosest magnitude size) :
    infinity ≤ magnitude ↔ 2 ^ 1024 - 2 ^ 970 ≤ size := by
  have middle := value_infinity
  have less : value (infinity - 1) < value infinity := value_lt_value (by decide)
  generalize (2 : ℚ) ^ 1024 - 2 ^ 970 = limit at *
  constructor
  · intro infinite
    by_contra below
    have worth := value_le_value infinite
    have near := closest.closest (infinity - 1)
    rw [abs_of_neg (by linarith), neg_sub] at near
    rcases abs_cases (size - value (infinity - 1)) with ⟨distance, _⟩ | ⟨distance, _⟩ <;>
      rw [distance] at near <;> linarith
  · intro above
    -- The middle itself goes to the even one of the two, which is the infinite one.
    have last : infinity - 1 + 1 = infinity := rfl
    have odd : ¬ (infinity - 1) % 2 = 0 := by decide
    have lower : value (infinity - 1) ≤ limit := by linarith
    have upper : limit < value (infinity - 1 + 1) := by
      rw [last]
      linarith
    have between := isClosest_of_between lower upper
    rw [last, middle, if_neg (by simp [odd])] at between
    exact between.mono closest above

variable {number : Binary64} {isNegative : Bool} {magnitude : Nat} {size : ℚ}

private theorem isFinite_iff_of_min (rounded : number.magnitude = min magnitude infinity) :
    number.isFinite ↔ magnitude < infinity := by
  rw [isFinite, decide_eq_true_iff, rounded]
  exact min_lt_iff.trans (or_iff_left (lt_irrefl infinity))

private theorem rounds_of_isClosest (closest : IsClosest magnitude size) (sign : number.isNegative = isNegative)
    (rounded : number.magnitude = min magnitude infinity) : number.Rounds isNegative size := by
  have finite (holds : number.isFinite) : number.magnitude = magnitude :=
    rounded.trans (Nat.min_eq_left (Nat.le_of_lt ((isFinite_iff_of_min rounded).mp holds)))
  refine ⟨sign, ?isNumber, ?infinite, ?closest, ?even⟩
  case isNumber =>
    rw [isNaN, decide_eq_false_iff_not, rounded]
    exact Nat.not_lt_of_le (Nat.min_le_right ..)
  case infinite =>
    rw [isInfinite, decide_eq_true_iff, rounded, ← closest.infinity_le_iff]
    exact min_eq_right_iff
  case closest =>
    intro holds other _
    rw [Binary64.size, finite holds]
    exact closest.closest other.magnitude
  case even =>
    intro holds other _ differ equal
    rw [Binary64.size, Binary64.size, finite holds] at differ equal
    rw [finite holds]
    apply closest.even other.magnitude _ equal
    intro same
    exact differ (congrArg value same)

private theorem Rounds.magnitude_eq (rounds : number.Rounds isNegative size) (closest : IsClosest magnitude size) :
    number.magnitude = min magnitude infinity := by
  have limit : number.magnitude ≤ infinity := Nat.le_of_not_lt (of_decide_eq_false rounds.isNumber)
  rcases Nat.lt_or_ge magnitude infinity with small | large
  · rw [Nat.min_eq_left (Nat.le_of_lt small)]
    have finite : number.isFinite := by
      apply decide_eq_true
      apply Nat.lt_of_le_of_ne limit
      intro infinite
      have beyond := rounds.infinite.mp (decide_eq_true infinite)
      exact Nat.not_le_of_lt small (closest.infinity_le_iff.mpr beyond)
    have own : (ofMagnitude magnitude).magnitude = magnitude := magnitude_ofMagnitude (Nat.le_of_lt small)
    have ownFinite : (ofMagnitude magnitude).isFinite := by
      rw [isFinite, own]
      exact decide_eq_true small
    have ownSize : (ofMagnitude magnitude).size = value magnitude := congrArg value own
    have near := rounds.closest finite _ ownFinite
    rw [ownSize] at near
    have equal := le_antisymm near (closest.closest number.magnitude)
    by_contra differ
    have even := rounds.even finite _ ownFinite
    rw [ownSize] at even
    have apart : value magnitude ≠ number.size := by
      rcases Nat.lt_or_gt_of_ne differ with less | greater
      · exact ne_of_gt (value_lt_value less)
      · exact ne_of_lt (value_lt_value greater)
    have also : IsClosest number.magnitude size := by
      refine ⟨?_, fun _ _ _ => even apart equal⟩
      intro other
      exact le_of_eq_of_le equal (closest.closest other)
    exact differ (also.unique closest)
  · have infinite := rounds.infinite.mpr (closest.infinity_le_iff.mp large)
    rw [Nat.min_eq_right large]
    exact of_decide_eq_true infinite

end Binary64

namespace Decimal

/-- The rational number that a decimal stands for. -/
def value (decimal : Decimal) : ℚ := decimal.coefficient * 10 ^ decimal.exponent

theorem ten_zpow (exponent : ℤ) : (10 : ℚ) ^ exponent = 10 ^ exponent.toNat / 10 ^ (-exponent).toNat := by
  rw [← zpow_natCast, ← zpow_natCast, ← zpow_sub₀ (by norm_num)]
  congr 1
  omega

theorem value_eq_quotient (decimal : Decimal) : decimal.value = (decimal.numerator : ℚ) / decimal.denominator := by
  rw [value, ten_zpow, numerator, denominator, Nat.cast_mul, mul_div_assoc, Nat.pow_eq, Nat.pow_eq]
  push_cast
  rfl

theorem value_nonneg (decimal : Decimal) : 0 ≤ decimal.value := by
  unfold value
  positivity

theorem exists_isClosest (decimal : Decimal) :
    ∃ magnitude, Binary64.IsClosest magnitude decimal.value ∧ decimal.magnitude = min magnitude Binary64.infinity := by
  rw [value_eq_quotient]
  exact Binary64.exists_isClosest_nearest decimal.numerator (Nat.pow_pos (by decide))

theorem magnitude_le_infinity (decimal : Decimal) : decimal.magnitude ≤ Binary64.infinity := by
  obtain ⟨magnitude, _, rounded⟩ := decimal.exists_isClosest
  rw [rounded]
  exact Nat.min_le_right ..

theorem magnitude_mono {first second : Decimal} (less : first.value ≤ second.value) :
    first.magnitude ≤ second.magnitude := by
  obtain ⟨_, near, rounded⟩ := first.exists_isClosest
  obtain ⟨_, far, beyond⟩ := second.exists_isClosest
  rw [rounded, beyond]
  exact min_le_min_right _ (near.mono far less)

theorem rounds_toBinary64 (decimal : Decimal) : decimal.toBinary64.Rounds false decimal.value := by
  obtain ⟨magnitude, closest, rounded⟩ := decimal.exists_isClosest
  apply Binary64.rounds_of_isClosest closest
  · exact Binary64.isNegative_ofMagnitude decimal.magnitude_le_infinity
  · rw [toBinary64, Binary64.magnitude_ofMagnitude decimal.magnitude_le_infinity, rounded]

end Decimal

namespace Numeral

theorem magnitude_toBinary64 (numeral : Numeral) : numeral.toBinary64.magnitude = numeral.size.magnitude := by
  have small := numeral.size.magnitude_le_infinity
  rw [show Binary64.infinity = 9218868437227405312 from rfl] at small
  rw [toBinary64, Binary64.magnitude, UInt64.toNat_ofNat', show Nat.pow 2 63 = 9223372036854775808 from rfl]
  split <;> omega

theorem isNegative_toBinary64 (numeral : Numeral) : numeral.toBinary64.isNegative = numeral.isNegative := by
  have small := numeral.size.magnitude_le_infinity
  rw [show Binary64.infinity = 9218868437227405312 from rfl] at small
  rw [toBinary64, Binary64.isNegative, UInt64.toNat_ofNat', show Nat.pow 2 63 = 9223372036854775808 from rfl]
  cases numeral.isNegative with
  | true =>
    rw [if_pos rfl, decide_eq_true_iff]
    omega
  | false =>
    rw [if_neg Bool.false_ne_true, decide_eq_false_iff_not]
    omega

/-- A numeral is for the number that it rounds to. -/
theorem rounds_iff {numeral : Numeral} {number : Binary64} :
    number.Rounds numeral.isNegative numeral.size.value ↔ numeral.toBinary64 = number := by
  obtain ⟨magnitude, closest, rounded⟩ := numeral.size.exists_isClosest
  constructor
  · intro rounds
    rw [← toBinary64_of_magnitude (rounded.trans (rounds.magnitude_eq closest).symm), rounds.sign]
  · rintro rfl
    exact Binary64.rounds_of_isClosest closest numeral.isNegative_toBinary64
      (numeral.magnitude_toBinary64.trans rounded)

end Numeral

/-- With its own sign, a number is what decimals of its magnitude are rounded to. -/
theorem Binary64.rounds_value_iff {number : Binary64} {decimal : Decimal} :
    number.Rounds number.isNegative decimal.value ↔ decimal.magnitude = number.magnitude := by
  refine (@Numeral.rounds_iff ⟨number.isNegative, decimal⟩ number).trans ⟨?_, Numeral.toBinary64_of_magnitude⟩
  intro same
  rw [← same, Numeral.magnitude_toBinary64]

end LoxLex
