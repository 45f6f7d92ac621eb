import LoxLex.Number.Shortest

/-! Rounding to the nearest magnitude. It depends on the value alone, not on how a quotient is written,
and each finite magnitude is the nearest to its own value; so the decimal chosen for it reads back. -/

namespace LoxLex

namespace Binary64

private theorem roundDiv_mul_right (numerator denominator : Nat) {factor : Nat} (positive : 0 < factor) :
    roundDiv (numerator * factor) (denominator * factor) = roundDiv numerator denominator := by
  have less : 2 * (numerator % denominator * factor) < denominator * factor ↔
      2 * (numerator % denominator) < denominator := by
    rw [← Nat.mul_assoc, Nat.mul_lt_mul_right positive]
  have equal : 2 * (numerator % denominator * factor) = denominator * factor ↔
      2 * (numerator % denominator) = denominator := by
    rw [← Nat.mul_assoc, Nat.mul_left_inj (Nat.ne_of_gt positive)]
  simp only [roundDiv, Nat.mul_div_mul_right _ _ positive, Nat.mul_mod_mul_right, less, equal]

private theorem roundDiv_exact (quotient : Nat) {denominator : Nat} (positive : 0 < denominator) :
    roundDiv (quotient * denominator) denominator = quotient := by
  simp [roundDiv, Nat.mul_div_cancel _ positive, positive]

private theorem nearest_mul_right (numerator denominator : Nat) {factor : Nat} (positive : 0 < factor) :
    nearest (numerator * factor) (denominator * factor) = nearest numerator denominator := by
  simp only [nearest]
  rw [Nat.mul_right_comm numerator, Nat.mul_div_mul_right _ _ positive, Nat.mul_right_comm denominator,
    roundDiv_mul_right _ _ positive]

private theorem nearest_congr {numerator denominator otherNumerator otherDenominator : Nat}
    (positive : 0 < denominator) (otherPositive : 0 < otherDenominator)
    (same : numerator * otherDenominator = otherNumerator * denominator) :
    nearest numerator denominator = nearest otherNumerator otherDenominator := by
  rw [← nearest_mul_right numerator denominator otherPositive, same,
    ← nearest_mul_right otherNumerator otherDenominator positive, Nat.mul_comm denominator]

theorem units_of_subnormal {magnitude : Nat} (subnormal : magnitude < Nat.pow 2 52) :
    units magnitude = magnitude := if_pos subnormal

/-- A normal magnitude is an exponent and 53 bits. -/
theorem exists_units_of_normal {magnitude : Nat} (normal : Nat.pow 2 52 ≤ magnitude) :
    ∃ exponent significand, units magnitude = significand * Nat.pow 2 exponent ∧
      Nat.pow 2 52 ≤ significand ∧ significand < Nat.pow 2 53 ∧
      magnitude = exponent * Nat.pow 2 52 + significand := by
  refine ⟨magnitude / Nat.pow 2 52 - 1, Nat.pow 2 52 + magnitude % Nat.pow 2 52,
    if_neg (Nat.not_lt_of_le normal), ?_⟩
  rw [show Nat.pow 2 52 = 4503599627370496 from rfl] at normal ⊢
  rw [show Nat.pow 2 53 = 9007199254740992 from rfl]
  omega

private theorem log2_significand {significand : Nat} (exponent : Nat) (least : Nat.pow 2 52 ≤ significand)
    (limit : significand < Nat.pow 2 53) : (significand * Nat.pow 2 exponent).log2 = 52 + exponent := by
  have power : 0 < Nat.pow 2 exponent := Nat.two_pow_pos exponent
  have positive : 0 < significand * Nat.pow 2 exponent :=
    Nat.mul_pos (Nat.lt_of_lt_of_le (by decide) least) power
  rw [Nat.log2_eq_iff (Nat.ne_of_gt positive), Nat.add_right_comm, Nat.pow_add, Nat.pow_add]
  exact ⟨Nat.mul_le_mul_right _ least, (Nat.mul_lt_mul_right power).mpr limit⟩

/-- Of a whole number of units, the bits from the 53rd on are rounded away. The exponent of the unit
has a name here, so that nothing evaluates the power. -/
private theorem nearest_whole {bits : Nat} (least : bits = 1074) (units : Nat) :
    nearest units (Nat.pow 2 bits) =
      min ((units.log2 - 52) * Nat.pow 2 52 + roundDiv units (Nat.pow 2 (units.log2 - 52))) infinity := by
  have positive : 0 < Nat.pow 2 bits := Nat.two_pow_pos bits
  simp only [nearest]
  rw [← least, Nat.mul_div_cancel _ positive, Nat.mul_comm (Nat.pow 2 bits), roundDiv_mul_right _ _ positive]

private theorem nearest_units {bits magnitude : Nat} (least : bits = 1074) (finite : magnitude < infinity) :
    nearest (units magnitude) (Nat.pow 2 bits) = magnitude := by
  rw [nearest_whole least]
  rcases Nat.lt_or_ge magnitude (Nat.pow 2 52) with subnormal | normal
  · have short : magnitude.log2 - 52 = 0 := by
      rcases Nat.eq_zero_or_pos magnitude with rfl | positive
      · rfl
      · have bits := (Nat.log2_lt (Nat.ne_of_gt positive)).mpr subnormal
        omega
    have exact_value : roundDiv magnitude 1 = magnitude := by
      simpa using roundDiv_exact magnitude Nat.one_pos
    rw [units_of_subnormal subnormal, short, show Nat.pow 2 0 = 1 from rfl, exact_value, Nat.zero_mul,
      Nat.zero_add]
    exact Nat.min_eq_left (Nat.le_of_lt finite)
  · obtain ⟨exponent, significand, value, lower, upper, same⟩ := exists_units_of_normal normal
    have power : 0 < Nat.pow 2 exponent := Nat.two_pow_pos exponent
    rw [value, log2_significand exponent lower upper, Nat.add_sub_cancel_left, roundDiv_exact _ power, ← same]
    exact Nat.min_eq_left (Nat.le_of_lt finite)

end Binary64

namespace Decimal

/-- Zeros at the end of a coefficient and the exponent below make up for each other. -/
theorem magnitude_shift (decimal : Decimal) (zeros : Nat) :
    magnitude ⟨decimal.coefficient * Nat.pow 10 zeros, decimal.exponent - zeros⟩ = decimal.magnitude := by
  have power (count : Nat) : 0 < Nat.pow 10 count := Nat.pow_pos (by decide)
  refine Binary64.nearest_congr (power _) (power _) ?_
  -- Both sides are the coefficient times a power of ten, and the exponents add up alike.
  have together : zeros + (decimal.exponent - zeros).toNat + (-decimal.exponent).toNat =
      decimal.exponent.toNat + (-(decimal.exponent - zeros)).toNat := by
    omega
  simp only [numerator, denominator, Nat.pow_eq, Nat.mul_assoc, ← Nat.pow_add, together]

theorem magnitude_trimZeros (coefficient : Nat) (exponent : Int) :
    (trimZeros coefficient exponent).magnitude = magnitude ⟨coefficient, exponent⟩ := by
  fun_induction trimZeros coefficient exponent with
  | case1 coefficient exponent zero ih =>
    have shifted := magnitude_shift ⟨coefficient / 10, exponent + 1⟩ 1
    have whole : coefficient / 10 * Nat.pow 10 1 = coefficient := by
      rw [show Nat.pow 10 1 = 10 from rfl]
      omega
    have below : exponent + 1 - (1 : Nat) = exponent := by omega
    rw [whole, below] at shifted
    rw [ih, shifted]
  | case2 => rfl

theorem magnitude_zero (exponent : Int) : magnitude ⟨0, exponent⟩ = 0 := by
  obtain ⟨bits, least⟩ : ∃ bits, bits = 1074 := ⟨1074, rfl⟩
  have power (base count : Nat) (positive : 0 < base) : 0 < Nat.pow base count := Nat.pow_pos positive
  have nothing : magnitude ⟨0, exponent⟩ = Binary64.nearest 0 (Nat.pow 2 bits) :=
    Binary64.nearest_congr (power 10 _ (by decide)) (power 2 _ (by decide)) (by simp [numerator])
  have value := Binary64.nearest_units least (show 0 < Binary64.infinity by decide)
  rw [Binary64.units_of_subnormal (by decide)] at value
  rw [nothing, value]

end Decimal

namespace Binary64

theorem readsBack_of_closer? {tie : Tie} {below remainder whole chosen : Nat} {readsBack : Nat → Bool}
    (found : closer? tie below remainder whole readsBack = some chosen) : readsBack chosen := by
  have either : chosen = below ∧ readsBack below ∨ chosen = below + 1 ∧ readsBack (below + 1) := by
    unfold closer? at found
    grind
  rcases either with ⟨rfl, reads⟩ | ⟨rfl, reads⟩ <;> exact reads

theorem magnitude_of_onGrid? {tie : Tie} {magnitude : Nat} {exponent : Int} {decimal : Decimal}
    (found : onGrid? tie magnitude exponent = some decimal) : decimal.magnitude = magnitude := by
  obtain ⟨coefficient, chosen, rfl⟩ := Option.map_eq_some_iff.mp found
  exact of_decide_eq_true (readsBack_of_closer? chosen)

theorem magnitude_exact {magnitude : Nat} (finite : magnitude < infinity) :
    (exact magnitude).magnitude = magnitude := by
  obtain ⟨bits, least⟩ : ∃ bits, bits = 1074 := ⟨1074, rfl⟩
  have tens : Nat.pow 10 bits = Nat.pow 2 bits * Nat.pow 5 bits := Nat.mul_pow 2 5 bits
  have fives : 0 < Nat.pow 5 bits := Nat.pow_pos (by decide)
  have spelled : exact magnitude = ⟨units magnitude * Nat.pow 5 bits, -bits⟩ := by
    have below : (-1074 : Int) = -bits := by omega
    rw [exact, below, ← least]
  have numerator : (-(bits : Int)).toNat = 0 := by omega
  have denominator : (- -(bits : Int)).toNat = bits := by omega
  rw [spelled, Decimal.magnitude, Decimal.numerator, Decimal.denominator, numerator, denominator, tens,
    show Nat.pow 10 0 = 1 from rfl, Nat.mul_one, nearest_mul_right _ _ fives]
  exact nearest_units least finite

/-- The decimal chosen for a finite magnitude reads back to it. -/
theorem magnitude_shortest (tie : Tie) {magnitude : Nat} (finite : magnitude < infinity) :
    (shortest tie magnitude).magnitude = magnitude := by
  rw [shortest, Decimal.magnitude_trimZeros]
  cases chosen : (List.range 17).findSome? fun extra => onGrid? tie magnitude
      (leadingExponent (units magnitude) (Nat.pow 2 1074) - Int.ofNat extra) with
  | none => exact magnitude_exact finite
  | some decimal =>
    obtain ⟨extra, _, found⟩ := List.exists_of_findSome?_eq_some chosen
    exact magnitude_of_onGrid? found

theorem coefficient_shortest_pos (tie : Tie) {magnitude : Nat} (finite : magnitude < infinity)
    (positive : 0 < magnitude) : 0 < (shortest tie magnitude).coefficient := by
  apply Nat.pos_of_ne_zero
  intro zero
  have value := magnitude_shortest tie finite
  cases decimal : shortest tie magnitude with
  | mk coefficient exponent =>
    rw [decimal] at zero value
    obtain rfl : coefficient = 0 := zero
    rw [Decimal.magnitude_zero] at value
    exact Nat.ne_of_gt positive value.symm

end Binary64

end LoxLex
