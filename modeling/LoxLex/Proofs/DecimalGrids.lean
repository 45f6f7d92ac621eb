import LoxLex.Proofs.Decimals

/-! The search for a short decimal. Decimals are tried on grids, each finer by a digit than the one before,
and on each those next to the value. On the first grid where one reads back, no other decimal can do with
fewer digits, and it is found before seventeen digits are over. -/

namespace LoxLex.Binary64

private theorem leadingExponent_spec {numerator denominator : Nat} (positive : 0 < numerator)
    (whole : 0 < denominator) :
    (10 : ℚ) ^ leadingExponent numerator denominator ≤ numerator / denominator ∧
      (numerator : ℚ) / denominator < 10 ^ (leadingExponent numerator denominator + 1) := by
  have scale : (0 : ℚ) < denominator := Nat.cast_pos.mpr whole
  unfold leadingExponent
  split
  next large =>
    obtain ⟨count, length, upper, lower⟩ := exists_length_toDigits (numerator / denominator)
    have lower : Nat.pow 10 count ≤ numerator / denominator := by
      rcases Nat.eq_zero_or_pos count with rfl | more
      · exact Nat.div_pos large whole
      · exact lower more
    have lower : 10 ^ count * denominator ≤ numerator := (Nat.le_div_iff_mul_le whole).mp lower
    have upper : numerator < 10 ^ (count + 1) * denominator := (Nat.div_lt_iff_lt_mul whole).mp upper
    have first : ((count + 1 : ℕ) : ℤ) - 1 = count := by omega
    have next : (count : ℤ) + 1 = (count + 1 : ℕ) := rfl
    rw [length, first, next, zpow_natCast, zpow_natCast, le_div_iff₀ scale, div_lt_iff₀ scale]
    exact ⟨by exact_mod_cast lower, by exact_mod_cast upper⟩
  next small =>
    obtain ⟨count, length, upper, lower⟩ := exists_length_toDigits ((denominator - 1) / numerator)
    have upper : denominator ≤ 10 ^ (count + 1) * numerator :=
      Nat.le_of_pred_lt ((Nat.div_lt_iff_lt_mul positive).mp upper)
    have lower : 10 ^ count * numerator < denominator := by
      rcases Nat.eq_zero_or_pos count with rfl | more
      · omega
      · exact Nat.lt_of_le_pred whole ((Nat.le_div_iff_mul_le positive).mp (lower more))
    have next : -((count + 1 : ℕ) : ℤ) + 1 = -count := by omega
    have power (zeros : ℕ) : (0 : ℚ) < 10 ^ zeros := by positivity
    rw [length, next, zpow_neg, zpow_neg, zpow_natCast, zpow_natCast, le_div_iff₀ scale, div_lt_iff₀ scale,
      inv_mul_le_iff₀ (power _), lt_inv_mul_iff₀ (power _)]
    exact ⟨by exact_mod_cast upper, by exact_mod_cast lower⟩

/-- The decimals on a grid that are next to the value of a magnitude. -/
structure Surrounds (below : Nat) (exponent : ℤ) (magnitude : Nat) : Prop where
  lower : Decimal.value ⟨below, exponent⟩ ≤ value magnitude
  upper : value magnitude < Decimal.value ⟨below + 1, exponent⟩

theorem Surrounds.unique {below other magnitude : Nat} {exponent : ℤ} (first : Surrounds below exponent magnitude)
    (second : Surrounds other exponent magnitude) : below = other := by
  have less := Decimal.coefficient_lt_of_value_lt (lt_of_le_of_lt first.lower second.upper)
  have greater := Decimal.coefficient_lt_of_value_lt (lt_of_le_of_lt second.lower first.upper)
  omega

private theorem exists_unit {bits : Nat} (least : bits = 1074) (magnitude : Nat) (exponent : ℤ) :
    ∃ unit : ℚ, 0 < unit ∧
      value magnitude = ((units magnitude * Nat.pow 10 (-exponent).toNat : ℕ) : ℚ) * unit ∧
      ∀ coefficient : Nat, Decimal.value ⟨coefficient, exponent⟩ =
        ((coefficient * (Nat.pow 2 bits * Nat.pow 10 exponent.toNat) : ℕ) : ℚ) * unit := by
  have scale := two_pow_mul_unit least
  have positive : (0 : ℚ) < 2 ^ (-1074 : ℤ) := by positivity
  have power (zeros : ℕ) : (0 : ℚ) < 10 ^ zeros := by positivity
  have tens (zeros : ℕ) : ((Nat.pow 10 zeros : ℕ) : ℚ) = 10 ^ zeros := Nat.cast_pow 10 zeros
  refine ⟨2 ^ (-1074 : ℤ) / 10 ^ (-exponent).toNat, div_pos positive (power _), ?_, ?_⟩
  · have nonzero := ne_of_gt (power (-exponent).toNat)
    rw [value_eq_units, Nat.cast_mul, tens, mul_assoc, mul_div_cancel₀ _ nonzero]
  · intro coefficient
    rw [Decimal.value, Decimal.ten_zpow, Nat.cast_mul, Nat.cast_mul, tens]
    calc (coefficient : ℚ) * (10 ^ exponent.toNat / 10 ^ (-exponent).toNat)
        = coefficient * (1 * 10 ^ exponent.toNat / 10 ^ (-exponent).toNat) := by rw [one_mul]
      _ = _ := by
        rw [← scale]
        ring

private theorem closer?_eq (tie : Tie) (below remainder whole : Nat) (readsBack : Nat → Bool) :
    closer? tie below remainder whole readsBack =
      if readsBack below ∧ (readsBack (below + 1) → 2 * remainder < whole ∨
        2 * remainder = whole ∧ tie = .even ∧ below % 2 = 0) then some below
      else if readsBack (below + 1) then some (below + 1) else none := by
  unfold closer?
  cases readsBack below <;> cases readsBack (below + 1)
  case true.true =>
    rcases Nat.lt_trichotomy (2 * remainder) whole with less | equal | greater
    · simp [less]
    · cases tie with
      | up => simp [equal]
      | even =>
        rcases Nat.mod_two_eq_zero_or_one below with even | odd
        · simp [equal, even]
        · simp [equal, odd]
    · simp [greater, Nat.lt_asymm greater, Nat.ne_of_gt greater]
  all_goals simp

/-- Of the decimals next to a value, the lower one is taken where only it reads back, where it is nearer,
or where it is even and ties go to even ones. -/
theorem exists_onGrid?_eq (tie : Tie) (magnitude : Nat) (exponent : ℤ) :
    ∃ below, Surrounds below exponent magnitude ∧
      let lower : Decimal := ⟨below, exponent⟩
      let upper : Decimal := ⟨below + 1, exponent⟩
      onGrid? tie magnitude exponent =
        if lower.magnitude = magnitude ∧ (upper.magnitude = magnitude → 2 * value magnitude < lower.value + upper.value ∨
          2 * value magnitude = lower.value + upper.value ∧ tie = .even ∧ below % 2 = 0) then some lower
        else if upper.magnitude = magnitude then some upper else none := by
  obtain ⟨bits, least⟩ : ∃ bits, bits = 1074 := ⟨1074, rfl⟩
  obtain ⟨unit, scale, worth, step⟩ := exists_unit least magnitude exponent
  have whole : 0 < Nat.pow 2 bits * Nat.pow 10 exponent.toNat :=
    Nat.mul_pos (Nat.two_pow_pos bits) (Nat.pow_pos (by decide))
  simp only [onGrid?, ← least]
  generalize units magnitude * Nat.pow 10 (-exponent).toNat = numerator at *
  generalize Nat.pow 2 bits * Nat.pow 10 exponent.toNat = denominator at *
  have split := Nat.div_add_mod numerator denominator
  have rest := Nat.mod_lt numerator whole
  generalize numerator / denominator = below at *
  generalize numerator % denominator = remainder at *
  have less := natCast_mul_lt_iff scale
  have equal := natCast_mul_inj scale
  have twice : 2 * value magnitude = ((2 * numerator : ℕ) : ℚ) * unit := by
    rw [worth, Nat.cast_mul, Nat.cast_ofNat, mul_assoc]
  have middle : Decimal.value ⟨below, exponent⟩ + Decimal.value ⟨below + 1, exponent⟩ =
      ((below * denominator + (below + 1) * denominator : ℕ) : ℚ) * unit := by
    rw [step, step, ← add_mul, ← Nat.cast_add]
  have own : below * denominator = denominator * below := Nat.mul_comm ..
  have next : (below + 1) * denominator = denominator * below + denominator := by
    rw [Nat.succ_mul, own]
  have nearer : 2 * numerator < below * denominator + (below + 1) * denominator ↔ 2 * remainder < denominator := by
    omega
  have halfway : 2 * numerator = below * denominator + (below + 1) * denominator ↔ 2 * remainder = denominator := by
    omega
  refine ⟨below, ⟨?_, ?_⟩, ?_⟩
  · rw [worth, step, ← not_lt, less]
    omega
  · rw [worth, step, less]
    omega
  · simp only [twice, middle, less, equal, nearer, halfway, closer?_eq, decide_eq_true_eq]
    split
    · rfl
    · split <;> rfl

/-- A grid has a decimal that reads back where one of those next to the value does. -/
private theorem onGrid?_eq_none {tie : Tie} {magnitude : Nat} {exponent : ℤ} (finite : magnitude < infinity)
    (none : onGrid? tie magnitude exponent = none) (coefficient : Nat) :
    Decimal.magnitude ⟨coefficient, exponent⟩ ≠ magnitude := by
  obtain ⟨below, surrounds, found⟩ := exists_onGrid?_eq tie magnitude exponent
  dsimp only at found
  rw [none] at found
  have lower : Decimal.magnitude ⟨below, exponent⟩ ≠ magnitude := by
    intro reads
    split at found
    · cases found
    next other =>
      split at found
      · cases found
      next noUpper => exact other ⟨reads, fun upper => (noUpper upper).elim⟩
  have upper : Decimal.magnitude ⟨below + 1, exponent⟩ ≠ magnitude := by
    intro reads
    rw [if_pos reads] at found
    split at found <;> cases found
  intro reads
  rcases Nat.lt_or_ge below coefficient with above | under
  · have most := Decimal.magnitude_mono (Decimal.value_le_value exponent above)
    have least := Decimal.le_magnitude_of_le_value finite (le_of_lt surrounds.upper)
    exact upper (Nat.le_antisymm (reads ▸ most) least)
  · have least := Decimal.magnitude_mono (Decimal.value_le_value exponent under)
    have most := Decimal.magnitude_le_of_value_le surrounds.lower
    exact lower (Nat.le_antisymm most (reads ▸ least))

theorem exists_of_onGrid? {tie : Tie} {magnitude : Nat} {exponent : ℤ} {chosen : Decimal}
    (found : onGrid? tie magnitude exponent = some chosen) :
    ∃ below, Surrounds below exponent magnitude ∧ chosen.exponent = exponent ∧ chosen.coefficient ≤ below + 1 := by
  obtain ⟨below, surrounds, same⟩ := exists_onGrid?_eq tie magnitude exponent
  dsimp only at same
  rw [found] at same
  refine ⟨below, surrounds, ?_⟩
  split at same
  · cases same
    exact ⟨rfl, Nat.le_succ below⟩
  split at same
  · cases same
    exact ⟨rfl, Nat.le_refl _⟩
  · cases same

/-- The coarsest grid on which a decimal reads back, of those not coarser than the leading digit. -/
structure IsCoarsest (leading exponent : ℤ) (magnitude : Nat) : Prop where
  lower : 10 ^ leading ≤ value magnitude
  upper : value magnitude < 10 ^ (leading + 1)
  within : exponent ≤ leading
  readable : ∃ coefficient, Decimal.magnitude ⟨coefficient, exponent⟩ = magnitude
  coarsest : ∀ coarser, exponent < coarser → coarser ≤ leading →
    ∀ coefficient, Decimal.magnitude ⟨coefficient, coarser⟩ ≠ magnitude

namespace IsCoarsest

variable {leading exponent : ℤ} {magnitude : Nat}

theorem unique {otherLeading other : ℤ} (first : IsCoarsest leading exponent magnitude)
    (second : IsCoarsest otherLeading other magnitude) : leading = otherLeading ∧ exponent = other := by
  have base : (1 : ℚ) < 10 := by norm_num
  have most := (zpow_lt_zpow_iff_right₀ base).mp (lt_of_le_of_lt first.lower second.upper)
  have least := (zpow_lt_zpow_iff_right₀ base).mp (lt_of_le_of_lt second.lower first.upper)
  obtain rfl : leading = otherLeading := by omega
  obtain ⟨own, reads⟩ := first.readable
  obtain ⟨also, alsoReads⟩ := second.readable
  refine ⟨rfl, Int.le_antisymm ?_ ?_⟩
  · apply Int.le_of_not_gt
    intro coarser
    exact second.coarsest exponent coarser first.within own reads
  · apply Int.le_of_not_gt
    intro coarser
    exact first.coarsest other coarser second.within also alsoReads

variable (coarsest : IsCoarsest leading exponent magnitude)

include coarsest

/-- A decimal below the value has no digits before the leading one. -/
theorem coefficient_lt_pow {coefficient : Nat} (less : Decimal.value ⟨coefficient, exponent⟩ ≤ value magnitude) :
    coefficient < Nat.pow 10 (leading + 1 - exponent).toNat := by
  have within := coarsest.within
  have power : ((leading + 1 - exponent).toNat : ℤ) + exponent = leading + 1 := by omega
  have small : Decimal.value ⟨coefficient, exponent⟩ < 10 ^ (((leading + 1 - exponent).toNat : ℤ) + exponent) := by
    rw [power]
    exact lt_of_le_of_lt less coarsest.upper
  exact Decimal.coefficient_lt_of_value_lt_pow small

/-- With no more digits than the grid has for the value, a decimal has as few as any that reads back. -/
theorem fewest (positive : 0 < magnitude) {coefficient count : Nat}
    (small : coefficient < Nat.pow 10 (leading + 1 - exponent).toNat) {other : Decimal}
    (reads : other.magnitude = magnitude) (few : other.coefficient < Nat.pow 10 count) :
    coefficient < Nat.pow 10 count := by
  apply Nat.lt_of_not_le
  intro large
  have shorter := (Nat.pow_lt_pow_iff_right (by decide)).mp (Nat.lt_of_le_of_lt large small)
  have some : 0 < count := by
    apply Nat.pos_of_ne_zero
    rintro rfl
    obtain ⟨coefficient, exponent⟩ := other
    obtain rfl : coefficient = 0 := Nat.lt_one_iff.mp few
    rw [Decimal.magnitude_zero] at reads
    exact Nat.ne_of_lt positive reads
  have finer : other.exponent ≤ exponent := by
    apply Int.le_of_not_gt
    intro beyond
    obtain ⟨more, same⟩ := Decimal.exists_finer other.coefficient (Int.min_le_left other.exponent leading)
    exact coarsest.coarsest _ (by omega) (Int.min_le_right ..) more (same.trans reads)
  -- So the power of ten at the leading digit lies between the other decimal and the value.
  have most : Decimal.magnitude ⟨1, leading⟩ ≤ magnitude := by
    apply Decimal.magnitude_le_of_value_le
    rw [Decimal.value_one]
    exact coarsest.lower
  have least : magnitude ≤ Decimal.magnitude ⟨1, leading⟩ := by
    rw [← reads]
    apply Decimal.magnitude_mono
    rw [Decimal.value_one]
    apply le_trans (le_of_lt (Decimal.value_lt_pow few))
    exact zpow_le_zpow_right₀ (by norm_num) (by omega)
  exact coarsest.coarsest leading (by omega) (Int.le_refl leading) 1 (Nat.le_antisymm most least)

end IsCoarsest

private theorem exists_first_of_findSome? {found : Nat → Option α} {count : Nat} {value : α}
    (first : (List.range count).findSome? found = some value) :
    ∃ index, found index = some value ∧ ∀ earlier < index, found earlier = none := by
  induction count with
  | zero => cases first
  | succ count ih =>
    rw [List.range_succ, List.findSome?_append] at first
    cases before : (List.range count).findSome? found with
    | some earlier =>
      rw [before, Option.some_or] at first
      exact ih (before.trans first)
    | none =>
      rw [before, Option.none_or, List.findSome?_singleton] at first
      refine ⟨count, first, ?_⟩
      intro earlier less
      exact List.findSome?_eq_none_iff.mp before earlier (List.mem_range.mpr less)

/-- Of seventeen digits, those nearest to a value read back. -/
private theorem exists_readable {magnitude : Nat} {leading : ℤ} (finite : magnitude < infinity)
    (lower : 10 ^ leading ≤ value magnitude) :
    ∃ coefficient, Decimal.magnitude ⟨coefficient, leading - 16⟩ = magnitude := by
  obtain ⟨below, surrounds, _⟩ := exists_onGrid?_eq .up magnitude (leading - 16)
  obtain ⟨above, under⟩ := surrounds
  have power : (10 : ℚ) ^ leading = 10 ^ 16 * 10 ^ (leading - 16) := by
    rw [← zpow_natCast, ← zpow_add₀ (by norm_num)]
    congr 1
    omega
  have near : ∃ coefficient : Nat,
      2 * |Decimal.value ⟨coefficient, leading - 16⟩ - value magnitude| ≤ 10 ^ (leading - 16) := by
    rw [Decimal.value_succ] at under
    rcases le_total (2 * value magnitude) (2 * Decimal.value ⟨below, leading - 16⟩ + 10 ^ (leading - 16)) with half | half
    · refine ⟨below, ?_⟩
      rw [abs_of_nonpos (by linarith)]
      linarith
    · refine ⟨below + 1, ?_⟩
      rw [Decimal.value_succ, abs_of_pos (by linarith)]
      linarith
  obtain ⟨coefficient, near⟩ := near
  obtain ⟨own, closest, rounded⟩ := Decimal.exists_isClosest ⟨coefficient, leading - 16⟩
  refine ⟨coefficient, ?_⟩
  rw [rounded, closest.eq_of_near (by linarith)]
  exact Nat.min_eq_left (Nat.le_of_lt finite)

theorem exists_shortest_eq (tie : Tie) {magnitude : Nat} (finite : magnitude < infinity) (positive : 0 < magnitude) :
    ∃ leading exponent chosen, IsCoarsest leading exponent magnitude ∧
      onGrid? tie magnitude exponent = some chosen ∧
      shortest tie magnitude = .trimZeros chosen.coefficient exponent := by
  obtain ⟨bits, least⟩ : ∃ bits, bits = 1074 := ⟨1074, rfl⟩
  have worth : value magnitude = (units magnitude : ℚ) / (Nat.pow 2 bits : ℕ) := by
    have scale := two_pow_mul_unit least
    rw [value_eq_units, eq_div_iff (left_ne_zero_of_mul_eq_one scale), mul_assoc, mul_comm ((2 : ℚ) ^ (-1074 : ℤ)), scale,
      mul_one]
  have more : 0 < units magnitude := Nat.zero_lt_of_lt (units_lt_units positive)
  obtain ⟨lower, upper⟩ := leadingExponent_spec more (Nat.two_pow_pos bits)
  change (10 : ℚ) ^ leadingExponent _ (Nat.pow 2 bits) ≤ _ / (Nat.pow 2 bits : ℕ) at lower
  change _ / ((Nat.pow 2 bits : ℕ) : ℚ) < 10 ^ (leadingExponent _ (Nat.pow 2 bits) + 1) at upper
  rw [← worth] at lower upper
  simp only [shortest, ← least, Int.ofNat_eq_natCast]
  generalize leadingExponent (units magnitude) (Nat.pow 2 bits) = leading at *
  cases search : (List.range 17).findSome? fun extra : ℕ => onGrid? tie magnitude (leading - extra) with
  | none =>
    have finest := List.findSome?_eq_none_iff.mp search 16 (List.mem_range.mpr (by decide))
    obtain ⟨coefficient, reads⟩ := exists_readable finite lower
    exact (onGrid?_eq_none finite finest coefficient reads).elim
  | some chosen =>
    obtain ⟨extra, found, earlier⟩ := exists_first_of_findSome? search
    obtain ⟨below, surrounds, grid, _⟩ := exists_of_onGrid? found
    have reads := magnitude_of_onGrid? found
    obtain ⟨coefficient, exponent⟩ := chosen
    obtain rfl : exponent = leading - extra := grid
    refine ⟨leading, _, _, ⟨lower, upper, ?_, ⟨coefficient, reads⟩, ?_⟩, found, rfl⟩
    · exact Int.sub_le_self leading (Int.natCast_nonneg extra)
    · intro coarser beyond within
      have none := earlier (leading - coarser).toNat (by omega)
      have same : leading - ((leading - coarser).toNat : ℤ) = coarser := by omega
      rw [same] at none
      exact onGrid?_eq_none finite none

end LoxLex.Binary64
