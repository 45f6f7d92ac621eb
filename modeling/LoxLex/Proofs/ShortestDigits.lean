import LoxLex.Proofs.DecimalGrids

/-! The decimal that is written for a number has the fewest digits of all that are rounded to it. The two
ways of choosing one differ only in the middle between two that are as short. -/

namespace LoxLex

/-- No decimal for the same magnitude has fewer digits. -/
structure Decimal.IsShortest (decimal : Decimal) (magnitude : Nat) : Prop where
  readsBack : decimal.magnitude = magnitude
  fewest : ∀ other : Decimal, other.magnitude = magnitude → decimal.length ≤ other.length

namespace Binary64

variable {leading exponent : ℤ} {magnitude : Nat}

private theorem IsCoarsest.isShortest (coarsest : IsCoarsest leading exponent magnitude) (positive : 0 < magnitude)
    {decimal : Decimal} (small : decimal.coefficient < Nat.pow 10 (leading + 1 - exponent).toNat)
    (readsBack : decimal.magnitude = magnitude) : decimal.IsShortest magnitude := by
  refine ⟨readsBack, ?_⟩
  intro other reads
  have some : 0 < other.length := Nat.length_toDigits_pos
  have few := (Decimal.length_le_iff some).mp (Nat.le_refl _)
  exact (Decimal.length_le_iff some).mpr (coarsest.fewest positive small reads few)

/-- A power of ten with as many zeros as the grid has digits is too large, and ends in a zero. -/
private theorem IsCoarsest.exists_pow (coarsest : IsCoarsest leading exponent magnitude) :
    ∃ half, Nat.pow 10 (leading + 1 - exponent).toNat = half * 10 := by
  have within := coarsest.within
  obtain ⟨count, spelled⟩ : ∃ count, (leading + 1 - exponent).toNat = count + 1 := ⟨(leading - exponent).toNat, by omega⟩
  exact ⟨Nat.pow 10 count, by rw [spelled]; rfl⟩

theorem coefficient_shortest_mod (tie : Tie) (finite : magnitude < infinity) (positive : 0 < magnitude) :
    (shortest tie magnitude).coefficient % 10 ≠ 0 := by
  obtain ⟨leading, exponent, chosen, _, _, same⟩ := exists_shortest_eq tie finite positive
  have nonzero := coefficient_shortest_pos tie finite positive
  rw [same] at nonzero ⊢
  have least := Decimal.coefficient_trimZeros_le chosen.coefficient exponent
  exact Decimal.coefficient_trimZeros_mod (Nat.lt_of_lt_of_le nonzero least) exponent

private theorem IsCoarsest.coefficient_shortest_lt (coarsest : IsCoarsest leading exponent magnitude) (tie : Tie)
    (finite : magnitude < infinity) (positive : 0 < magnitude) :
    (shortest tie magnitude).coefficient < Nat.pow 10 (leading + 1 - exponent).toNat := by
  obtain ⟨ownLeading, own, chosen, also, found, same⟩ := exists_shortest_eq tie finite positive
  obtain ⟨rfl, rfl⟩ := coarsest.unique also
  obtain ⟨below, surrounds, _, most⟩ := exists_of_onGrid? found
  have last := coefficient_shortest_mod tie finite positive
  have less := coarsest.coefficient_lt_pow surrounds.lower
  obtain ⟨half, full⟩ := coarsest.exists_pow
  have least := Decimal.coefficient_trimZeros_le chosen.coefficient exponent
  rw [← same] at least
  omega

/-- The decimal that is written for a magnitude has the fewest digits. -/
theorem shortest_isShortest (tie : Tie) (finite : magnitude < infinity) (positive : 0 < magnitude) :
    (shortest tie magnitude).IsShortest magnitude := by
  obtain ⟨leading, exponent, _, coarsest, _, _⟩ := exists_shortest_eq tie finite positive
  exact coarsest.isShortest positive (coarsest.coefficient_shortest_lt tie finite positive)
    (magnitude_shortest tie finite)

/-- A decimal that is written for what it is rounded to stays below what is written for anything greater. -/
theorem le_value_shortest_iff {tie : Tie} {mark : Decimal} (own : shortest tie mark.magnitude = mark)
    (finite : magnitude < infinity) : mark.value ≤ (shortest tie magnitude).value ↔ mark.magnitude ≤ magnitude := by
  have reads := magnitude_shortest tie finite
  constructor
  · intro less
    exact le_of_le_of_eq (Decimal.magnitude_mono less) reads
  · intro less
    by_contra below
    have most := Decimal.magnitude_mono (le_of_not_ge below)
    rw [reads] at most
    obtain rfl := Nat.le_antisymm less most
    rw [own] at below
    exact below (le_refl _)

/-- The value of a magnitude is in the middle between two decimals of the fewest digits, an even one and
the next. -/
structure Halfway (below : Nat) (exponent : ℤ) (magnitude : Nat) : Prop where
  middle : 2 * value magnitude = Decimal.value ⟨below, exponent⟩ + Decimal.value ⟨below + 1, exponent⟩
  even : below % 2 = 0
  lower : Decimal.IsShortest ⟨below, exponent⟩ magnitude
  upper : Decimal.IsShortest ⟨below + 1, exponent⟩ magnitude

namespace Halfway

variable {below : Nat}

private theorem surrounds (halfway : Halfway below exponent magnitude) : Surrounds below exponent magnitude := by
  have middle := halfway.middle
  have step : (0 : ℚ) < 10 ^ exponent := by positivity
  rw [Decimal.value_succ] at middle
  constructor
  · linarith
  · rw [Decimal.value_succ]
    linarith

theorem positive (halfway : Halfway below exponent magnitude) : 0 < magnitude := by
  apply Nat.pos_of_ne_zero
  rintro rfl
  have above := halfway.surrounds.upper
  have least := halfway.middle
  have nothing : value 0 = 0 := by
    rw [value_eq_units, units_of_subnormal (by decide), Nat.cast_zero, zero_mul]
  have natural := Decimal.value_nonneg ⟨below, exponent⟩
  rw [nothing] at above least
  linarith

private theorem exponent_eq {other : ℤ} (halfway : Halfway below exponent magnitude)
    (coarsest : IsCoarsest leading other magnitude) (finite : magnitude < infinity) (positive : 0 < magnitude) :
    exponent = other := by
  obtain ⟨lower, upper⟩ := halfway.surrounds
  have base : (1 : ℚ) < 10 := by norm_num
  have some : 0 < below := by
    apply Nat.pos_of_ne_zero
    rintro rfl
    have reads := halfway.lower.readsBack
    rw [Decimal.magnitude_zero] at reads
    exact Nat.ne_of_lt positive reads
  have within : exponent ≤ leading := by
    have least := Decimal.value_le_value exponent some
    rw [Nat.succ_eq_add_one, Nat.zero_add, Decimal.value_one] at least
    have less := lt_of_le_of_lt (le_trans least lower) coarsest.upper
    exact Int.le_of_lt_add_one ((zpow_lt_zpow_iff_right₀ base).mp less)
  apply Int.le_antisymm
  · apply Int.le_of_not_gt
    intro coarser
    exact coarsest.coarsest exponent coarser within below halfway.lower.readsBack
  · apply Int.le_of_not_gt
    intro finer
    -- Digits enough for the coarser grid do not reach from the finer one up to the leading digit.
    have few := coarsest.coefficient_shortest_lt .up finite positive
    have digits : 0 < (leading + 1 - other).toNat := by
      have coarse := coarsest.within
      omega
    have length := halfway.upper.fewest _ (magnitude_shortest .up finite)
    have short := le_trans length ((Decimal.length_le_iff digits).mpr few)
    have small := Decimal.value_lt_pow ((Decimal.length_le_iff digits).mp short)
    have power : (10 : ℚ) ^ (((leading + 1 - other).toNat : ℤ) + exponent) ≤ 10 ^ leading :=
      zpow_le_zpow_right₀ (le_of_lt base) (by omega)
    have least := coarsest.lower
    dsimp only at small
    linarith

private theorem onGrid?_eq (halfway : Halfway below exponent magnitude) (tie : Tie) :
    onGrid? tie magnitude exponent = some ⟨if tie = .even then below else below + 1, exponent⟩ := by
  obtain ⟨own, surrounds, found⟩ := exists_onGrid?_eq tie magnitude exponent
  obtain rfl := surrounds.unique halfway.surrounds
  simp only [found, halfway.lower.readsBack, halfway.upper.readsBack, halfway.middle, halfway.even, lt_irrefl,
    false_or, true_and, and_true, true_implies, if_true]
  split <;> rfl

/-- One way of choosing takes the upper decimal, the other the lower. -/
theorem value_shortest (halfway : Halfway below exponent magnitude) (tie : Tie) (finite : magnitude < infinity)
    (positive : 0 < magnitude) :
    (shortest tie magnitude).value = Decimal.value ⟨if tie = .even then below else below + 1, exponent⟩ := by
  obtain ⟨leading, other, chosen, coarsest, found, same⟩ := exists_shortest_eq tie finite positive
  obtain rfl := halfway.exponent_eq coarsest finite positive
  rw [halfway.onGrid?_eq tie] at found
  cases found
  rw [same, Decimal.value_trimZeros]

end Halfway

/-- Elsewhere both ways of choosing give the same. -/
theorem value_shortest_eq (finite : magnitude < infinity) (positive : 0 < magnitude)
    (apart : ∀ below exponent, ¬ Halfway below exponent magnitude) :
    (shortest .up magnitude).value = (shortest .even magnitude).value := by
  obtain ⟨leading, exponent, chosen, coarsest, found, same⟩ := exists_shortest_eq .up finite positive
  obtain ⟨_, _, other, also, otherFound, otherSame⟩ := exists_shortest_eq .even finite positive
  obtain ⟨rfl, rfl⟩ := coarsest.unique also
  obtain ⟨below, surrounds, up⟩ := exists_onGrid?_eq .up magnitude exponent
  obtain ⟨_, alsoSurrounds, even⟩ := exists_onGrid?_eq .even magnitude exponent
  obtain rfl := surrounds.unique alsoSurrounds
  have less := coarsest.coefficient_lt_pow surrounds.lower
  obtain ⟨half, full⟩ := coarsest.exists_pow
  have untied (lower : Decimal.magnitude ⟨below, exponent⟩ = magnitude)
      (upper : Decimal.magnitude ⟨below + 1, exponent⟩ = magnitude)
      (middle : 2 * value magnitude = Decimal.value ⟨below, exponent⟩ + Decimal.value ⟨below + 1, exponent⟩) :
      ¬ below % 2 = 0 := by
    intro even
    have next : below + 1 < Nat.pow 10 (leading + 1 - exponent).toNat := by omega
    exact apart below exponent
      ⟨middle, even, coarsest.isShortest positive less lower, coarsest.isShortest positive next upper⟩
  have alike : onGrid? .up magnitude exponent = onGrid? .even magnitude exponent := by
    dsimp only at up even
    rw [up, even]
    refine if_congr (and_congr_right fun lower => forall_congr' fun upper => or_congr_right ?_) rfl rfl
    constructor
    · rintro ⟨_, wrong, _⟩
      cases wrong
    · rintro ⟨middle, _, isEven⟩
      exact (untied lower upper middle isEven).elim
  rw [alike, otherFound] at found
  cases found
  rw [same, otherSame]

end Binary64

end LoxLex