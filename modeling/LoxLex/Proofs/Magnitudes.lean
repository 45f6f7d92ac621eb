import LoxLex.Proofs.Rounding

/-! Magnitudes one after the other. From each to the next the value grows by a power of two, and that
power is never small beside the value: sixteen digits tell any two of them apart. -/

namespace LoxLex.Binary64

/-- How many units the next magnitude is worth more. -/
def spacing (magnitude : Nat) : Nat := Nat.pow 2 (magnitude / Nat.pow 2 52 - 1)

private theorem spacing_pos (magnitude : Nat) : 0 < spacing magnitude := Nat.two_pow_pos _

private theorem spacing_of_subnormal {magnitude : Nat} (subnormal : magnitude < Nat.pow 2 52) :
    spacing magnitude = 1 := by
  rw [spacing, Nat.div_eq_of_lt subnormal]

section Normal

variable {exponent significand : Nat} (least : Nat.pow 2 52 ≤ significand) (limit : significand < Nat.pow 2 53)

include least limit

private theorem fields_normal (exponent : Nat) :
    (exponent * Nat.pow 2 52 + significand) / Nat.pow 2 52 = exponent + 1 ∧
      Nat.pow 2 52 + (exponent * Nat.pow 2 52 + significand) % Nat.pow 2 52 = significand := by
  rw [show Nat.pow 2 52 = 4503599627370496 from rfl] at least ⊢
  rw [show Nat.pow 2 53 = 9007199254740992 from rfl] at limit
  omega

private theorem units_normal : units (exponent * Nat.pow 2 52 + significand) = significand * Nat.pow 2 exponent := by
  obtain ⟨quotient, remainder⟩ := fields_normal least limit exponent
  have normal : ¬ exponent * Nat.pow 2 52 + significand < Nat.pow 2 52 :=
    Nat.not_lt_of_le (Nat.le_add_left_of_le least)
  rw [units, if_neg normal, quotient, remainder, Nat.add_sub_cancel]

private theorem spacing_normal : spacing (exponent * Nat.pow 2 52 + significand) = Nat.pow 2 exponent := by
  obtain ⟨quotient, _⟩ := fields_normal least limit exponent
  rw [spacing, quotient, Nat.add_sub_cancel]

end Normal

private theorem units_succ (magnitude : Nat) : units (magnitude + 1) = units magnitude + spacing magnitude := by
  rcases Nat.lt_or_ge magnitude (Nat.pow 2 52) with subnormal | normal
  · rw [units_of_subnormal subnormal, spacing_of_subnormal subnormal]
    rcases Nat.lt_or_ge (magnitude + 1) (Nat.pow 2 52) with next | first
    · exact units_of_subnormal next
    · -- The first normal magnitude has the spacing of the subnormal ones.
      have last : magnitude + 1 = 0 * Nat.pow 2 52 + Nat.pow 2 52 := by omega
      rw [last, units_normal (Nat.le_refl _) (by decide)]
  · obtain ⟨exponent, significand, value, least, limit, rfl⟩ := exists_units_of_normal normal
    rw [value, spacing_normal least limit]
    rcases Nat.lt_or_ge (significand + 1) (Nat.pow 2 53) with next | full
    · rw [Nat.add_assoc, units_normal (Nat.le_succ_of_le least) next, Nat.succ_mul]
    · have last : significand + 1 = Nat.pow 2 53 := Nat.le_antisymm limit full
      have carry : exponent * Nat.pow 2 52 + significand + 1 = (exponent + 1) * Nat.pow 2 52 + Nat.pow 2 52 := by
        rw [show Nat.pow 2 52 = 4503599627370496 from rfl]
        rw [show Nat.pow 2 53 = 9007199254740992 from rfl] at last
        omega
      have doubled : Nat.pow 2 53 * Nat.pow 2 exponent = Nat.pow 2 52 * Nat.pow 2 (exponent + 1) := by
        rw [show Nat.pow 2 53 = Nat.pow 2 52 * 2 from rfl, Nat.mul_assoc, Nat.mul_comm 2]
        rfl
      rw [carry, units_normal (Nat.le_refl _) (by decide), ← doubled, ← last, Nat.succ_mul]

theorem units_lt_units {magnitude other : Nat} (less : magnitude < other) : units magnitude < units other := by
  induction less with
  | refl =>
    rw [units_succ]
    exact Nat.lt_add_of_pos_right (spacing_pos magnitude)
  | step _ ih =>
    rw [units_succ]
    exact Nat.lt_add_right _ ih

private theorem units_le_units {magnitude other : Nat} (less : magnitude ≤ other) : units magnitude ≤ units other := by
  rcases Nat.lt_or_eq_of_le less with less | rfl
  · exact Nat.le_of_lt (units_lt_units less)
  · exact Nat.le_refl _

private theorem units_add_spacing_le (magnitude : Nat) :
    units magnitude + spacing magnitude ≤ Nat.pow 2 53 * spacing magnitude := by
  rcases Nat.lt_or_ge magnitude (Nat.pow 2 52) with subnormal | normal
  · rw [units_of_subnormal subnormal, spacing_of_subnormal subnormal]
    exact Nat.le_trans subnormal (by decide)
  · obtain ⟨exponent, significand, value, least, limit, rfl⟩ := exists_units_of_normal normal
    rw [value, spacing_normal least limit, ← Nat.succ_mul]
    exact Nat.mul_le_mul_right _ limit

/-- Two magnitudes differ by more than the `10 ^ 16`th part of either. -/
theorem units_gap_above {magnitude other : Nat} (less : magnitude < other) :
    units magnitude + Nat.pow 10 16 * units magnitude < Nat.pow 10 16 * units other := by
  have bound := units_add_spacing_le magnitude
  have positive := spacing_pos magnitude
  have next := units_le_units less
  rw [units_succ] at next
  rw [show Nat.pow 2 53 = 9007199254740992 from rfl] at bound
  rw [show Nat.pow 10 16 = 10000000000000000 from rfl]
  omega

theorem units_gap_below {magnitude other : Nat} (less : other < magnitude) :
    units magnitude + Nat.pow 10 16 * units other < Nat.pow 10 16 * units magnitude := by
  have bound := units_add_spacing_le (magnitude - 1)
  have positive := spacing_pos (magnitude - 1)
  have previous := units_le_units (Nat.le_sub_one_of_lt less)
  have same := units_succ (magnitude - 1)
  rw [Nat.sub_add_cancel (Nat.one_le_of_lt less)] at same
  rw [show Nat.pow 2 53 = 9007199254740992 from rfl] at bound
  rw [show Nat.pow 10 16 = 10000000000000000 from rfl]
  omega

/-- The bits that are not rounded away, with the count of those that are, make up a magnitude. -/
private theorem kept_bits (scaled denominator : Nat) :
    let dropped := (scaled / denominator).log2 - 52
    let kept := scaled / (denominator * Nat.pow 2 dropped)
    units (dropped * Nat.pow 2 52 + kept) = kept * Nat.pow 2 dropped ∧
      spacing (dropped * Nat.pow 2 52 + kept) = Nat.pow 2 dropped := by
  intro dropped kept
  have divided : kept = scaled / denominator / Nat.pow 2 dropped := (Nat.div_div_eq_div_mul ..).symm
  have power : 0 < Nat.pow 2 dropped := Nat.two_pow_pos dropped
  rcases Nat.lt_or_ge kept (Nat.pow 2 52) with subnormal | normal
  · have none : dropped = 0 := by
      apply Nat.eq_zero_of_not_pos
      intro some
      have large : (scaled / denominator).log2 = 52 + dropped := by omega
      have nonzero : scaled / denominator ≠ 0 := by
        intro zero
        rw [zero, Nat.log2_zero] at large
        omega
      have least := Nat.log2_self_le nonzero
      rw [large, Nat.pow_add] at least
      have bound : Nat.pow 2 52 ≤ kept := by
        rw [divided]
        exact (Nat.le_div_iff_mul_le power).mpr least
      exact Nat.not_lt_of_le bound subnormal
    rw [none, Nat.zero_mul, Nat.zero_add, units_of_subnormal subnormal, spacing_of_subnormal subnormal]
    exact ⟨(Nat.mul_one _).symm, rfl⟩
  · have limit : kept < Nat.pow 2 53 := by
      rw [divided]
      apply (Nat.div_lt_iff_lt_mul power).mpr
      refine Nat.lt_of_lt_of_le Nat.lt_log2_self ?_
      rw [Nat.pow_eq, Nat.pow_eq, ← Nat.pow_add]
      apply Nat.pow_le_pow_right Nat.two_pos
      omega
    exact ⟨units_normal normal limit, spacing_normal normal limit⟩

/-- A quotient lies between two magnitudes, and the nearest is that of the two which the middle between
them leaves on its side. -/
theorem exists_nearest_eq {bits numerator denominator scaled : Nat} (least : bits = 1074)
    (positive : 0 < denominator) (scale : numerator * Nat.pow 2 bits = scaled) :
    ∃ below, units below * denominator ≤ scaled ∧ scaled < units (below + 1) * denominator ∧
      nearest numerator denominator =
        let middle := (units below + units (below + 1)) * denominator
        min (if 2 * scaled < middle ∨ 2 * scaled = middle ∧ below % 2 = 0 then below else below + 1) infinity := by
  obtain ⟨value, next⟩ := kept_bits scaled denominator
  simp only [nearest, roundDiv, ← least, scale]
  clear scale
  generalize (scaled / denominator).log2 - 52 = dropped at *
  have power : 0 < denominator * Nat.pow 2 dropped := Nat.mul_pos positive (Nat.two_pow_pos dropped)
  have split := Nat.div_add_mod scaled (denominator * Nat.pow 2 dropped)
  have rest := Nat.mod_lt scaled power
  generalize scaled / (denominator * Nat.pow 2 dropped) = kept at *
  generalize scaled % (denominator * Nat.pow 2 dropped) = remainder at *
  have lower : units (dropped * Nat.pow 2 52 + kept) * denominator = denominator * Nat.pow 2 dropped * kept := by
    rw [value, Nat.mul_comm, Nat.mul_comm kept, Nat.mul_assoc]
  have upper : units (dropped * Nat.pow 2 52 + kept + 1) * denominator =
      denominator * Nat.pow 2 dropped * kept + denominator * Nat.pow 2 dropped := by
    rw [units_succ, Nat.add_mul, lower, next, Nat.mul_comm (Nat.pow 2 dropped)]
  have parity : (dropped * Nat.pow 2 52 + kept) % 2 = kept % 2 := by
    rw [show Nat.pow 2 52 = 4503599627370496 from rfl]
    omega
  refine ⟨dropped * Nat.pow 2 52 + kept, ?_, ?_, ?_⟩
  · rw [lower, ← split]
    exact Nat.le_add_right ..
  · rw [upper, ← split]
    exact Nat.add_lt_add_left rest _
  · simp only [Nat.add_mul, lower, upper, parity, Bool.or_eq_true, Bool.and_eq_true, decide_eq_true_eq]
    generalize denominator * Nat.pow 2 dropped * kept = below at *
    congr 1
    split <;> split <;> omega

end LoxLex.Binary64
