import LoxLex.Proofs.ShortestDigits

/-! The forms of written numbers. Within a range of sizes there are digits around a point, and outside it
there is one digit before the point and an exponent at the end; in both, no digit is there in vain. -/

namespace LoxLex

/-- How many digits there are from the first to the last that is not zero. -/
def significant (digits : List Char) : Nat :=
  ((digits.dropWhile (· = '0')).reverse.dropWhile (· = '0')).length

/-- Digits with no zero at either end. -/
structure AreSignificant (digits : List Char) : Prop where
  nonempty : digits ≠ []
  inside : ∀ char ∈ digits, char.isDigit
  first : digits.head? ≠ some '0'
  last : digits.getLast? ≠ some '0'

private theorem halts_zero {digits : List Char} (first : digits.head? ≠ some '0') :
    Halts (fun char => decide (char = '0')) digits := by
  cases digits with
  | nil => exact halts_nil
  | cons char rest => simpa using first

private theorem AreSignificant.significant_padded {digits : List Char} (ends : AreSignificant digits)
    (before behind : Nat) :
    significant (List.replicate before '0' ++ (digits ++ List.replicate behind '0')) = digits.length := by
  have zeros (count : Nat) : ∀ char ∈ List.replicate count '0', decide (char = '0') := by
    intro char member
    exact decide_eq_true (List.eq_of_mem_replicate member)
  have front : Halts (fun char => decide (char = '0')) (digits ++ List.replicate behind '0') :=
    (halts_zero ends.first).append_of_ne_nil _ ends.nonempty
  have back : Halts (fun char => decide (char = '0')) digits.reverse := by
    apply halts_zero
    rw [List.head?_reverse]
    exact ends.last
  rw [significant, dropWhile_run (zeros before) front, List.reverse_append, List.reverse_replicate,
    dropWhile_run (zeros behind) back, List.length_reverse]

private theorem areSignificant_toDigits {coefficient : Nat} (last : coefficient % 10 ≠ 0) :
    AreSignificant (Nat.toDigits 10 coefficient) := by
  refine ⟨Nat.toDigits_ne_nil, toDigits_digits coefficient, head_toDigits_ne_zero (Nat.pos_of_ne_zero ?_), ?_⟩
  · rintro rfl
    exact last rfl
  have final : (Nat.toDigits 10 coefficient).getLast? = some (coefficient % 10).digitChar := by
    rw [Nat.toDigits_eq_if (by decide)]
    split
    next small => rw [Nat.mod_eq_of_lt small, List.getLast?_singleton]
    next => rw [List.getLast?_append, List.getLast?_singleton, Option.some_or]
  rw [final]
  intro zero
  have code := Nat.toNat_digitChar_of_lt_ten (Nat.mod_lt coefficient (by decide : 0 < 10))
  rw [Option.some.inj zero, show '0'.toNat = 48 from rfl] at code
  omega

private theorem significant_toDigits {coefficient : Nat} (positive : 0 < coefficient) (exponent : Int) :
    significant (Nat.toDigits 10 coefficient) = (Decimal.trimZeros coefficient exponent).length := by
  have padded : ∃ zeros, Nat.toDigits 10 coefficient =
      Nat.toDigits 10 (Decimal.trimZeros coefficient exponent).coefficient ++ List.replicate zeros '0' := by
    clear positive
    fun_induction Decimal.trimZeros coefficient exponent with
    | case1 coefficient exponent zero ih =>
      obtain ⟨zeros, spelled⟩ := ih
      have split := Nat.toDigits_append_toDigits (b := 10) (n := coefficient / 10) (d := 0) (by decide) (by omega) (by decide)
      have whole : 10 * (coefficient / 10) + 0 = coefficient := by omega
      rw [whole] at split
      refine ⟨zeros + 1, ?_⟩
      rw [← split, spelled, List.replicate_succ', List.append_assoc]
      rfl
    | case2 coefficient exponent => exact ⟨0, (List.append_nil _).symm⟩
  obtain ⟨zeros, padded⟩ := padded
  rw [padded]
  exact (areSignificant_toDigits (Decimal.coefficient_trimZeros_mod positive exponent)).significant_padded 0 zeros

section Laid

variable {digits whole fraction : List Char} {before behind : Nat} (ends : AreSignificant digits)
  (laid : Numeral.Laid digits whole fraction before behind)

include ends laid

private theorem AreSignificant.isMantissa_of_laid : Numeral.IsMantissa whole fraction :=
  Numeral.isMantissa_of_padded ends.nonempty ends.inside ends.first laid.begun laid.front laid.padded

private theorem AreSignificant.significant_of_laid : significant (whole ++ fraction) = digits.length := by
  rw [laid.padded]
  exact ends.significant_padded before behind

private theorem AreSignificant.last_of_laid (zero : fraction.getLast? = some '0') : fraction = ['0'] := by
  rcases laid.back with rfl | single
  · have last := congrArg List.getLast? laid.padded
    rw [List.replicate_zero, List.append_nil, List.getLast?_append_of_ne_nil _ laid.ended,
      List.getLast?_append_of_ne_nil _ ends.nonempty] at last
    exact (ends.last (last.symm.trans zero)).elim
  · exact single

end Laid

/-- In listings the point of the scientific notation is behind the first digit, and digits follow it. -/
private theorem exists_laid_scientific {digits : List Char} (ends : AreSignificant digits) (leading : Int) :
    ∃ digit fraction behind, NumberStyle.listing.scientific digits leading = digit :: '.' :: (fraction ++ 'E' ::
        ((if leading < 0 then ['-'] else []) ++ Nat.toDigits 10 leading.natAbs)) ∧
      digit ≠ '0' ∧ Numeral.Laid digits [digit] fraction 0 behind := by
  obtain ⟨digit, rest, rfl⟩ := List.exists_cons_of_ne_nil ends.nonempty
  have first : digit ≠ '0' := by
    rintro rfl
    exact ends.first rfl
  cases rest with
  | nil =>
    exact ⟨digit, ['0'], 1, rfl, first, rfl, List.cons_ne_nil _ _, List.cons_ne_nil _ _, .inl rfl, .inr rfl⟩
  | cons next rest =>
    refine ⟨digit, next :: rest, 0, rfl, first, ?_, List.cons_ne_nil _ _, List.cons_ne_nil _ _, .inl rfl, .inl rfl⟩
    rw [List.replicate_zero, List.append_nil]
    rfl

theorem NumberStyle.writeDecimal_listing (decimal : Decimal) :
    listing.writeDecimal decimal =
      if -3 ≤ decimal.leading ∧ decimal.leading < 7 then plain (Nat.toDigits 10 decimal.coefficient) decimal.leading
      else listing.scientific (Nat.toDigits 10 decimal.coefficient) decimal.leading := by
  simp only [writeDecimal, Bool.and_eq_true, decide_eq_true_eq]
  rfl

theorem NumberStyle.write_listing (number : Binary64) :
    listing.write number = (if number.isNegative then ['-'] else []) ++
      if number.isZero then ['0', '.', '0'] else listing.writeDecimal (Binary64.shortest .up number.magnitude) := by
  unfold write
  cases number.isNegative <;> rfl

namespace Binary64

/-- What is written without an exponent: zero, and sizes from a thousandth on that are below ten million. -/
def IsPlain (number : Binary64) : Prop :=
  number.isZero ∨ (Decimal.toBinary64 ⟨1, -3⟩).size ≤ number.size ∧ number.size < (Decimal.toBinary64 ⟨1, 7⟩).size

variable {number : Binary64}

theorem IsPlain.isFinite (plain : number.IsPlain) : number.isFinite := by
  rcases plain with zero | ⟨_, small⟩
  · have nothing : number.magnitude = 0 := of_decide_eq_true zero
    rw [Binary64.isFinite, nothing]
    rfl
  · apply decide_eq_true
    apply Nat.lt_of_not_le
    intro large
    have limit := Nat.le_trans (Decimal.magnitude_le_infinity ⟨1, 7⟩) large
    rw [size, size, Decimal.toBinary64, magnitude_ofMagnitude (Decimal.magnitude_le_infinity _)] at small
    exact absurd small (not_lt_of_ge (value_le_value limit))

/-- A power of ten that is written for what it is rounded to shows in the leading digit of what is written. -/
private theorem size_le_iff {power : Int} (own : shortest .up (Decimal.magnitude ⟨1, power⟩) = ⟨1, power⟩)
    (finite : number.isFinite) (positive : 0 < number.magnitude) :
    (Decimal.toBinary64 ⟨1, power⟩).size ≤ number.size ↔ power ≤ (shortest .up number.magnitude).leading := by
  have bounded : number.magnitude < infinity := of_decide_eq_true finite
  rw [size, size, value_le_value_iff, Decimal.toBinary64, magnitude_ofMagnitude (Decimal.magnitude_le_infinity _),
    ← le_value_shortest_iff own bounded, Decimal.value_one,
    Decimal.pow_le_value_iff (coefficient_shortest_pos .up bounded positive)]

private theorem thousandth_le_size_iff (finite : number.isFinite) (positive : 0 < number.magnitude) :
    (Decimal.toBinary64 ⟨1, -3⟩).size ≤ number.size ↔ -3 ≤ (shortest .up number.magnitude).leading :=
  size_le_iff (by decide +kernel) finite positive

private theorem tenMillion_le_size_iff (finite : number.isFinite) (positive : 0 < number.magnitude) :
    (Decimal.toBinary64 ⟨1, 7⟩).size ≤ number.size ↔ 7 ≤ (shortest .up number.magnitude).leading :=
  size_le_iff (by decide +kernel) finite positive

theorem isPlain_iff (finite : number.isFinite) (positive : 0 < number.magnitude) :
    number.IsPlain ↔ -3 ≤ (shortest .up number.magnitude).leading ∧ (shortest .up number.magnitude).leading < 7 := by
  have nonzero : ¬ number.isZero := by
    intro zero
    exact Nat.ne_of_gt positive (of_decide_eq_true zero)
  rw [IsPlain, or_iff_right nonzero, thousandth_le_size_iff finite positive, ← not_le,
    tenMillion_le_size_iff finite positive, Int.not_le]

theorem toList_toListing (finite : number.isFinite) : number.toListing.toList = NumberStyle.listing.write number := by
  have bounded : number.magnitude < infinity := of_decide_eq_true finite
  have isNumber : number.isNaN = false := decide_eq_false (Nat.lt_asymm bounded)
  have notInfinite : number.isInfinite = false := decide_eq_false (Nat.ne_of_lt bounded)
  rw [toListing, isNumber, notInfinite, if_neg Bool.false_ne_true, if_neg Bool.false_ne_true, String.toList_ofList]

/-- The form of a written number: what is written before and behind the point, and of its power of ten. -/
structure HasForm (number : Binary64) (whole fraction power : List Char) : Prop where
  begun : whole ≠ []
  nonempty : fraction ≠ []
  digits : ∀ char ∈ whole ++ fraction, char.isDigit
  last : fraction.getLast? = some '0' → fraction = ['0']
  plain : number.IsPlain → power = [] ∧ (whole.head? = some '0' → whole = ['0'])
  scientific : ¬ number.IsPlain → ∃ digit exponent, whole = [digit] ∧ digit ≠ '0' ∧
    power = 'E' :: ((if exponent < 0 then ['-'] else []) ++ Nat.toDigits 10 exponent.natAbs) ∧
    ((Decimal.toBinary64 ⟨1, 7⟩).size ≤ number.size → 7 ≤ exponent) ∧
    (number.size < (Decimal.toBinary64 ⟨1, -3⟩).size → exponent ≤ -4)
  fewest : ¬ number.isZero → ∀ other : Decimal, number.Rounds number.isNegative other.value →
    significant (whole ++ fraction) ≤ significant (Nat.toDigits 10 other.coefficient)

private theorem length_shortest_le (finite : number.isFinite) (positive : 0 < number.magnitude)
    {other : Decimal} (rounds : number.Rounds number.isNegative other.value) :
    (shortest .up number.magnitude).length ≤ significant (Nat.toDigits 10 other.coefficient) := by
  have bounded : number.magnitude < infinity := of_decide_eq_true finite
  have reads := rounds_value_iff.mp rounds
  have more : 0 < other.coefficient := by
    apply Nat.pos_of_ne_zero
    intro zero
    obtain ⟨coefficient, exponent⟩ := other
    obtain rfl : coefficient = 0 := zero
    rw [Decimal.magnitude_zero] at reads
    exact Nat.ne_of_lt positive reads
  rw [significant_toDigits more other.exponent]
  apply (shortest_isShortest .up bounded positive).fewest
  rw [Decimal.magnitude_trimZeros]
  exact reads

private theorem hasForm_zero (zero : number.isZero) : number.HasForm ['0'] ['0'] [] where
  begun := List.cons_ne_nil _ _
  nonempty := List.cons_ne_nil _ _
  digits := by simp
  last _ := rfl
  plain _ := ⟨rfl, fun _ => rfl⟩
  scientific notPlain := (notPlain (.inl zero)).elim
  fewest nonzero := (nonzero zero).elim

section Laid

variable (finite : number.isFinite) (positive : 0 < number.magnitude) {whole fraction : List Char} {before behind : Nat}
  (laid : Numeral.Laid (Nat.toDigits 10 (shortest .up number.magnitude).coefficient) whole fraction before behind)

include finite positive laid

private theorem hasForm_of_laid {power : List Char} (plain : number.IsPlain → power = [])
    (scientific : ¬ number.IsPlain → ∃ digit exponent, whole = [digit] ∧ digit ≠ '0' ∧
      power = 'E' :: ((if exponent < 0 then ['-'] else []) ++ Nat.toDigits 10 exponent.natAbs) ∧
      ((Decimal.toBinary64 ⟨1, 7⟩).size ≤ number.size → 7 ≤ exponent) ∧
      (number.size < (Decimal.toBinary64 ⟨1, -3⟩).size → exponent ≤ -4)) :
    number.HasForm whole fraction power := by
  have bounded : number.magnitude < infinity := of_decide_eq_true finite
  have ends := areSignificant_toDigits (coefficient_shortest_mod .up bounded positive)
  have isMantissa := ends.isMantissa_of_laid laid
  refine ⟨laid.begun, laid.ended, isMantissa.digits, ends.last_of_laid laid, ?_, scientific, ?_⟩
  · intro isPlain
    refine ⟨plain isPlain, ?_⟩
    intro first
    obtain ⟨digit, rest, rfl⟩ := List.exists_cons_of_ne_nil laid.begun
    obtain rfl : rest = [] := isMantissa.unspared first
    rw [Option.some.inj first]
  · intro _ other rounds
    rw [ends.significant_of_laid laid]
    exact length_shortest_le finite positive rounds

end Laid

/-- Every finite number is written in its form, behind its sign. -/
theorem toListing_form (finite : number.isFinite) :
    ∃ whole fraction power, number.toListing.toList =
      (if number.isNegative then ['-'] else []) ++ (whole ++ '.' :: (fraction ++ power)) ∧
        number.HasForm whole fraction power := by
  rw [toList_toListing finite, NumberStyle.write_listing]
  by_cases zero : number.isZero
  · rw [if_pos zero]
    exact ⟨['0'], ['0'], [], rfl, hasForm_zero zero⟩
  rw [if_neg zero]
  have bounded : number.magnitude < infinity := of_decide_eq_true finite
  have positive : 0 < number.magnitude := Nat.pos_of_ne_zero fun none => zero (decide_eq_true none)
  have ends := areSignificant_toDigits (coefficient_shortest_mod .up bounded positive)
  have inRange := isPlain_iff finite positive
  rw [NumberStyle.writeDecimal_listing]
  by_cases plain : number.IsPlain
  · obtain ⟨whole, fraction, before, behind, spelled, laid, _⟩ := Numeral.exists_laid_plain ends.nonempty _
    refine ⟨whole, fraction, [], ?_, hasForm_of_laid finite positive laid (fun _ => rfl) fun notPlain => ?_⟩
    · rw [if_pos (inRange.mp plain), spelled, List.append_nil]
    · exact (notPlain plain).elim
  · let exponent := (shortest .up number.magnitude).leading
    obtain ⟨digit, fraction, behind, spelled, first, laid⟩ := exists_laid_scientific ends exponent
    refine ⟨[digit], fraction, 'E' :: ((if exponent < 0 then ['-'] else []) ++ Nat.toDigits 10 exponent.natAbs), ?_,
      hasForm_of_laid finite positive laid (fun isPlain => (plain isPlain).elim) ?_⟩
    · rw [if_neg (mt inRange.mpr plain), spelled]
      rfl
    · intro _
      refine ⟨digit, exponent, rfl, first, rfl, (tenMillion_le_size_iff finite positive).mp, ?_⟩
      intro small
      have below := mt (thousandth_le_size_iff finite positive).mpr (not_le_of_gt small)
      omega

/-- The greatest number below ten million has all its digits before and behind the point. -/
theorem toListing_form_below :
    (⟨0x416312CFFFFFFFFF⟩ : Binary64).isFinite ∧
      ∃ whole fraction power, (⟨0x416312CFFFFFFFFF⟩ : Binary64).toListing.toList =
        (if (⟨0x416312CFFFFFFFFF⟩ : Binary64).isNegative then ['-'] else []) ++ (whole ++ '.' :: (fraction ++ power)) ∧
          (⟨0x416312CFFFFFFFFF⟩ : Binary64).HasForm whole fraction power := by
  have finite : (⟨0x416312CFFFFFFFFF⟩ : Binary64).isFinite := by decide
  exact ⟨finite, toListing_form finite⟩

end Binary64

end LoxLex
