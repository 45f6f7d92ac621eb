import LoxLex.Json.Value
import LoxLex.Proofs.NumberForms

/-! Number texts read back. In listings and in JSON, a finite number is written as a numeral that is rounded
to it and to no other, and both name the same value unless it is in the middle between two decimals that
are as short. In listings no two numbers look alike, and one without an exponent is a number of the
language. -/

namespace LoxLex

/-- A decimal that rounds to a number has the fewest digits of all that do. -/
structure Decimal.IsShortestFor (decimal : Decimal) (number : Binary64) : Prop where
  rounds : number.Rounds number.isNegative decimal.value
  fewest : ∀ other : Decimal, number.Rounds number.isNegative other.value → decimal.length ≤ other.length

/-- The size of a number is in the middle between two decimals of the fewest digits, an even one and the
next. -/
structure Binary64.IsMidway (number : Binary64) (below : Nat) (exponent : Int) : Prop where
  middle : 2 * number.size = Decimal.value ⟨below, exponent⟩ + Decimal.value ⟨below + 1, exponent⟩
  even : below % 2 = 0
  lower : Decimal.IsShortestFor ⟨below, exponent⟩ number
  upper : Decimal.IsShortestFor ⟨below + 1, exponent⟩ number

/-- A numeral has the sign of a number and is rounded to it, and to no other. -/
structure Numeral.Keeps (numeral : Numeral) (number : Binary64) : Prop where
  sign : numeral.isNegative = number.isNegative
  rounds : ∀ other : Binary64, other.Rounds numeral.isNegative numeral.size.value ↔ other = number

/-- What a listing and JSON say of a number: the number itself, with one value for both outside the middles
between shortest decimals, and there the upper decimal in the listing and the even one in JSON. -/
structure Binary64.NamedBy (number : Binary64) (listing json : Numeral) : Prop where
  listed : listing.Keeps number
  encoded : json.Keeps number
  alike : (∀ below exponent, ¬ number.IsMidway below exponent) → listing.size.value = json.size.value
  midway : ∀ below exponent, number.IsMidway below exponent →
    listing.size.value = Decimal.value ⟨below + 1, exponent⟩ ∧ json.size.value = Decimal.value ⟨below, exponent⟩

private theorem Decimal.isShortestFor_iff {decimal : Decimal} {number : Binary64} :
    decimal.IsShortestFor number ↔ decimal.IsShortest number.magnitude := by
  constructor
  · rintro ⟨rounds, fewest⟩
    exact ⟨Binary64.rounds_value_iff.mp rounds, fun other reads => fewest other (Binary64.rounds_value_iff.mpr reads)⟩
  · rintro ⟨reads, fewest⟩
    exact ⟨Binary64.rounds_value_iff.mpr reads, fun other rounds => fewest other (Binary64.rounds_value_iff.mp rounds)⟩

private theorem Binary64.isMidway_iff {number : Binary64} {below : Nat} {exponent : Int} :
    number.IsMidway below exponent ↔ Halfway below exponent number.magnitude := by
  constructor
  · rintro ⟨middle, even, lower, upper⟩
    exact ⟨middle, even, Decimal.isShortestFor_iff.mp lower, Decimal.isShortestFor_iff.mp upper⟩
  · rintro ⟨middle, even, lower, upper⟩
    exact ⟨middle, even, Decimal.isShortestFor_iff.mpr lower, Decimal.isShortestFor_iff.mpr upper⟩

namespace NumberStyle

private theorem exists_size?_writeDecimal {style : NumberStyle} (marked : Numeral.isMark style.mark) {decimal : Decimal}
    (positive : 0 < decimal.coefficient) :
    ∃ size, Numeral.size? (style.writeDecimal decimal) = some size ∧ size.value = decimal.value := by
  obtain ⟨zeros, read⟩ := Numeral.size?_writeDecimal positive marked
  exact ⟨_, read, Decimal.value_shift decimal.coefficient zeros decimal.exponent⟩

private theorem exists_mantissa {decimal : Decimal} (positive : 0 < decimal.coefficient)
    (inRange : -3 ≤ decimal.leading ∧ decimal.leading < 7) :
    ∃ whole fraction, listing.writeDecimal decimal = Numeral.mantissa whole fraction ∧
      Numeral.IsMantissa whole fraction ∧
      Decimal.magnitude ⟨Nat.ofDigitChars 10 (whole ++ fraction) 0, -fraction.length⟩ = decimal.magnitude := by
  obtain ⟨whole, fraction, zeros, spelled, names⟩ := Numeral.exists_names_plain positive
  rw [writeDecimal_listing, if_pos inRange]
  refine ⟨whole, fraction, spelled, names.isMantissa, ?_⟩
  have exponent := names.exponent
  rw [Int.zero_sub] at exponent
  rw [names.coefficient, exponent, Decimal.magnitude_shift]

variable {number : Binary64}

private theorem exists_numeral (style : NumberStyle) (marked : Numeral.isMark style.mark) (finite : number.isFinite) :
    ∃ numeral, Numeral.read? (style.write number) = some numeral ∧ numeral.isNegative = number.isNegative ∧
      numeral.size.value = if number.isZero then 0 else (Binary64.shortest style.tie number.magnitude).value := by
  have bounded : number.magnitude < Binary64.infinity := of_decide_eq_true finite
  have read : ∃ size, Numeral.size? (if number.isZero then ['0', '.', '0'] else
      style.writeDecimal (Binary64.shortest style.tie number.magnitude)) = some size ∧
        size.value = if number.isZero then 0 else (Binary64.shortest style.tie number.magnitude).value := by
    by_cases zero : number.isZero
    · rw [if_pos zero, if_pos zero]
      refine ⟨⟨0, -1⟩, rfl, ?_⟩
      rw [Decimal.value, Nat.cast_zero, zero_mul]
    · rw [if_neg zero, if_neg zero]
      have positive : 0 < number.magnitude := Nat.pos_of_ne_zero fun none => zero (decide_eq_true none)
      exact exists_size?_writeDecimal marked (Binary64.coefficient_shortest_pos style.tie bounded positive)
  obtain ⟨size, read, value⟩ := read
  exact ⟨⟨number.isNegative, size⟩, Numeral.read?_of_size? read number.isNegative, rfl, value⟩

end NumberStyle

private theorem Numeral.keeps_of_value {numeral : Numeral} {number : Binary64} {tie : Binary64.Tie}
    (finite : number.isFinite)
    (sign : numeral.isNegative = number.isNegative)
    (value : numeral.size.value = if number.isZero then 0 else (Binary64.shortest tie number.magnitude).value) :
    numeral.Keeps number := by
  have bounded : number.magnitude < Binary64.infinity := of_decide_eq_true finite
  have rounds : number.Rounds numeral.isNegative numeral.size.value := by
    rw [sign, value]
    split
    next zero =>
      have nothing : Decimal.value ⟨0, 0⟩ = 0 := by
        rw [Decimal.value, Nat.cast_zero, zero_mul]
      rw [← nothing, Binary64.rounds_value_iff, Decimal.magnitude_zero]
      exact (of_decide_eq_true zero).symm
    next =>
      rw [Binary64.rounds_value_iff]
      exact Binary64.magnitude_shortest tie bounded
  refine ⟨sign, ?_⟩
  intro other
  rw [Numeral.rounds_iff, Numeral.rounds_iff.mp rounds, eq_comm]

namespace Binary64

variable {number : Binary64}

private theorem eq_of_magnitude {first second : Binary64} (sign : first.isNegative = second.isNegative)
    (same : first.magnitude = second.magnitude) : first = second := by
  obtain ⟨bits⟩ := first
  obtain ⟨otherBits⟩ := second
  have limit := bits.toNat_lt
  have otherLimit := otherBits.toNat_lt
  simp only [isNegative, magnitude, decide_eq_decide, show Nat.pow 2 63 = 9223372036854775808 from rfl] at sign same
  simp only [Binary64.mk.injEq, ← UInt64.toNat_inj]
  omega

private theorem toBinary64_of_magnitude {decimal : Decimal} (unsigned : number.isNegative = false)
    (same : decimal.magnitude = number.magnitude) : decimal.toBinary64 = number := by
  have small := decimal.magnitude_le_infinity
  apply eq_of_magnitude
  · rw [unsigned]
    exact isNegative_ofMagnitude small
  · rw [← same]
    exact magnitude_ofMagnitude small

private theorem isFinite_or_isInfinite (isNumber : number.isNaN = false) : number.isFinite ∨ number.isInfinite := by
  have limit : number.magnitude ≤ infinity := Nat.le_of_not_lt (of_decide_eq_false isNumber)
  rcases Nat.lt_or_eq_of_le limit with less | equal
  · exact .inl (decide_eq_true less)
  · exact .inr (decide_eq_true equal)

private theorem toListing_infinite (infinite : number.isInfinite) :
    number.toListing = if number.isNegative then "-Infinity" else "Infinity" := by
  have isNumber : number.isNaN = false := by
    rw [isNaN, decide_eq_false_iff_not, of_decide_eq_true infinite]
    exact Nat.lt_irrefl infinity
  rw [toListing, isNumber, infinite, if_neg Bool.false_ne_true, if_pos rfl]

private theorem read?_toListing_infinite (infinite : number.isInfinite) :
    Numeral.read? number.toListing.toList = none := by
  rw [toListing_infinite infinite]
  cases number.isNegative <;> rfl

private theorem exists_keeps_toListing (finite : number.isFinite) :
    ∃ numeral, Numeral.read? number.toListing.toList = some numeral ∧ numeral.Keeps number := by
  obtain ⟨numeral, read, sign, value⟩ := NumberStyle.listing.exists_numeral rfl finite
  rw [toList_toListing finite]
  exact ⟨numeral, read, Numeral.keeps_of_value finite sign value⟩

private theorem toListing_inj {first second : Binary64} (isNumber : first.isNaN = false)
    (alsoNumber : second.isNaN = false)
    (same : first.toListing = second.toListing) : first = second := by
  rcases isFinite_or_isInfinite isNumber with finite | infinite
  · obtain ⟨numeral, read, keeps⟩ := exists_keeps_toListing finite
    rw [same] at read
    rcases isFinite_or_isInfinite alsoNumber with alsoFinite | alsoInfinite
    · obtain ⟨other, otherRead, otherKeeps⟩ := exists_keeps_toListing alsoFinite
      rw [otherRead] at read
      cases read
      exact (otherKeeps.rounds first).mp ((keeps.rounds first).mpr rfl)
    · rw [read?_toListing_infinite alsoInfinite] at read
      cases read
  · have noNumeral := read?_toListing_infinite infinite
    rw [same] at noNumeral
    rcases isFinite_or_isInfinite alsoNumber with alsoFinite | alsoInfinite
    · obtain ⟨other, otherRead, _⟩ := exists_keeps_toListing alsoFinite
      rw [otherRead] at noNumeral
      cases noNumeral
    · rw [toListing_infinite infinite, toListing_infinite alsoInfinite] at same
      apply eq_of_magnitude
      · cases sign : first.isNegative <;> cases alsoSign : second.isNegative <;> simp_all
      · exact (of_decide_eq_true infinite).trans (of_decide_eq_true alsoInfinite).symm

/-- Both texts of a finite number are numerals that name it. -/
private theorem exists_namedBy (finite : number.isFinite) :
    ∃ listing json, Numeral.read? number.toListing.toList = some listing ∧
      Numeral.read? (Json.writeNumber number) = some json ∧ number.NamedBy listing json := by
  have bounded : number.magnitude < infinity := of_decide_eq_true finite
  obtain ⟨listing, read, sign, value⟩ := NumberStyle.listing.exists_numeral rfl finite
  obtain ⟨json, jsonRead, jsonSign, jsonValue⟩ := NumberStyle.json.exists_numeral rfl finite
  rw [toList_toListing finite, Json.writeNumber, if_pos finite]
  refine ⟨listing, json, read, jsonRead, Numeral.keeps_of_value finite sign value,
    Numeral.keeps_of_value finite jsonSign jsonValue, ?_, ?_⟩
  · intro apart
    rw [value, jsonValue]
    split
    · rfl
    next nonzero =>
      have positive : 0 < number.magnitude := Nat.pos_of_ne_zero fun none => nonzero (decide_eq_true none)
      exact value_shortest_eq bounded positive fun below exponent => mt isMidway_iff.mpr (apart below exponent)
  · intro below exponent midway
    have halfway := isMidway_iff.mp midway
    have positive := halfway.positive
    have nonzero : ¬ number.isZero := fun zero => Nat.ne_of_gt positive (of_decide_eq_true zero)
    rw [value, jsonValue, if_neg nonzero, if_neg nonzero]
    exact ⟨halfway.value_shortest .up bounded positive, halfway.value_shortest .even bounded positive⟩

private theorem exists_lexeme_of_isPlain (plain : number.IsPlain) (unsigned : number.isNegative = false) :
    ∃ lexeme : Lexeme, number.toListing = .ofList lexeme.text ∧ lexeme.kind = .number ∧
      lexeme.literal = .number number := by
  have finite := plain.isFinite
  have bounded : number.magnitude < infinity := of_decide_eq_true finite
  have written : ∃ whole fraction, NumberStyle.listing.write number = Numeral.mantissa whole fraction ∧
      Numeral.IsMantissa whole fraction ∧
      Decimal.magnitude ⟨Nat.ofDigitChars 10 (whole ++ fraction) 0, -fraction.length⟩ = number.magnitude := by
    rw [NumberStyle.write_listing, unsigned, if_neg Bool.false_ne_true, List.nil_append]
    by_cases zero : number.isZero
    · rw [if_pos zero]
      have digits : ∀ char ∈ ['0'] ++ ['0'], char.isDigit := by simp
      have size : (⟨Nat.ofDigitChars 10 (['0'] ++ ['0']) 0, -(['0'].length : ℕ)⟩ : Decimal) = ⟨0, -1⟩ := rfl
      refine ⟨['0'], ['0'], rfl, ⟨List.cons_ne_nil _ _, digits, fun _ => rfl⟩, ?_⟩
      rw [size, Decimal.magnitude_zero]
      exact (of_decide_eq_true zero).symm
    · rw [if_neg zero]
      have positive : 0 < number.magnitude := Nat.pos_of_ne_zero fun none => zero (decide_eq_true none)
      have nonzero := coefficient_shortest_pos .up bounded positive
      have written := NumberStyle.exists_mantissa nonzero ((isPlain_iff finite positive).mp plain)
      rw [magnitude_shortest .up bounded] at written
      exact written
  obtain ⟨whole, fraction, spelled, isMantissa, reads⟩ := written
  refine ⟨.number whole fraction isMantissa.nonempty isMantissa.digits, ?_, rfl, ?_⟩
  · rw [← String.toList_inj, toList_toListing finite, String.toList_ofList, spelled]
    rfl
  · rw [Lexeme.literal, toBinary64_of_magnitude unsigned reads]

end Binary64

theorem scan_lexeme (firstLine : Nat) {lexeme : Lexeme} (notString : lexeme.kind ≠ .string) :
    let source := String.ofList lexeme.text
    scan firstLine source = ⟨[⟨lexeme.kind, source, lexeme.literal, firstLine, ⟨0, source.utf8ByteSize⟩⟩,
      .eof firstLine source.utf8ByteSize], []⟩ := by
  intro source
  have stop : Place.after ⟨0, firstLine⟩ lexeme.text = ⟨source.utf8ByteSize, firstLine⟩ := by
    have whole := Place.after_source firstLine source
    rw [String.toList_ofList] at whole
    rw [whole, Text.lineFeeds, List.count_eq_zero_of_not_mem (Lexeme.sameLine_text notString), Nat.add_zero]
  have stops : Piece.Stops ⟨.token lexeme.kind, lexeme.text⟩ [] := Piece.stops_nil
  have found := findings_lexeme ⟨0, firstLine⟩ stops
  have nothing (place : Place) : findings place [] = [] := by
    rw [findings, Piece.cut]
    rfl
  rw [List.append_nil, nothing] at found
  rw [scan_eq, String.toList_ofList, found, Lexeme.token, stop]
  rfl

/-- Number texts lose nothing. In a listing and in JSON a finite number keeps its sign and its bits; both
texts name one value, except in the middle between two decimals that are as short, where the listing names
the upper one and JSON the even one. Listings tell numbers apart, and one that needs neither a sign nor an
exponent is scanned as that number alone. -/
theorem number_texts_faithful :
    (∀ number : Binary64, number.isFinite → ∃ listing json, Numeral.read? number.toListing.toList = some listing ∧
      Numeral.read? (Json.writeNumber number) = some json ∧ number.NamedBy listing json) ∧
      (∀ first second : Binary64, first.isNaN = false → second.isNaN = false →
        first.toListing = second.toListing → first = second) ∧
      ∀ (firstLine : Nat) (number : Binary64), number.IsPlain → number.isNegative = false →
        scan firstLine number.toListing =
          ⟨[⟨.number, number.toListing, .number number, firstLine, ⟨0, number.toListing.utf8ByteSize⟩⟩,
            .eof firstLine number.toListing.utf8ByteSize], []⟩ := by
  refine ⟨fun number => Binary64.exists_namedBy, fun first second => Binary64.toListing_inj, ?_⟩
  intro firstLine number plain unsigned
  obtain ⟨lexeme, text, kind, literal⟩ := Binary64.exists_lexeme_of_isPlain plain unsigned
  have notString : lexeme.kind ≠ .string := by
    rw [kind]
    nofun
  have scanned := scan_lexeme firstLine notString
  rw [kind, literal, ← text] at scanned
  exact scanned

private theorem read?_quarter :
    Numeral.read? (⟨0x4310000000000001⟩ : Binary64).toListing.toList = some ⟨false, ⟨11258999068426243, -1⟩⟩ ∧
      Numeral.read? (Json.writeNumber ⟨0x4310000000000001⟩) = some ⟨false, ⟨11258999068426242, -1⟩⟩ := by
  decide +kernel

theorem listing_value_ne_json_value :
    ¬ ∀ (number : Binary64) (listing json : Numeral), number.isFinite →
      Numeral.read? number.toListing.toList = some listing → Numeral.read? (Json.writeNumber number) = some json →
        listing.size.value = json.size.value := by
  intro alike
  have same := alike _ _ _ (by decide) read?_quarter.1 read?_quarter.2
  norm_num [Decimal.value] at same

/-- It is in the middle between two decimals. -/
theorem number_texts_faithful_midway :
    (⟨0x4310000000000001⟩ : Binary64).isFinite ∧
      ∃ below exponent, (⟨0x4310000000000001⟩ : Binary64).IsMidway below exponent := by
  have finite : (⟨0x4310000000000001⟩ : Binary64).isFinite := by decide
  refine ⟨finite, ?_⟩
  obtain ⟨listing, json, read, jsonRead, named⟩ := number_texts_faithful.1 _ finite
  obtain rfl := Option.some.inj (read.symm.trans read?_quarter.1)
  obtain rfl := Option.some.inj (jsonRead.symm.trans read?_quarter.2)
  by_contra none
  have same := named.alike fun below exponent midway => none ⟨below, exponent, midway⟩
  norm_num [Decimal.value] at same

end LoxLex
