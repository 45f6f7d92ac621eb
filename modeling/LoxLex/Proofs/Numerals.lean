import LoxLex.Number.Notation
import LoxLex.Proofs.Findings
import LoxLex.Proofs.Rounding

/-! Reading numbers back. A numeral may have a sign, a fraction and an exponent behind a mark; what is
written for a finite number is one, and stands for that number bit by bit. -/

namespace LoxLex

/-- The number that a numeral names. Zero may be negative. -/
structure Numeral where
  isNegative : Bool
  size : Decimal
  deriving DecidableEq

namespace Numeral

def toBinary64 (numeral : Numeral) : Binary64 :=
  ⟨UInt64.ofNat (numeral.size.magnitude + if numeral.isNegative then Nat.pow 2 63 else 0)⟩

/-- Whole numbers have neither a sign nor a fraction. -/
def toNat? (numeral : Numeral) : Option Nat :=
  if numeral.isNegative ∨ numeral.size.exponent ≠ 0 then none else some numeral.size.coefficient

def digits? (text : List Char) : Option Nat :=
  if !text.isEmpty && text.all Char.isDigit then some (Nat.ofDigitChars 10 text 0) else none

def exponent? : List Char → Option Int
  | [] => none
  | first :: rest =>
    if first = '-' then (digits? rest).map fun value : Nat => -(value : Int)
    else (digits? (if first = '+' then rest else first :: rest)).map fun value : Nat => (value : Int)

def isMark (char : Char) : Bool := char = 'e' || char = 'E'

/-- Whether there is a zero in front of other digits. -/
def hasSpareZero (text : List Char) : Bool := text.head? = some '0' && text.tail.head?.any Char.isDigit

/-- What an exponent behind a mark makes of a decimal. -/
def raise? (decimal : Decimal) : List Char → Option Decimal
  | [] => some decimal
  | _ :: power => (exponent? power).map fun exponent => ⟨decimal.coefficient, decimal.exponent + exponent⟩

/-- Digits, perhaps a point and digits, and perhaps a mark and an exponent. -/
def size? (text : List Char) : Option Decimal :=
  let mantissa := text.takeWhile fun char => !isMark char
  if hasSpareZero mantissa then none
  else (Decimal.ofNumeral? mantissa).bind fun decimal => raise? decimal (text.dropWhile fun char => !isMark char)

def read? (text : List Char) : Option Numeral :=
  if text.head? = some '-' then (size? text.tail).map fun size => ⟨true, size⟩
  else (size? text).map fun size => ⟨false, size⟩

/-- The characters that numerals are made of. -/
def mayHold (char : Char) : Bool := char.isDigit || char = '.' || char = '-' || char = '+' || isMark char

end Numeral

theorem toDigits_digits (value : Nat) : ∀ char ∈ Nat.toDigits 10 value, char.isDigit :=
  fun _ member => Nat.isDigit_of_mem_toDigits (by decide) (by decide) member

/-- The digits of a positive number begin with another digit than zero. -/
theorem head_toDigits_ne_zero {value : Nat} (positive : 0 < value) :
    (Nat.toDigits 10 value).head? ≠ some '0' := by
  induction value using Nat.strongRecOn with
  | ind value ih =>
    rw [Nat.toDigits_eq_if (by decide)]
    split
    next small =>
      intro first
      have zero : value.digitChar = '0' := by simpa using first
      have code := Nat.toNat_digitChar_of_lt_ten small
      rw [zero, show '0'.toNat = 48 from rfl] at code
      omega
    next large =>
      obtain ⟨first, more, spelled⟩ := List.exists_cons_of_ne_nil (Nat.toDigits_ne_nil (n := value / 10) (b := 10))
      have leading := ih (value / 10) (by omega) (by omega)
      rw [spelled] at leading ⊢
      exact leading

namespace Numeral

private theorem not_isMark_of_isDigit {char : Char} (digit : char.isDigit) : isMark char = false := by
  rw [Bool.eq_false_iff]
  intro mark
  rcases (Bool.or_eq_true _ _).mp mark with small | capital
  · rw [of_decide_eq_true small] at digit
    exact absurd digit (by decide)
  · rw [of_decide_eq_true capital] at digit
    exact absurd digit (by decide)

/-- Digits and, if there are more behind a point, the point and those. -/
def mantissa (whole fraction : List Char) : List Char := whole ++ if fraction = [] then [] else '.' :: fraction

private theorem mantissa_of_ne_nil (whole : List Char) {fraction : List Char} (more : fraction ≠ []) :
    mantissa whole fraction = whole ++ '.' :: fraction := by
  rw [mantissa, if_neg more]

/-- Digits before the point, with no spare zero, and behind it. -/
structure IsMantissa (whole fraction : List Char) : Prop where
  nonempty : whole ≠ []
  digits : ∀ char ∈ whole ++ fraction, char.isDigit
  unspared : whole.head? = some '0' → whole.tail = []

namespace IsMantissa

variable {whole fraction : List Char} (written : IsMantissa whole fraction)

include written

private theorem not_isMark : ∀ char ∈ mantissa whole fraction, !isMark char := by
  intro char member
  obtain ⟨before, behind⟩ := List.forall_mem_append.mp written.digits
  rcases List.mem_append.mp member with inWhole | later
  · simp [not_isMark_of_isDigit (before char inWhole)]
  · split at later
    · cases later
    · rcases List.mem_cons.mp later with rfl | inFraction
      · rfl
      · simp [not_isMark_of_isDigit (behind char inFraction)]

private theorem hasSpareZero_eq_false : hasSpareZero (mantissa whole fraction) = false := by
  obtain ⟨nonempty, _, unspared⟩ := written
  obtain ⟨first, rest, rfl⟩ := List.exists_cons_of_ne_nil nonempty
  by_cases zero : first = '0'
  · obtain rfl : rest = [] := unspared (congrArg some zero)
    by_cases none : fraction = [] <;> simp [hasSpareZero, mantissa, none]
  · simp [hasSpareZero, mantissa, zero]

private theorem size? {behind : List Char} (ends : Halts (fun char => !isMark char) behind) :
    size? (mantissa whole fraction ++ behind) =
      raise? ⟨Nat.ofDigitChars 10 (whole ++ fraction) 0, -fraction.length⟩ behind := by
  rw [Numeral.size?, takeWhile_run written.not_isMark ends, dropWhile_run written.not_isMark ends,
    written.hasSpareZero_eq_false, mantissa, Decimal.ofNumeral?_written written.nonempty written.digits]
  rfl

end IsMantissa

private theorem digits?_eq_some {text : List Char} (nonempty : text ≠ []) (digits : ∀ char ∈ text, char.isDigit) :
    digits? text = some (Nat.ofDigitChars 10 text 0) := by
  have all := List.all_eq_true.mpr digits
  simp [digits?, nonempty, all]

private theorem digits?_toDigits (value : Nat) : digits? (Nat.toDigits 10 value) = some value := by
  rw [digits?_eq_some Nat.toDigits_ne_nil (toDigits_digits value), Nat.ofDigitChars_ten_toDigits]

private theorem exponent?_toDigits (value : Nat) : exponent? (Nat.toDigits 10 value) = some (value : Int) := by
  have digits := toDigits_digits value
  have read := digits?_toDigits value
  obtain ⟨first, rest, spelled⟩ := List.exists_cons_of_ne_nil (Nat.toDigits_ne_nil (n := value) (b := 10))
  rw [spelled] at digits read ⊢
  have digit := digits first List.mem_cons_self
  have unsigned : first ≠ '-' ∧ first ≠ '+' := by
    constructor <;> rintro rfl <;> exact absurd digit (by decide)
  rw [exponent?, if_neg unsigned.1, if_neg unsigned.2, read]
  rfl

private theorem exponent?_written (exponent : Int) (plus : Bool) :
    exponent? ((if exponent < 0 then ['-'] else if plus then ['+'] else []) ++
      Nat.toDigits 10 exponent.natAbs) = some exponent := by
  have read := digits?_toDigits exponent.natAbs
  split
  next negative =>
    have size : -(exponent.natAbs : Int) = exponent := by omega
    rw [List.singleton_append, exponent?, if_pos rfl, read, Option.map_some, size]
  next natural =>
    have size : (exponent.natAbs : Int) = exponent := by omega
    split
    · rw [List.singleton_append, exponent?, if_neg (by decide), if_pos rfl, read, Option.map_some, size]
    · rw [List.nil_append, exponent?_toDigits, size]

private theorem ofDigitChars_pad (value zeros : Nat) :
    Nat.ofDigitChars 10 (Nat.toDigits 10 value ++ List.replicate zeros '0') 0 = value * Nat.pow 10 zeros := by
  rw [Nat.ofDigitChars_append, Nat.ofDigitChars_ten_toDigits, Nat.ofDigitChars_replicate_zero]
  exact Nat.mul_comm _ value

/-- With zeros around them, digits that do not begin with a zero are a mantissa; a zero in front of them
is the only one before the point. -/
theorem isMantissa_of_padded {digits whole fraction : List Char} {before behind : Nat} (nonempty : digits ≠ [])
    (inside : ∀ char ∈ digits, char.isDigit) (first : digits.head? ≠ some '0') (begun : whole ≠ [])
    (front : before = 0 ∨ whole = ['0'])
    (padded : whole ++ fraction = List.replicate before '0' ++ (digits ++ List.replicate behind '0')) :
    IsMantissa whole fraction := by
  refine ⟨begun, ?_, ?_⟩
  · have zeros (count : Nat) : ∀ char ∈ List.replicate count '0', char.isDigit := by
      intro char member
      rw [List.eq_of_mem_replicate member]
      rfl
    rw [padded]
    exact List.forall_mem_append.mpr ⟨zeros before, List.forall_mem_append.mpr ⟨inside, zeros behind⟩⟩
  · intro zero
    rcases front with rfl | rfl
    · -- Then the digits begin with that zero.
      obtain ⟨digit, rest, rfl⟩ := List.exists_cons_of_ne_nil begun
      obtain ⟨leading, more, rfl⟩ := List.exists_cons_of_ne_nil nonempty
      have same : digit = leading := (List.cons.inj padded).1
      rw [same] at zero
      exact (first zero).elim
    · rfl

private theorem isMantissa_of_append {value zeros : Nat} (positive : 0 < value) {whole fraction : List Char}
    (nonempty : whole ≠ []) (padded : whole ++ fraction = Nat.toDigits 10 value ++ List.replicate zeros '0') :
    IsMantissa whole fraction :=
  isMantissa_of_padded Nat.toDigits_ne_nil (toDigits_digits value) (head_toDigits_ne_zero positive) nonempty
    (.inl (Eq.refl 0)) padded

/-- Digits with a point among them or beside them. Zeros are put only where the point is not among the
digits: up to it in front of them, or up to it and one more behind them. -/
structure Laid (digits whole fraction : List Char) (before behind : Nat) : Prop where
  padded : whole ++ fraction = List.replicate before '0' ++ (digits ++ List.replicate behind '0')
  begun : whole ≠ []
  ended : fraction ≠ []
  front : before = 0 ∨ whole = ['0']
  back : behind = 0 ∨ fraction = ['0']

theorem exists_laid_plain {digits : List Char} (nonempty : digits ≠ []) (leading : Int) :
    ∃ whole fraction before behind, NumberStyle.plain digits leading = whole ++ '.' :: fraction ∧
      Laid digits whole fraction before behind ∧ (fraction.length : Int) = digits.length + behind - 1 - leading := by
  have some_digit : 0 < digits.length := List.length_pos_iff.mpr nonempty
  unfold NumberStyle.plain
  split
  next small =>
    let zeros := (-leading - 1).toNat
    refine ⟨['0'], _, zeros + 1, 0, rfl, ⟨?_, List.cons_ne_nil _ _, ?_, .inr rfl, .inl rfl⟩, ?_⟩
    · rw [List.replicate_zero, List.append_nil, List.replicate_succ]
      rfl
    · exact List.append_ne_nil_of_right_ne_nil _ nonempty
    · rw [List.length_append, List.length_replicate]
      omega
  next large =>
    let whole := leading.toNat + 1
    let padded := digits ++ List.replicate (whole - digits.length) '0'
    have size : padded.length = max digits.length whole := by
      simp only [padded, List.length_append, List.length_replicate]
      omega
    have begun : padded.take whole ≠ [] := by
      rw [← List.length_pos_iff, List.length_take]
      omega
    change ∃ front back before behind,
      padded.take whole ++ '.' :: (if (padded.drop whole).isEmpty then ['0'] else padded.drop whole) =
        front ++ '.' :: back ∧ Laid digits front back before behind ∧
          (back.length : Int) = digits.length + behind - 1 - leading
    by_cases none : padded.drop whole = []
    · have longer := List.drop_eq_nil_iff.mp none
      refine ⟨padded.take whole, ['0'], 0, whole - digits.length + 1, ?_,
        ⟨?_, begun, List.cons_ne_nil _ _, .inl rfl, .inr rfl⟩, ?_⟩
      · rw [none]
        rfl
      · rw [List.take_of_length_le longer, List.replicate_succ', ← List.append_assoc digits]
        rfl
      · rw [List.length_singleton]
        omega
    · have shorter := mt List.drop_eq_nil_iff.mpr none
      have noZeros : whole - digits.length = 0 := by omega
      refine ⟨padded.take whole, padded.drop whole, 0, 0, ?_, ⟨?_, begun, none, .inl rfl, .inl rfl⟩, ?_⟩
      · rw [if_neg (by simpa using none)]
      · rw [List.take_append_drop]
        simp only [padded, noZeros]
        rfl
      · rw [List.length_drop]
        omega

/-- Digits around a point and the power of ten behind them name a decimal, with some zeros more. -/
structure Names (whole fraction : List Char) (power : Int) (decimal : Decimal) (zeros : Nat) : Prop where
  isMantissa : IsMantissa whole fraction
  coefficient : Nat.ofDigitChars 10 (whole ++ fraction) 0 = decimal.coefficient * Nat.pow 10 zeros
  exponent : power - fraction.length = decimal.exponent - zeros

variable {decimal : Decimal} (positive : 0 < decimal.coefficient)

include positive

private theorem names_of_append {zeros : Nat} {power : Int} {whole fraction : List Char} (nonempty : whole ≠ [])
    (padded : whole ++ fraction = Nat.toDigits 10 decimal.coefficient ++ List.replicate zeros '0')
    (exponent : power - fraction.length = decimal.exponent - zeros) :
    Names whole fraction power decimal zeros :=
  ⟨isMantissa_of_append positive nonempty padded, by rw [padded, ofDigitChars_pad], exponent⟩

theorem exists_names_plain :
    let digits := Nat.toDigits 10 decimal.coefficient
    ∃ whole fraction zeros,
      NumberStyle.plain digits (decimal.exponent + digits.length - 1) = mantissa whole fraction ∧
        Names whole fraction 0 decimal zeros := by
  intro digits
  obtain ⟨whole, fraction, before, behind, written, laid, point⟩ :=
    exists_laid_plain (Nat.toDigits_ne_nil (n := decimal.coefficient)) (decimal.exponent + digits.length - 1)
  refine ⟨whole, fraction, behind, ?_, ?_, ?_, ?_⟩
  · rw [written, mantissa_of_ne_nil _ laid.ended]
  · exact isMantissa_of_padded Nat.toDigits_ne_nil (toDigits_digits _) (head_toDigits_ne_zero positive) laid.begun
      laid.front laid.padded
  · rw [laid.padded, Nat.ofDigitChars_append, Nat.ofDigitChars_replicate_zero, Nat.mul_zero, ofDigitChars_pad]
  · change (fraction.length : Int) = digits.length + behind - 1 - (decimal.exponent + digits.length - 1) at point
    omega

private theorem exists_names_scientific (style : NumberStyle) :
    let digits := Nat.toDigits 10 decimal.coefficient
    let leading := decimal.exponent + digits.length - 1
    ∃ whole fraction zeros power,
      style.scientific digits leading = mantissa whole fraction ++ style.mark :: power ∧
        exponent? power = some leading ∧ Names whole fraction leading decimal zeros := by
  intro digits leading
  have some_digit : 0 < digits.length := Nat.length_toDigits_pos
  have nonempty : digits.take 1 ≠ [] := by
    rw [← List.length_pos_iff, List.length_take]
    omega
  let fraction := if digits.length = 1 && style.pointZero then ['0'] else digits.drop 1
  have written (zeros : Nat) (names : Names (digits.take 1) fraction leading decimal zeros) :
      ∃ whole fraction zeros power,
        style.scientific digits leading = mantissa whole fraction ++ style.mark :: power ∧
          exponent? power = some leading ∧ Names whole fraction leading decimal zeros := by
    refine ⟨digits.take 1, fraction, zeros, _, ?_, exponent?_written leading style.plus, names⟩
    simp only [NumberStyle.scientific, mantissa, fraction, List.isEmpty_iff]
  by_cases point : digits.length = 1 && style.pointZero
  · have single : digits.length = 1 := by
      simp only [Bool.and_eq_true, decide_eq_true_eq] at point
      exact point.1
    have padded : fraction = ['0'] := if_pos point
    apply written 1
    refine names_of_append positive nonempty ?_ ?_
    · rw [padded, List.take_of_length_le (Nat.le_of_eq single)]
      rfl
    · rw [padded, List.length_singleton]
      omega
  · have rest : fraction = digits.drop 1 := if_neg point
    apply written 0
    refine names_of_append positive nonempty ?_ ?_
    · rw [rest, List.take_append_drop]
      exact (List.append_nil _).symm
    · rw [rest, List.length_drop]
      omega

/-- What is written for a positive decimal reads as the same value. -/
theorem size?_writeDecimal {style : NumberStyle} (marked : isMark style.mark) :
    ∃ zeros : Nat, size? (style.writeDecimal decimal) =
      some ⟨decimal.coefficient * Nat.pow 10 zeros, decimal.exponent - zeros⟩ := by
  unfold NumberStyle.writeDecimal
  dsimp only
  split
  · obtain ⟨whole, fraction, zeros, written, names⟩ := exists_names_plain positive
    have read := names.isMantissa.size? halts_nil
    rw [List.append_nil] at read
    refine ⟨zeros, ?_⟩
    rw [written, read, raise?, names.coefficient, ← names.exponent, Int.zero_sub]
  · obtain ⟨whole, fraction, zeros, sign, written, power, names⟩ := exists_names_scientific positive style
    refine ⟨zeros, ?_⟩
    rw [written, names.isMantissa.size? (halts_cons.mpr (by simp [marked])), raise?, power, Option.map_some,
      names.coefficient, ← names.exponent]
    simp [Int.sub_eq_add_neg, Int.add_comm]

omit positive

private theorem size?_negative (text : List Char) : size? ('-' :: text) = none := by
  have mantissa : ('-' :: text).takeWhile (fun char => !isMark char) =
      '-' :: text.takeWhile fun char => !isMark char := rfl
  rw [size?, mantissa]
  rfl

/-- The sign is what is not part of the size. -/
theorem read?_of_size? {text : List Char} {size : Decimal} (read : size? text = some size) (isNegative : Bool) :
    read? (if isNegative then '-' :: text else text) = some ⟨isNegative, size⟩ := by
  cases isNegative with
  | true => exact (if_pos rfl).trans (congrArg (Option.map (Numeral.mk true)) read)
  | false =>
    have unsigned : text.head? ≠ some '-' := by
      intro sign
      obtain ⟨rest, rfl⟩ := List.head?_eq_some_iff.mp sign
      rw [size?_negative] at read
      cases read
    exact (if_neg unsigned).trans (congrArg (Option.map (Numeral.mk false)) read)

theorem toBinary64_of_magnitude {number : Binary64} {size : Decimal} (same : size.magnitude = number.magnitude) :
    toBinary64 ⟨number.isNegative, size⟩ = number := by
  obtain ⟨bits⟩ := number
  have limit := bits.toNat_lt
  simp only [toBinary64, same, Binary64.isNegative, decide_eq_true_eq, Binary64.mk.injEq, ← UInt64.toNat_inj,
    UInt64.toNat_ofNat', Binary64.magnitude, Nat.pow_eq]
  split <;> omega

/-- What is written for a finite number is a numeral for that number. -/
theorem exists_read?_write (style : NumberStyle) (marked : isMark style.mark) {number : Binary64}
    (finite : number.isFinite) :
    ∃ numeral, read? (style.write number) = some numeral ∧ numeral.toBinary64 = number := by
  obtain ⟨size, read, value⟩ : ∃ size, size? (if number.isZero then ['0', '.', '0'] else
      style.writeDecimal (Binary64.shortest style.tie number.magnitude)) = some size ∧
        size.magnitude = number.magnitude := by
    have bounded : number.magnitude < Binary64.infinity := of_decide_eq_true finite
    split
    next zero =>
      have digits : ∀ char ∈ ['0'] ++ ['0'], char.isDigit := by simp
      have written : IsMantissa ['0'] ['0'] := ⟨nofun, digits, fun _ => rfl⟩
      refine ⟨⟨0, -1⟩, written.size? halts_nil, ?_⟩
      rw [Decimal.magnitude_zero]
      exact (of_decide_eq_true zero).symm
    next nonzero =>
      have positive : 0 < number.magnitude := Nat.pos_of_ne_zero (by simpa [Binary64.isZero] using nonzero)
      obtain ⟨zeros, read⟩ := size?_writeDecimal
        (Binary64.coefficient_shortest_pos style.tie bounded positive) marked
      refine ⟨_, read, ?_⟩
      rw [Decimal.magnitude_shift, Binary64.magnitude_shortest style.tie bounded]
  exact ⟨⟨number.isNegative, size⟩, read?_of_size? read number.isNegative, toBinary64_of_magnitude value⟩

theorem read?_toDigits (value : Nat) : read? (Nat.toDigits 10 value) = some ⟨false, ⟨value, 0⟩⟩ := by
  have written : IsMantissa (Nat.toDigits 10 value) [] := by
    rcases Nat.eq_zero_or_pos value with rfl | positive
    · exact ⟨nofun, List.append_nil _ ▸ toDigits_digits 0, fun _ => rfl⟩
    · have padded : Nat.toDigits 10 value ++ [] = Nat.toDigits 10 value ++ List.replicate 0 '0' := rfl
      exact isMantissa_of_append positive Nat.toDigits_ne_nil padded
  have read := written.size? halts_nil
  rw [mantissa, if_pos rfl, List.append_nil, List.append_nil, Nat.ofDigitChars_ten_toDigits] at read
  exact read?_of_size? read false

end Numeral

/-- The texts that are numerals for a decimal begin with a digit and have digits and points only. -/
private theorem Decimal.exists_of_ofNumeral? {text : List Char} {decimal : Decimal}
    (read : ofNumeral? text = some decimal) :
    (∃ first rest, text = first :: rest ∧ first.isDigit) ∧ ∀ char ∈ text, char.isDigit ∨ char = '.' := by
  have whole : text.takeWhile Char.isDigit ++ text.dropWhile Char.isDigit = text :=
    List.takeWhile_append_dropWhile
  unfold ofNumeral? at read
  dsimp only at read
  split at read
  · cases read
  next nonempty =>
    obtain ⟨first, run, begins⟩ := List.exists_cons_of_ne_nil (mt List.isEmpty_iff.mpr nonempty)
    have digit : first.isDigit := holds_of_mem_takeWhile (begins ▸ List.mem_cons_self)
    have spelled : text = first :: (run ++ text.dropWhile Char.isDigit) := by
      rw [begins] at whole
      exact whole.symm
    refine ⟨⟨first, _, spelled, digit⟩, ?_⟩
    intro char member
    rw [← whole] at member
    rcases List.mem_append.mp member with before | behind
    · exact .inl (holds_of_mem_takeWhile before)
    split at read
    next none =>
      rw [none] at behind
      cases behind
    next point fraction spelled =>
      split at read
      next holds =>
        simp only [Bool.and_eq_true, decide_eq_true_eq, List.all_eq_true] at holds
        rw [spelled] at behind
        rcases List.mem_cons.mp behind with rfl | later
        · exact .inr holds.1.1
        · exact .inl (holds.2 char later)
      · cases read

namespace Numeral

private theorem digits_of_digits? {text : List Char} {value : Nat} (read : digits? text = some value) :
    ∀ char ∈ text, char.isDigit := by
  unfold digits? at read
  split at read
  next holds =>
    simp only [Bool.and_eq_true, List.all_eq_true] at holds
    exact holds.2
  · cases read

private theorem mem_of_exponent? {text : List Char} {exponent : Int} (read : exponent? text = some exponent) :
    ∀ char ∈ text, char.isDigit ∨ char = '-' ∨ char = '+' := by
  cases text with
  | nil => cases read
  | cons first rest =>
    rw [exponent?] at read
    split at read
    next minus =>
      obtain ⟨value, digits, _⟩ := Option.map_eq_some_iff.mp read
      intro char member
      rcases List.mem_cons.mp member with rfl | later
      · exact .inr (.inl minus)
      · exact .inl (digits_of_digits? digits char later)
    next =>
      obtain ⟨value, digits, _⟩ := Option.map_eq_some_iff.mp read
      intro char member
      split at digits
      next plus =>
        rcases List.mem_cons.mp member with rfl | later
        · exact .inr (.inr plus)
        · exact .inl (digits_of_digits? digits char later)
      next => exact .inl (digits_of_digits? digits char member)

private theorem mayHold_of_size? {text : List Char} {size : Decimal} (read : size? text = some size) :
    (∃ first rest, text = first :: rest ∧ first.isDigit) ∧ ∀ char ∈ text, mayHold char := by
  have whole : text.takeWhile (fun char => !isMark char) ++ text.dropWhile (fun char => !isMark char) = text :=
    List.takeWhile_append_dropWhile
  have ends : Halts (fun char => !isMark char) (text.dropWhile fun char => !isMark char) := halts_dropWhile text
  unfold size? at read
  dsimp only at read
  split at read
  · cases read
  obtain ⟨decimal, mantissa, raised⟩ := Option.bind_eq_some_iff.mp read
  obtain ⟨⟨first, run, begins, digit⟩, inside⟩ := Decimal.exists_of_ofNumeral? mantissa
  have spelled : text = first :: (run ++ text.dropWhile fun char => !isMark char) := by
    rw [begins] at whole
    exact whole.symm
  refine ⟨⟨first, _, spelled, digit⟩, ?_⟩
  intro char member
  rw [← whole] at member
  rcases List.mem_append.mp member with before | behind
  · rcases inside char before with digit | rfl
    · simp [mayHold, digit]
    · rfl
  · cases last : text.dropWhile fun char => !isMark char with
    | nil =>
      rw [last] at behind
      cases behind
    | cons mark power =>
      rw [last] at behind raised ends
      obtain ⟨exponent, written, _⟩ := Option.map_eq_some_iff.mp raised
      rcases List.mem_cons.mp behind with rfl | later
      · have marked : isMark char = true := by simpa using halts_cons.mp ends
        simp [mayHold, marked]
      · rcases mem_of_exponent? written char later with digit | rfl | rfl
        · simp [mayHold, digit]
        · rfl
        · rfl

/-- A numeral begins with its sign or a digit, and has no characters but those of numerals. -/
theorem exists_of_read? {text : List Char} {numeral : Numeral} (read : read? text = some numeral) :
    ∃ first rest, text = first :: rest ∧ (first = '-' ∨ first.isDigit) ∧ ∀ char ∈ text, mayHold char := by
  unfold read? at read
  split at read
  next sign =>
    obtain ⟨rest, rfl⟩ := List.head?_eq_some_iff.mp sign
    obtain ⟨size, found, _⟩ := Option.map_eq_some_iff.mp read
    obtain ⟨_, inside⟩ := mayHold_of_size? found
    exact ⟨'-', rest, rfl, .inl rfl, List.forall_mem_cons.mpr ⟨rfl, inside⟩⟩
  next =>
    obtain ⟨size, found, _⟩ := Option.map_eq_some_iff.mp read
    obtain ⟨⟨first, rest, begins, digit⟩, inside⟩ := mayHold_of_size? found
    exact ⟨first, rest, begins, .inr digit, inside⟩

end Numeral

end LoxLex
