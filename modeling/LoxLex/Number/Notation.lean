import LoxLex.Number.Shortest

/-! How numbers are written: in plain notation within a range of exponents, with a mark and an
exponent outside it. -/

namespace LoxLex

structure NumberStyle where
  tie : Binary64.Tie
  /-- The least exponent of a leading digit in plain notation. -/
  least : Int
  /-- The first exponent above those in plain notation. -/
  limit : Int
  /-- The letter between mantissa and exponent. -/
  mark : Char
  /-- Whether an exponent that is not negative has a plus. -/
  plus : Bool
  /-- Whether a mantissa of one digit is given a fraction. -/
  pointZero : Bool

namespace NumberStyle

/-- Digits with the point where the leading digit's exponent puts it, and a digit on each side. -/
def plain (digits : List Char) (leading : Int) : List Char :=
  if leading < 0 then '0' :: '.' :: (List.replicate (-leading - 1).toNat '0' ++ digits)
  else
    let whole := leading.toNat + 1
    let padded := digits ++ List.replicate (whole - digits.length) '0'
    let fraction := padded.drop whole
    padded.take whole ++ '.' :: (if fraction.isEmpty then ['0'] else fraction)

/-- One digit, the others after a point, and the exponent of the first. -/
def scientific (style : NumberStyle) (digits : List Char) (leading : Int) : List Char :=
  let fraction := if digits.length = 1 && style.pointZero then ['0'] else digits.drop 1
  let mantissa := digits.take 1 ++ if fraction.isEmpty then [] else '.' :: fraction
  let sign := if leading < 0 then ['-'] else if style.plus then ['+'] else []
  mantissa ++ style.mark :: (sign ++ Nat.toDigits 10 leading.natAbs)

def writeDecimal (style : NumberStyle) (decimal : Decimal) : List Char :=
  let digits := Nat.toDigits 10 decimal.coefficient
  let leading := decimal.exponent + digits.length - 1
  if style.least ≤ leading && leading < style.limit then plain digits leading
  else style.scientific digits leading

/-- The text of a finite number. Zero keeps its sign. -/
def write (style : NumberStyle) (number : Binary64) : List Char :=
  let size :=
    if number.isZero then ['0', '.', '0']
    else style.writeDecimal (Binary64.shortest style.tie number.magnitude)
  if number.isNegative then '-' :: size else size

/-- Token listings: plain from a thousandth up to ten million, otherwise with a capital
mark and always a fraction. -/
def listing : NumberStyle := ⟨.up, -3, 7, 'E', false, true⟩

/-- JSON: plain up to five places after the point and sixteen before it, otherwise with a small
mark and a signed exponent. -/
def json : NumberStyle := ⟨.even, -5, 16, 'e', true, false⟩

end NumberStyle

def Binary64.toListing (number : Binary64) : String :=
  if number.isNaN then "NaN"
  else if number.isInfinite then if number.isNegative then "-Infinity" else "Infinity"
  else .ofList (NumberStyle.listing.write number)

end LoxLex
