import LoxLex.Number.Binary64

/-! Decimal fractions: the values that numerals stand for. -/

namespace LoxLex

/-- The number `coefficient * 10 ^ exponent`. -/
structure Decimal where
  coefficient : Nat
  exponent : Int
  deriving DecidableEq

namespace Decimal

def numerator (decimal : Decimal) : Nat := decimal.coefficient * Nat.pow 10 decimal.exponent.toNat

def denominator (decimal : Decimal) : Nat := Nat.pow 10 (-decimal.exponent).toNat

def magnitude (decimal : Decimal) : Nat := Binary64.nearest decimal.numerator decimal.denominator

def toBinary64 (decimal : Decimal) : Binary64 := .ofMagnitude decimal.magnitude

def trimZeros (coefficient : Nat) (exponent : Int) : Decimal :=
  if 0 < coefficient ∧ coefficient % 10 = 0 then trimZeros (coefficient / 10) (exponent + 1)
  else ⟨coefficient, exponent⟩
termination_by coefficient

/-- Reads digits, or digits, a point and digits. Nothing else is a numeral. -/
def ofNumeral? (text : List Char) : Option Decimal :=
  let whole := text.takeWhile Char.isDigit
  if whole.isEmpty then none else
  match text.dropWhile Char.isDigit with
  | [] => some ⟨Nat.ofDigitChars 10 whole 0, 0⟩
  | point :: fraction =>
    if point = '.' && !fraction.isEmpty && fraction.all Char.isDigit then
      some ⟨Nat.ofDigitChars 10 (whole ++ fraction) 0, -(fraction.length : Int)⟩
    else none

end Decimal

def Binary64.ofNumeral? (text : List Char) : Option Binary64 :=
  (Decimal.ofNumeral? text).map Decimal.toBinary64

end LoxLex
