/-! The binary64 floating-point format, as words of 64 bits. Finite values are whole multiples of
the unit `2 ^ (-1074)`, so everything about them is arithmetic of natural numbers. -/

namespace LoxLex

structure Binary64 where
  bits : UInt64
  deriving DecidableEq

namespace Binary64

/-- The word without its sign bit. Magnitudes are ordered as the values they stand for. -/
def magnitude (number : Binary64) : Nat := number.bits.toNat % Nat.pow 2 63

def isNegative (number : Binary64) : Bool := Nat.pow 2 63 ≤ number.bits.toNat

/-- The first magnitude that is not finite; the ones above it are not numbers. -/
def infinity : Nat := 2047 * Nat.pow 2 52

def isNaN (number : Binary64) : Bool := infinity < number.magnitude

def isInfinite (number : Binary64) : Bool := number.magnitude = infinity

def isFinite (number : Binary64) : Bool := number.magnitude < infinity

def isZero (number : Binary64) : Bool := number.magnitude = 0

def nan : Binary64 := ⟨0x7FF8000000000000⟩

def ofMagnitude (magnitude : Nat) : Binary64 := ⟨UInt64.ofNat magnitude⟩

/-- How many units of `2 ^ (-1074)` a finite magnitude is worth. The low 52 bits are the fraction;
below `2 ^ 52` they are all there is, above it a leading one is implied. -/
def units (magnitude : Nat) : Nat :=
  if magnitude < Nat.pow 2 52 then magnitude
  else (Nat.pow 2 52 + magnitude % Nat.pow 2 52) * Nat.pow 2 (magnitude / Nat.pow 2 52 - 1)

/-- Equality of numbers: one that is not a number differs from itself, and the two zeros agree. -/
def same (first second : Binary64) : Bool :=
  !first.isNaN && !second.isNaN && (first = second || first.isZero && second.isZero)

/-- The whole number nearest to a quotient, the even one of two at the same distance. -/
def roundDiv (numerator denominator : Nat) : Nat :=
  let below := numerator / denominator
  let twice := 2 * (numerator % denominator)
  if twice < denominator || (twice = denominator && below % 2 = 0) then below else below + 1

/-- The magnitude nearest to a quotient, with ties to the even one. A quotient of at least
`2 ^ 53` units keeps 53 bits, and what is too large is infinite. -/
def nearest (numerator denominator : Nat) : Nat :=
  let scaled := numerator * Nat.pow 2 1074
  let dropped := (scaled / denominator).log2 - 52
  min (dropped * Nat.pow 2 52 + roundDiv scaled (denominator * Nat.pow 2 dropped)) infinity

end Binary64

end LoxLex
