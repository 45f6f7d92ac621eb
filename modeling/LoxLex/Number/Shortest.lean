import LoxLex.Number.Decimal

/-! The shortest decimal that reads back to a given binary64 number, and of those the nearest.
For each count of digits, only the two decimals around the value can be the nearest that reads
back, so at most seventeen pairs are tried. -/

namespace LoxLex.Binary64

/-- Which neighbour is taken when both read back and lie at the same distance. -/
inductive Tie
  | up
  | even
  deriving DecidableEq

/-- The exponent of the leading decimal digit of a positive quotient. -/
def leadingExponent (numerator denominator : Nat) : Int :=
  if denominator ≤ numerator then ((Nat.toDigits 10 (numerator / denominator)).length : Int) - 1
  else -((Nat.toDigits 10 ((denominator - 1) / numerator)).length : Int)

/-- Chooses between the decimals next to a value that lies `remainder / whole` above the lower
one, among those that read back. -/
def closer? (tie : Tie) (below : Nat) (remainder whole : Nat) (readsBack : Nat → Bool) : Option Nat :=
  match readsBack below, readsBack (below + 1) with
  | false, false => none
  | true, false => some below
  | false, true => some (below + 1)
  | true, true =>
    if 2 * remainder < whole then some below
    else if whole < 2 * remainder then some (below + 1)
    else match tie with
      | .up => some (below + 1)
      | .even => some (if below % 2 = 0 then below else below + 1)

/-- The nearest decimal with all its digits at or above `10 ^ exponent` that reads back. -/
def onGrid? (tie : Tie) (magnitude : Nat) (exponent : Int) : Option Decimal :=
  let numerator := units magnitude * Nat.pow 10 (-exponent).toNat
  let denominator := Nat.pow 2 1074 * Nat.pow 10 exponent.toNat
  (closer? tie (numerator / denominator) (numerator % denominator) denominator fun coefficient =>
    Decimal.magnitude ⟨coefficient, exponent⟩ = magnitude).map (⟨·, exponent⟩)

def exact (magnitude : Nat) : Decimal := ⟨units magnitude * Nat.pow 5 1074, -1074⟩

/-- The decimal of fewest digits that reads back to a positive finite magnitude. -/
def shortest (tie : Tie) (magnitude : Nat) : Decimal :=
  let leading := leadingExponent (units magnitude) (Nat.pow 2 1074)
  let found := (List.range 17).findSome? fun extra => onGrid? tie magnitude (leading - Int.ofNat extra)
  let decimal := found.getD (exact magnitude)
  .trimZeros decimal.coefficient decimal.exponent

end LoxLex.Binary64
