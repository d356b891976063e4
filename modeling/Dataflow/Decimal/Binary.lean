/-!
# Doubles as exact numbers

A finite double is `± mantissa · 2 ^ exponent` with natural mantissa.  `Binary.ofFloat` takes a
double apart; what is then said about it is said in whole numbers.
-/
namespace Dataflow.Decimal

/-- A double taken apart. -/
inductive Binary where
  | nan
  | infinite (negative : Bool)
  /-- `± mantissa · 2 ^ exponent`. -/
  | finite (negative : Bool) (mantissa : Nat) (exponent : Int)
  deriving DecidableEq

namespace Binary

def ofFloat (x : Float) : Binary :=
  let bits : Nat := x.toBits.toNat
  let negative := decide (Nat.pow 2 63 ≤ bits)
  let biased : Nat := bits / Nat.pow 2 52 % Nat.pow 2 11
  let fraction : Nat := bits % Nat.pow 2 52
  if biased = 2047 then
    if fraction = 0 then .infinite negative else .nan
  else if biased = 0 then .finite negative fraction (-1074)
  else .finite negative (Nat.pow 2 52 + fraction) ((biased : Int) - 1075)

/-- The fraction that `mantissa · 2 ^ exponent` is, as numerator and denominator. -/
def fraction (mantissa : Nat) (exponent : Int) : Nat × Nat :=
  (mantissa * Nat.pow 2 exponent.toNat, Nat.pow 2 (-exponent).toNat)

/-- The whole number that remains when the fractional part is dropped.  Numbers outside of
`[low, high]` become the nearest end, and what is not a number becomes zero. -/
def truncate (low high : Int) : Binary → Int
  | .nan => 0
  | .infinite negative => if negative then low else high
  | .finite negative m q =>
    let (num, den) := fraction m q
    let n : Int := (num / den : Nat)
    max low (min high (if negative then -n else n))

/-- A mantissa whose lower neighbour is only half as far away as its upper one. -/
def narrowBelow (mantissa : Nat) (exponent : Int) : Bool :=
  mantissa = Nat.pow 2 52 && decide (exponent > -1074)

end Binary
end Dataflow.Decimal
