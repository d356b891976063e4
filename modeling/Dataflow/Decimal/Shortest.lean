import Dataflow.Decimal.Binary
/-!
# The fewest digits that read back

Reading a decimal rounds it to the nearest double, so a double stands for an interval of decimals.
`shortest` finds the fewest digits with which some decimal lies in that interval, and among the
decimals with so many digits the one nearest to the double.  On each decimal grid only the two
neighbours of the double have to be tried: when any point of the grid lies in the interval, so does
one of these two.
-/
namespace Dataflow.Decimal

/-- The decimal `digits · 10 ^ exponent`. -/
structure Digits where
  digits : Nat
  exponent : Int
  deriving DecidableEq

/-- Which of two equally near neighbours is taken. -/
inductive Tie where
  | up
  | even
  deriving DecidableEq

/-- Whether a tie above `n` is rounded up. -/
def Tie.roundsUp : Tie → Nat → Bool
  | .up, _ => true
  | .even, n => n % 2 == 1

def digitCount (n : Nat) : Nat := (Nat.toDigits 10 n).length

/-- The `k` with `10 ^ (k - 1) ≤ num / den < 10 ^ k`, for a positive fraction. -/
def magnitude (num den : Nat) : Int :=
  if den ≤ num then digitCount (num / den)
  else
    let t := digitCount den - digitCount num
    if den ≤ num * Nat.pow 10 t then 1 - (t : Int) else -(t : Int)

/-- The decimals that read back as one double, over a common denominator. -/
structure Interval where
  low : Nat
  value : Nat
  high : Nat
  den : Nat
  /-- Whether the two ends belong to the interval. -/
  closed : Bool

/-- The interval of the double `mantissa · 2 ^ exponent`.  Its ends are half way to the neighbours,
and belong to it when the mantissa is even. -/
def Interval.ofBinary (mantissa : Nat) (exponent : Int) : Interval :=
  let (s, d) := Binary.fraction 1 (exponent - 2)
  { low := (4 * mantissa - if Binary.narrowBelow mantissa exponent then 1 else 2) * s
    value := 4 * mantissa * s
    high := (4 * mantissa + 2) * s
    den := d
    closed := mantissa % 2 == 0 }

/-- The multiple of `10 ^ unit` in the interval that is nearest to the value, if there is one. -/
def Interval.nearest? (i : Interval) (tie : Tie) (unit : Int) : Option Nat :=
  let up := Nat.pow 10 (-unit).toNat
  let den := i.den * Nat.pow 10 unit.toNat
  let below := i.value * up / den
  let rest := i.value * up % den
  let belowFits :=
    if i.closed then decide (i.low * up ≤ below * den) else decide (i.low * up < below * den)
  let aboveFits :=
    if i.closed then decide ((below + 1) * den ≤ i.high * up)
    else decide ((below + 1) * den < i.high * up)
  if belowFits && aboveFits then
    if 2 * rest < den then some below
    else if 2 * rest > den then some (below + 1)
    else if tie.roundsUp below then some (below + 1) else some below
  else if belowFits then some below
  else if aboveFits then some (below + 1)
  else none

/-- Removes the zeros at the end, at most `fuel` of them. -/
def Digits.trim : Nat → Digits → Digits
  | 0, d => d
  | fuel + 1, d =>
    if d.digits % 10 = 0 ∧ d.digits ≠ 0 then trim fuel ⟨d.digits / 10, d.exponent + 1⟩ else d

/-- Tries grids with `count`, `count + 1`, … digits; `fuel` bounds how many. -/
def Interval.search (i : Interval) (tie : Tie) (size : Int) : Nat → Nat → Digits
  | 0, count =>
    ⟨i.value * Nat.pow 10 (count - size).toNat / (i.den * Nat.pow 10 (size - count).toNat),
      size - count⟩
  | fuel + 1, count =>
    match i.nearest? tie (size - count) with
    | some n => Digits.trim 17 ⟨n, size - count⟩
    | none => i.search tie size fuel (count + 1)

/-- The shortest decimal that reads back as the positive double `mantissa · 2 ^ exponent`.
Seventeen digits always suffice. -/
def shortest (tie : Tie) (mantissa : Nat) (exponent : Int) : Digits :=
  let i := Interval.ofBinary mantissa exponent
  i.search tie (magnitude i.value i.den) 17 1

end Dataflow.Decimal
