import Dataflow.Decimal.Shortest
/-!
# Writing doubles

A `Notation` collects the decisions that a text format makes about doubles; `Notation.write` writes
a double in it with the fewest digits that read back.  `fixed` writes a given number of decimal
places instead.
-/
namespace Dataflow.Decimal

/-- What a text format decides about doubles. -/
structure Notation where
  /-- The positions of the decimal point, relative to the first digit, that are written out without
  an exponent; all of them when absent. -/
  positional : Option (Int × Int)
  /-- What follows a whole number that is written without an exponent. -/
  wholeMark : String
  /-- The sign of an exponent that is not negative. -/
  exponentPlus : String := ""
  tie : Tie
  nan : String
  infinity : String

def zeros (n : Nat) : String := String.ofList (List.replicate n '0')

/-- The decimal digits of a natural number. -/
def digitsText (n : Nat) : String := String.ofList (Nat.toDigits 10 n)

/-- Writes a decimal without exponent. -/
def Digits.positional (d : Digits) (wholeMark : String) : String :=
  let text := Nat.toDigits 10 d.digits
  let point := (text.length : Int) + d.exponent
  if 0 ≤ d.exponent then
    String.ofList text ++ zeros d.exponent.toNat ++ wholeMark
  else if 0 < point then
    String.ofList (text.take point.toNat) ++ "." ++ String.ofList (text.drop point.toNat)
  else "0." ++ zeros (-point).toNat ++ String.ofList text

/-- Writes a decimal as one digit, the fraction if there is one, and an exponent. -/
def Digits.scientific (d : Digits) (exponentPlus : String) : String :=
  let text := Nat.toDigits 10 d.digits
  let exponent := (text.length : Int) + d.exponent - 1
  let mantissa := match text with
    | [] => ""
    | [c] => String.ofList [c]
    | c :: rest => String.ofList [c] ++ "." ++ String.ofList rest
  mantissa ++ "e" ++ (if exponent < 0 then "-" else exponentPlus) ++ digitsText exponent.natAbs

/-- Writes a positive decimal as the notation wants it. -/
def Notation.writeDigits (f : Notation) (d : Digits) : String :=
  let point := (digitCount d.digits : Int) + d.exponent
  match f.positional with
  | none => d.positional f.wholeMark
  | some (least, most) =>
    if least ≤ point ∧ point ≤ most then d.positional f.wholeMark
    else d.scientific f.exponentPlus

/-- Writes a double with the fewest digits that read back. -/
def Notation.write (f : Notation) (x : Float) : String :=
  match Binary.ofFloat x with
  | .nan => f.nan
  | .infinite negative => (if negative then "-" else "") ++ f.infinity
  | .finite negative m q =>
    (if negative then "-" else "") ++
      if m = 0 then "0" ++ f.wholeMark else f.writeDigits (shortest f.tie m q)

/-- The quotient rounded to the nearest whole number, a half to the even one. -/
def roundedQuotient (num den : Nat) : Nat :=
  let n := num / den
  let twice := 2 * (num % den)
  if twice < den then n
  else if twice > den then n + 1
  else if n % 2 = 1 then n + 1 else n

/-- Writes a double with exactly `places` digits after the point, rounded to nearest. -/
def fixed (places : Nat) (x : Float) : String :=
  match Binary.ofFloat x with
  | .nan => "NaN"
  | .infinite negative => (if negative then "-" else "") ++ "inf"
  | .finite negative m q =>
    let (num, den) := Binary.fraction m q
    let unit := Nat.pow 10 places
    let n := roundedQuotient (num * unit) den
    let whole := digitsText (n / unit)
    let part := digitsText (n % unit)
    (if negative then "-" else "") ++ whole ++
      if places = 0 then "" else "." ++ zeros (places - part.length) ++ part

end Dataflow.Decimal
