import Dataflow.Decimal.Binary
import Dataflow.Word
/-!
# Reading numbers

Readers for the two number texts that values are converted from: whole numbers with an optional
sign, and decimals with an optional fraction and exponent.  A decimal is read as the nearest double.
-/
namespace Dataflow.Decimal

def digit? (c : Char) : Option Nat :=
  if '0' ≤ c ∧ c ≤ '9' then some (c.toNat - '0'.toNat) else none

/-- Whether a character is a decimal digit. -/
def isDigit (c : Char) : Bool := (digit? c).isSome

/-- The number that a list of digits stands for; `none` when something else is among them. -/
def natOfDigits : List Char → Option Nat :=
  go 0
where
  go (acc : Nat) : List Char → Option Nat
    | [] => some acc
    | c :: cs =>
      match digit? c with
      | some d => go (10 * acc + d) cs
      | none => none

/-- Splits an optional sign off a text; the flag says whether it was a minus. -/
def sign : List Char → Bool × List Char
  | '-' :: cs => (true, cs)
  | '+' :: cs => (false, cs)
  | cs => (false, cs)

/-- A whole number: an optional sign, then at least one digit and nothing else. -/
def int? (s : String) : Option Int :=
  let (negative, cs) := sign s.toList
  if cs.isEmpty then none
  else (natOfDigits cs).map fun n => if negative then -(n : Int) else (n : Int)

/-- A whole number that lies in `[low, high]`. -/
def intWithin? (low high : Int) (s : String) : Option Int :=
  match int? s with
  | some n => if low ≤ n ∧ n ≤ high then some n else none
  | none => none

/-- A whole number that fits a signed word of so many bits. -/
def signedWord? (bits : Nat) (s : String) : Option Int :=
  intWithin? (Word.leastSigned bits) (Word.largestSigned bits) s

/-- The double nearest to `digits · 10 ^ exponent`.  Exponents beyond what a double can tell apart
are answered without computing the power. -/
def nearestFloat (digits : Nat) (exponent : Int) : Float :=
  let size : Int := (Nat.toDigits 10 digits).length + exponent
  if digits = 0 then 0
  else if size > 400 then 1 / 0
  else if size < -400 then 0
  else Float.ofScientific digits (decide (exponent < 0)) exponent.natAbs

/-- The longest run of digits at the beginning, and what follows it. -/
def spanDigits (cs : List Char) : List Char × List Char :=
  (cs.takeWhile isDigit, cs.dropWhile isDigit)

/-- An exponent at the end of a number: absent, or a mark, an optional sign and digits. -/
def exponent? : List Char → Option Int
  | [] => some 0
  | c :: cs =>
    if c = 'e' ∨ c = 'E' then
      let (negative, ds) := sign cs
      if ds.isEmpty then none
      else (natOfDigits ds).map fun n => if negative then -(n : Int) else (n : Int)
    else none

/-- An unsigned decimal with optional fraction and exponent; it has a digit before or after the
point. -/
def unsignedFloat? (cs : List Char) : Option Float :=
  let (whole, rest) := spanDigits cs
  let (part, rest) := match rest with
    | '.' :: more => spanDigits more
    | _ => ([], rest)
  if whole.isEmpty ∧ part.isEmpty then none
  else
    match natOfDigits (whole ++ part), exponent? rest with
    | some n, some e => some (nearestFloat n (e - part.length))
    | _, _ => none

/-- The words for numbers that have no digits, in any mixture of cases. -/
def word? (cs : List Char) : Option Float :=
  let w := String.ofList (cs.map Char.toLower)
  if w = "inf" ∨ w = "infinity" then some (1 / 0)
  else if w = "nan" then some (0 / 0)
  else none

/-- A double: an optional sign, then a decimal or one of the words. -/
def float? (s : String) : Option Float :=
  let (negative, cs) := sign s.toList
  match unsignedFloat? cs with
  | some x => some (if negative then -x else x)
  | none => (word? cs).map fun x => if negative then -x else x

end Dataflow.Decimal
