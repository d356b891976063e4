import Dataflow.Decimal.Reader
import Dataflow.Text.Hex
import Dataflow.Toml.Basic
import Dataflow.Word
/-!
# Numbers in TOML

Whole numbers in four bases and doubles.  Underscores may stand between two digits, and count for
nothing.  A number is read up to the first character that cannot belong to it.
-/
namespace Dataflow.Toml

/-- Splits digits off a text that continues a number.  An underscore is followed by a digit. -/
def moreDigits (isDigit : Char → Bool) : List Char → Option (List Char × List Char)
  | [] => some ([], [])
  | ['_'] => none
  | '_' :: d :: rest =>
    if isDigit d then (moreDigits isDigit rest).map fun (ds, rest) => (d :: ds, rest) else none
  | d :: rest =>
    if isDigit d then (moreDigits isDigit rest).map fun (ds, rest) => (d :: ds, rest)
    else some ([], d :: rest)

/-- Splits digits off a text that begins with one. -/
def digits? (isDigit : Char → Bool) : List Char → Option (List Char × List Char)
  | [] => none
  | d :: rest =>
    if isDigit d then (moreDigits isDigit rest).map fun (ds, rest) => (d :: ds, rest) else none

/-- The sign of a number: what it is written with, and what follows it. -/
def sign : List Char → List Char × List Char
  | '+' :: rest => (['+'], rest)
  | '-' :: rest => (['-'], rest)
  | cs => ([], cs)

/-- Splits a decimal number with an optional sign off a text.  A zero at the beginning is the whole
number. -/
def decimal? (cs : List Char) : Option (List Char × List Char) :=
  let (s, cs) := sign cs
  match cs with
  | '0' :: rest => some (s ++ ['0'], rest)
  | cs => (digits? Decimal.isDigit cs).map fun (ds, rest) => (s ++ ds, rest)

/-- Splits the exponent off a text that begins with it. -/
def exponent? : List Char → Option (List Char × List Char)
  | c :: rest =>
    if c = 'e' || c = 'E' then
      let (s, rest) := sign rest
      (digits? Decimal.isDigit rest).map fun (ds, rest) => ('e' :: s ++ ds, rest)
    else none
  | [] => none

/-- Splits a fraction, an exponent, or one after the other off a text that begins with them. -/
def fraction? : List Char → Option (List Char × List Char)
  | '.' :: rest =>
    match digits? Decimal.isDigit rest with
    | none => none
    | some (ds, rest) =>
      match exponent? rest with
      | some (e, rest) => some ('.' :: ds ++ e, rest)
      | none => some ('.' :: ds, rest)
  | cs => exponent? cs

/-- A double with digits.  One that is too large is refused. -/
def digitFloat? (cs : List Char) : Option (Float × List Char) :=
  match decimal? cs with
  | none => none
  | some (whole, rest) =>
    match fraction? rest with
    | none => none
    | some (part, rest) =>
      match Decimal.float? (String.ofList (whole ++ part)) with
      | some x => if x == 1 / 0 then none else some (x, rest)
      | none => none

def wordFloat? (cs : List Char) : Option (Float × List Char) :=
  let (s, cs) := sign cs
  let signed (x : Float) : Float := if s = ['-'] then -x else x
  match cs with
  | 'i' :: 'n' :: 'f' :: rest => some (signed (1 / 0), rest)
  | 'n' :: 'a' :: 'n' :: rest => some (signed (0 / 0), rest)
  | _ => none

def float? (cs : List Char) : Option (Float × List Char) :=
  match digitFloat? cs with
  | some r => some r
  | none => wordFloat? cs

/-- Whether a character is a digit in some base up to 16. -/
def isDigitIn (base : Nat) (c : Char) : Bool := (Text.Hex.digit? c).any fun d => d < base

/-- The number that digits in some base stand for. -/
def natInBase (base : Nat) (ds : List Char) : Nat :=
  ds.foldl (fun n c => n * base + (Text.Hex.digit? c).getD 0) 0

/-- A natural number in some base, if 64 bits with a sign hold it. -/
def natural? (base : Nat) (cs : List Char) : Option (Int × List Char) :=
  match digits? (isDigitIn base) cs with
  | some (ds, rest) =>
    let n : Int := natInBase base ds
    if n ≤ Word.largestSigned 64 then some (n, rest) else none
  | none => none

def integer? : List Char → Option (Int × List Char)
  | '0' :: 'x' :: rest => natural? 16 rest
  | '0' :: 'o' :: rest => natural? 8 rest
  | '0' :: 'b' :: rest => natural? 2 rest
  | cs =>
    match decimal? cs with
    | some (ds, rest) =>
      (Decimal.signedWord? 64 (String.ofList ds)).map fun n => (n, rest)
    | none => none

end Dataflow.Toml
