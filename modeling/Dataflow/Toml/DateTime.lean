import Dataflow.Decimal.Reader
import Dataflow.Toml.Basic
/-!
# Dates and times in TOML

A date, a time of day, or a date with a time, which may then have an offset.  Readers answer with
what follows; days that a month does not have are refused.
-/
namespace Dataflow.Toml

/-- The number that some digits at the beginning of a text stand for. -/
def digitGroup? (count : Nat) (cs : List Char) : Option (Nat × List Char) :=
  if cs.length < count then none
  else (Decimal.natOfDigits (cs.take count)).map fun n => (n, cs.drop count)

/-- Digits that stand for a number between `low` and `high`. -/
def numberWithin? (count low high : Nat) (cs : List Char) : Option (Nat × List Char) :=
  (digitGroup? count cs).filter fun (n, _) => low ≤ n && n ≤ high

def after? (c : Char) : List Char → Option (List Char)
  | d :: rest => if c = d then some rest else none
  | [] => none

def isLeapYear (year : Nat) : Bool := year % 4 = 0 && (year % 100 ≠ 0 || year % 400 = 0)

def daysIn (year month : Nat) : Nat :=
  if month = 2 then if isLeapYear year then 29 else 28
  else if month = 4 || month = 6 || month = 9 || month = 11 then 30
  else 31

def date? (cs : List Char) : Option (List Char) := do
  let (year, cs) ← digitGroup? 4 cs
  let (month, cs) ← numberWithin? 2 1 12 (← after? '-' cs)
  let (_, cs) ← numberWithin? 2 1 (daysIn year month) (← after? '-' cs)
  return cs

def secondPart (cs : List Char) : List Char :=
  match cs with
  | '.' :: rest =>
    let (digits, rest) := Decimal.spanDigits rest
    if digits.isEmpty then cs else rest
  | cs => cs

/-- A time of day; a minute may have a leap second. -/
def time? (cs : List Char) : Option (List Char) := do
  let (_, cs) ← numberWithin? 2 0 23 cs
  let (_, cs) ← numberWithin? 2 0 59 (← after? ':' cs)
  let (_, cs) ← numberWithin? 2 0 60 (← after? ':' cs)
  return secondPart cs

def offset? : List Char → Option (List Char)
  | c :: rest =>
    if c = 'Z' || c = 'z' then some rest
    else if c = '+' || c = '-' then do
      let (_, cs) ← numberWithin? 2 0 23 rest
      let (_, cs) ← numberWithin? 2 0 59 (← after? ':' cs)
      return cs
    else none
  | [] => none

/-- The time that may follow a date, with its offset. -/
def timeOfDate? : List Char → Option (List Char)
  | c :: rest =>
    if c = 'T' || c = 't' || c = ' ' then (time? rest).map fun cs => (offset? cs).getD cs
    else none
  | [] => none

def dateTime? (cs : List Char) : Option (String × List Char) :=
  let rest? := match date? cs with
    | some rest => some ((timeOfDate? rest).getD rest)
    | none => time? cs
  rest?.map fun rest => (String.ofList (cs.take (cs.length - rest.length)), rest)

end Dataflow.Toml
