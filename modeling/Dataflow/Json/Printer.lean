import Dataflow.Json.Basic
/-!
# Writing JSON

Two layouts of a value: `compact` on one line without blanks, and `pretty` with two blanks of
indentation for each level.
-/
namespace Dataflow.Json

/-- Doubles keep a point or an exponent, so that they read back as doubles; an exponent is written
with its sign. -/
def doubles : Decimal.Notation where
  positional := some (-4, 16)
  wholeMark := ".0"
  exponentPlus := "+"
  tie := .even
  nan := "null"
  infinity := "null"

/-- The written form of a double; what is not finite has none. -/
def doubleText (x : Float) : String :=
  match Decimal.Binary.ofFloat x with
  | .finite _ _ _ => doubles.write x
  | _ => "null"

def Number.text : Number → String
  | .natural n => toString n
  | .negative n => "-" ++ toString n
  | .double x => doubleText x

def hexDigit (n : Nat) : Char := Nat.digitChar (n % 16)

/-- How one character is written between quotes: the quote, the backslash and the control
characters are escaped. -/
def escapeChar (c : Char) : List Char :=
  if c = '"' then ['\\', '"']
  else if c = '\\' then ['\\', '\\']
  else if c = '\x08' then ['\\', 'b']
  else if c = '\t' then ['\\', 't']
  else if c = '\n' then ['\\', 'n']
  else if c = '\x0c' then ['\\', 'f']
  else if c = '\r' then ['\\', 'r']
  else if c.toNat < 0x20 then
    ['\\', 'u', '0', '0', hexDigit (c.toNat / 16), hexDigit c.toNat]
  else [c]

def quote (s : String) : String :=
  String.ofList ('"' :: s.toList.flatMap escapeChar ++ ['"'])

mutual

def compact : Json → String
  | .null => "null"
  | .bool b => if b then "true" else "false"
  | .number n => n.text
  | .text s => quote s
  | .array items => "[" ++ compactItems items ++ "]"
  | .object members => "\x7b" ++ compactMembers members ++ "\x7d"

def compactItems : List Json → String
  | [] => ""
  | [j] => compact j
  | j :: rest => compact j ++ "," ++ compactItems rest

def compactMembers : List (String × Json) → String
  | [] => ""
  | [(k, j)] => quote k ++ ":" ++ compact j
  | (k, j) :: rest => quote k ++ ":" ++ compact j ++ "," ++ compactMembers rest

end

/-- A line break and the indentation of a level. -/
def lineBreak (level : Nat) : String := String.ofList ('\n' :: List.replicate (2 * level) ' ')

mutual

/-- A value on several lines, inside of `level` brackets. -/
def pretty (level : Nat) : Json → String
  | .null => "null"
  | .bool b => if b then "true" else "false"
  | .number n => n.text
  | .text s => quote s
  | .array [] => "[]"
  | .array (j :: rest) => "[" ++ prettyItems (level + 1) (j :: rest) ++ lineBreak level ++ "]"
  | .object [] => "\x7b\x7d"
  | .object (m :: rest) =>
    "\x7b" ++ prettyMembers (level + 1) (m :: rest) ++ lineBreak level ++ "\x7d"

def prettyItems (level : Nat) : List Json → String
  | [] => ""
  | [j] => lineBreak level ++ pretty level j
  | j :: rest => lineBreak level ++ pretty level j ++ "," ++ prettyItems level rest

def prettyMembers (level : Nat) : List (String × Json) → String
  | [] => ""
  | [(k, j)] => lineBreak level ++ quote k ++ ": " ++ pretty level j
  | (k, j) :: rest =>
    lineBreak level ++ quote k ++ ": " ++ pretty level j ++ "," ++ prettyMembers level rest

end

end Dataflow.Json
