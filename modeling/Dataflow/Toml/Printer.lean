import Dataflow.Decimal.Notation
import Dataflow.Toml.Basic
import Dataflow.Word
/-!
# Writing TOML

A document is written as sections, each of them a table of values that hold no other.
-/
namespace Dataflow.Toml

/-! ## Texts -/

/-- The length of the longest run of a character; `run` of them stand directly before the text. -/
def longestRun (c : Char) (run : Nat) : List Char → Nat
  | [] => run
  | d :: rest => if d = c then longestRun c (run + 1) rest else max run (longestRun c 0 rest)

/-- Control characters, which can only be written as escapes.  Tabs and line feeds are none. -/
def isControl (c : Char) : Bool := !isPrintable c && c ≠ '\n'

/-- How a text is quoted. -/
structure Quoting where
  /-- Whether the quotes are single, so that there are no escapes. -/
  literal : Bool
  /-- Whether there are three quotes on both sides. -/
  triple : Bool

/-- The first of these forms that shows the text as it is: double quotes, single quotes, three
double quotes, three single quotes.  When none does, double quotes with escapes. -/
def Quoting.choose (s : String) : Quoting :=
  let cs := s.toList
  let lines := cs.contains '\n'
  let escapes := cs.contains '\\'
  if cs.any isControl then ⟨false, lines⟩
  else if !escapes && !cs.contains '"' && !lines then ⟨false, false⟩
  else if !cs.contains '\'' && !lines then ⟨true, false⟩
  else if !escapes && longestRun '"' 0 cs ≤ 2 then ⟨false, true⟩
  else if longestRun '\'' 0 cs ≤ 2 then ⟨true, true⟩
  else ⟨false, lines⟩

def hexDigit (n : Nat) : Char := (Nat.digitChar (n % 16)).toUpper

/-- How a character other than a double quote is written between double quotes. -/
def escapeChar (triple : Bool) (c : Char) : List Char :=
  if c = '\\' then ['\\', '\\']
  else if c = '\x08' then ['\\', 'b']
  else if c = '\t' then ['\\', 't']
  else if c = '\n' then if triple then ['\n'] else ['\\', 'n']
  else if c = '\x0c' then ['\\', 'f']
  else if c = '\r' then ['\\', 'r']
  else if isControl c then
    ['\\', 'u', '0', '0', hexDigit (c.toNat / 16), hexDigit c.toNat]
  else [c]

/-- The characters between double quotes.  Between three of them every third quote in a row is
escaped; `run` quotes stand directly before the text. -/
def escaped (triple : Bool) (run : Nat) : List Char → List Char
  | [] => []
  | c :: rest =>
    if c = '"' then
      if triple && run < 2 then '"' :: escaped triple (run + 1) rest
      else '\\' :: '"' :: escaped triple 0 rest
    else escapeChar triple c ++ escaped triple 0 rest

/-- The quoted form of a text.  After three quotes a line break is put in front of a text with
several lines; it does not count as a part of it. -/
def quote (s : String) : String :=
  let q := Quoting.choose s
  let mark := List.replicate (if q.triple then 3 else 1) (if q.literal then '\'' else '"')
  let first := if q.triple && s.toList.contains '\n' then ['\n'] else []
  let body := if q.literal then s.toList else escaped q.triple 0 s.toList
  String.ofList (mark ++ first ++ body ++ mark)

/-! ## Values and sections -/

/-- Doubles are written without exponent, and always with a fraction. -/
def doubles : Decimal.Notation where
  positional := none
  wholeMark := ".0"
  tie := .up
  nan := "nan"
  infinity := "inf"

namespace Scalar

/-- The written form of a value.  Whole numbers that do not fit have none. -/
def text? : Scalar → Option String
  | .boolean b => some (if b then "true" else "false")
  | .integer n =>
    if Word.leastSigned 64 ≤ n ∧ n ≤ Word.largestSigned 64 then some (toString n) else none
  | .float x => some (doubles.write x)
  | .text s => some (quote s)
  | .dateTime s => some s

end Scalar

/-- A table with a header. -/
structure Section where
  name : String
  members : List (String × Scalar)

def memberLine? (m : String × Scalar) : Option String :=
  m.2.text?.map fun text => m.1 ++ " = " ++ text

def Section.lines? (s : Section) : Option (List String) :=
  (s.members.mapM memberLine?).map fun lines => ("[" ++ s.name ++ "]") :: lines

/-- Sections with an empty line between any two. -/
def joinSections : List (List String) → List String
  | [] => []
  | [lines] => lines
  | lines :: rest => lines ++ "" :: joinSections rest

def print? (sections : List Section) : Option String :=
  (sections.mapM Section.lines?).map fun ls => String.join ((joinSections ls).map (· ++ "\n"))

end Dataflow.Toml
