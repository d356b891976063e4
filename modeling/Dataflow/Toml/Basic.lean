/-!
# TOML

Values of the configuration language, and the lexical classes that its texts are made of.
-/
namespace Dataflow

namespace Toml

/-- Values that hold no other. -/
inductive Scalar where
  | boolean (b : Bool)
  /-- A whole number; the language has 64 bits for it. -/
  | integer (n : Int)
  | float (x : Float)
  | text (s : String)
  /-- A date, a time, or both, as it was written. -/
  | dateTime (s : String)

end Toml

/-- A value of the configuration language. -/
inductive Toml where
  | scalar (s : Toml.Scalar)
  | array (items : List Toml)
  /-- The members of a table, no two of which have the same key. -/
  | table (members : List (String × Toml))

namespace Toml

/-! ## Lexical classes -/

/-- Characters between the words of a line. -/
def isBlank (c : Char) : Bool := c = ' ' || c = '\t'

/-- Characters that may stand in a comment or between quotes: of the control characters of ASCII
only the tab. -/
def isPrintable (c : Char) : Bool := c = '\t' || (0x20 ≤ c.toNat && c.toNat ≠ 0x7F)

/-- Characters of a key that is not quoted. -/
def isKeyChar (c : Char) : Bool :=
  ('a' ≤ c && c ≤ 'z') || ('A' ≤ c && c ≤ 'Z') || ('0' ≤ c && c ≤ '9') || c = '_' || c = '-'

def skipBlank (cs : List Char) : List Char := cs.dropWhile isBlank

/-- What follows a line break: a line feed, or a carriage return and a line feed. -/
def lineBreak? : List Char → Option (List Char)
  | '\n' :: rest => some rest
  | '\r' :: '\n' :: rest => some rest
  | _ => none

/-- Drops a comment at the beginning; the end of the line is no part of it. -/
def skipComment : List Char → List Char
  | '#' :: rest => rest.dropWhile isPrintable
  | cs => cs

/-- What follows the end of a line, which may have blanks and a comment before it. -/
def endOfLine? (cs : List Char) : Option (List Char) :=
  match skipComment (skipBlank cs) with
  | [] => some []
  | rest => lineBreak? rest

/-- Drops blanks, line breaks and comments; `inComment` says whether the text begins inside of a
comment. -/
def skipGap (inComment : Bool) : List Char → List Char
  | [] => []
  | '\n' :: rest => skipGap false rest
  | '\r' :: '\n' :: rest => skipGap false rest
  | c :: rest =>
    if inComment then if isPrintable c then skipGap true rest else c :: rest
    else if isBlank c then skipGap false rest
    else if c = '#' then skipGap true rest
    else c :: rest

end Toml
end Dataflow
