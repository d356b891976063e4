import Dataflow.Text.Hex
import Dataflow.Toml.Basic
/-!
# Texts in TOML

Texts stand between single quotes, as they are, or between double quotes, with escapes.  Three
quotes instead of one let them run over several lines.
-/
namespace Dataflow.Toml

/-- The character behind a one-letter escape. -/
def shortEscape? : Char → Option Char
  | '"' => some '"'
  | '\\' => some '\\'
  | 'b' => some '\x08'
  | 'f' => some '\x0c'
  | 'n' => some '\n'
  | 'r' => some '\r'
  | 't' => some '\t'
  | _ => none

/-- The character whose number some hexadecimal digits spell. -/
def charOfDigits? (digits : List Char) : Option Char :=
  match Text.Hex.number? digits with
  | some n => if h : n.isValidChar then some (Char.ofNatAux n h) else none
  | none => none

/-- Puts a character in front of what was read. -/
def push (c : Char) (r : Option (List Char × List Char)) : Option (List Char × List Char) :=
  r.map fun (cs, rest) => (c :: cs, rest)

/-- The rest of a text after its opening single quote. -/
def literalText : List Char → Option (List Char × List Char)
  | [] => none
  | '\'' :: rest => some ([], rest)
  | c :: rest => if isPrintable c then push c (literalText rest) else none

/-- The rest of a text after three single quotes.  Up to two quotes may stand before the closing
ones. -/
def literalLines : List Char → Option (List Char × List Char)
  | [] => none
  | '\'' :: '\'' :: '\'' :: '\'' :: '\'' :: rest => some (['\'', '\''], rest)
  | '\'' :: '\'' :: '\'' :: '\'' :: rest => some (['\''], rest)
  | '\'' :: '\'' :: '\'' :: rest => some ([], rest)
  | '\n' :: rest => push '\n' (literalLines rest)
  | '\r' :: '\n' :: rest => push '\n' (literalLines rest)
  | c :: rest => if isPrintable c then push c (literalLines rest) else none

/-- The rest of a text after its opening double quote. -/
def basicText : List Char → Option (List Char × List Char)
  | [] => none
  | '"' :: rest => some ([], rest)
  | '\\' :: 'u' :: a :: b :: c :: d :: rest =>
    match charOfDigits? [a, b, c, d] with
    | some x => push x (basicText rest)
    | none => none
  | '\\' :: 'U' :: a :: b :: c :: d :: e :: f :: g :: h :: rest =>
    match charOfDigits? [a, b, c, d, e, f, g, h] with
    | some x => push x (basicText rest)
    | none => none
  | '\\' :: e :: rest =>
    match shortEscape? e with
    | some x => push x (basicText rest)
    | none => none
  | c :: rest => if isPrintable c && c ≠ '\\' then push c (basicText rest) else none

/-- The rest of a text after three double quotes.  Up to two quotes may stand before the closing
ones.  A backslash at the end of a line drops all blanks and line breaks up to the next character;
`joining` says that the text begins among these. -/
def basicLines (joining : Bool) : List Char → Option (List Char × List Char)
  | [] => none
  | '"' :: '"' :: '"' :: '"' :: '"' :: rest => some (['"', '"'], rest)
  | '"' :: '"' :: '"' :: '"' :: rest => some (['"'], rest)
  | '"' :: '"' :: '"' :: rest => some ([], rest)
  | '\n' :: rest => if joining then basicLines true rest else push '\n' (basicLines false rest)
  | '\r' :: '\n' :: rest =>
    if joining then basicLines true rest else push '\n' (basicLines false rest)
  | '\\' :: 'u' :: a :: b :: c :: d :: rest =>
    match charOfDigits? [a, b, c, d] with
    | some x => push x (basicLines false rest)
    | none => none
  | '\\' :: 'U' :: a :: b :: c :: d :: e :: f :: g :: h :: rest =>
    match charOfDigits? [a, b, c, d, e, f, g, h] with
    | some x => push x (basicLines false rest)
    | none => none
  | '\\' :: e :: rest =>
    match shortEscape? e with
    | some x => push x (basicLines false rest)
    | none => if (lineBreak? (skipBlank (e :: rest))).isSome then basicLines true rest else none
  | c :: rest =>
    if joining && isBlank c then basicLines true rest
    else if isPrintable c && c ≠ '\\' then push c (basicLines false rest)
    else none

/-- Drops the line break that may follow three opening quotes. -/
def skipFirstBreak (cs : List Char) : List Char := (lineBreak? cs).getD cs

def lineText? : List Char → Option (String × List Char)
  | '"' :: rest => (basicText rest).map fun (cs, rest) => (String.ofList cs, rest)
  | '\'' :: rest => (literalText rest).map fun (cs, rest) => (String.ofList cs, rest)
  | _ => none

def text? : List Char → Option (String × List Char)
  | '"' :: '"' :: '"' :: rest =>
    (basicLines false (skipFirstBreak rest)).map fun (cs, rest) => (String.ofList cs, rest)
  | '\'' :: '\'' :: '\'' :: rest =>
    (literalLines (skipFirstBreak rest)).map fun (cs, rest) => (String.ofList cs, rest)
  | cs => lineText? cs

end Dataflow.Toml
