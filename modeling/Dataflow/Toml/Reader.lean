import Dataflow.Toml.DateTime
import Dataflow.Toml.Document
import Dataflow.Toml.Number
import Dataflow.Toml.Text
/-!
# Reading TOML

A text is read line by line into statements, which then make a document.  Brackets nest to a fixed
depth, along which the reader recurses, and keys lead through a limited number of tables.
-/
namespace Dataflow.Toml

def maxNames : Nat := 79

/-- How deep the brackets of a value may nest. -/
def maxDepth : Nat := 79

/-! ## Keys -/

/-- A name in a key: bare, or a text on one line. -/
def name? (cs : List Char) : Option (String × List Char) :=
  match lineText? cs with
  | some r => some r
  | none =>
    let bare := cs.takeWhile isKeyChar
    if bare.isEmpty then none else some (String.ofList bare, cs.dropWhile isKeyChar)

/-- At most `limit` names with dots between them; blanks may stand around each. -/
def path? (limit : Nat) (cs : List Char) : Option (Path × List Char) :=
  match limit with
  | 0 => none
  | limit + 1 =>
    match name? (skipBlank cs) with
    | none => none
    | some (name, rest) =>
      match skipBlank rest with
      | '.' :: rest =>
        (path? limit rest).map fun (p, rest) => ({ p with parents := name :: p.parents }, rest)
      | rest => some (⟨[], name⟩, rest)

/-! ## Values -/

/-- A value that begins with a digit or a sign. -/
def numeral? (cs : List Char) : Option (Scalar × List Char) :=
  match dateTime? cs, float? cs with
  | some (s, rest), _ => some (.dateTime s, rest)
  | none, some (x, rest) => some (.float x, rest)
  | none, none => (integer? cs).map fun (n, rest) => (.integer n, rest)

def scalar? (cs : List Char) : Option (Scalar × List Char) :=
  match cs with
  | 't' :: 'r' :: 'u' :: 'e' :: rest => some (.boolean true, rest)
  | 'f' :: 'a' :: 'l' :: 's' :: 'e' :: rest => some (.boolean false, rest)
  | _ =>
    match text? cs with
    | some (s, rest) => some (.text s, rest)
    | none => numeral? cs

/-- The items of an array after its opening bracket.  A comma may follow the last. -/
def items (value : List Char → Option (Toml × List Char)) :
    Nat → List Char → Option (List Toml × List Char)
  | 0, _ => none
  | fuel + 1, cs =>
    match skipGap false cs with
    | ']' :: rest => some ([], rest)
    | cs =>
      match value cs with
      | none => none
      | some (v, rest) =>
        match skipGap false rest with
        | ',' :: rest => (items value fuel rest).map fun (vs, rest) => (v :: vs, rest)
        | ']' :: rest => some ([v], rest)
        | _ => none

def keyValue? (value : List Char → Option (Toml × List Char)) (cs : List Char) :
    Option (Entry × List Char) :=
  match path? maxNames cs with
  | some (path, '=' :: rest) => (value (skipBlank rest)).map fun (v, rest) => (⟨path, v⟩, rest)
  | _ => none

/-- The entries between two braces, when there are some.  They stand on one line, and no comma
follows the last. -/
def entries (value : List Char → Option (Toml × List Char)) :
    Nat → List Char → Option (List Entry × List Char)
  | 0, _ => none
  | fuel + 1, cs =>
    match keyValue? value cs with
    | none => none
    | some (e, rest) =>
      match skipBlank rest with
      | ',' :: rest => (entries value fuel rest).map fun (es, rest) => (e :: es, rest)
      | '\x7d' :: rest => some ([e], rest)
      | _ => none

/-- A value in which at most `depth` brackets nest. -/
def value (depth : Nat) (cs : List Char) : Option (Toml × List Char) :=
  match depth, cs with
  | depth + 1, '[' :: rest =>
    (items (value depth) (rest.length + 1) rest).map fun (vs, rest) => (.array vs, rest)
  | depth + 1, '\x7b' :: rest =>
    match skipBlank rest with
    | '\x7d' :: rest => some (.table [], rest)
    | _ =>
      match entries (value depth) rest.length rest with
      | some (es, rest) => (tableOfEntries es).map fun t => (t, rest)
      | none => none
  | _, cs => (scalar? cs).map fun (s, rest) => (.scalar s, rest)

/-! ## Documents -/

def header? : List Char → Option (Statement × List Char)
  | '[' :: cs =>
    match path? maxNames cs with
    | some (path, ']' :: ']' :: rest) => some (.element path, rest)
    | _ => none
  | cs =>
    match path? maxNames cs with
    | some (path, ']' :: rest) => some (.table path, rest)
    | _ => none

/-- A line with a header or an entry, up to its end. -/
def statement? : List Char → Option (Statement × List Char)
  | '[' :: cs => header? cs
  | cs => (keyValue? (value maxDepth) cs).map fun (e, rest) => (.entry e, rest)

/-- The lines of a text that say something. -/
def statements : Nat → List Char → Option (List Statement)
  | 0, cs => if (skipGap false cs).isEmpty then some [] else none
  | fuel + 1, cs =>
    match skipGap false cs with
    | [] => some []
    | cs =>
      match statement? cs with
      | none => none
      | some (s, rest) =>
        match endOfLine? rest with
        | none => none
        | some rest => (statements fuel rest).map fun ss => s :: ss

/-- Drops the mark that a file may begin with. -/
def skipMark : List Char → List Char
  | '\uFEFF' :: rest => rest
  | cs => cs

/-- Reads a text as the members of a table. -/
def parse? (s : String) : Option (List (String × Toml)) :=
  let cs := skipMark s.toList
  match statements cs.length cs with
  | some ss => (Document.ofStatements ss).map Document.toTable
  | none => none

end Dataflow.Toml
