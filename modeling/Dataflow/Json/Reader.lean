import Dataflow.Json.Basic
import Dataflow.Decimal.Reader
import Dataflow.Text.Hex
import Dataflow.Word
/-!
# Reading JSON

A strict reader: nothing but white space around the value, no comma without a value after it, no
leading zeros, no control characters in texts, and no half of a surrogate pair.  Brackets nest to a
fixed depth, along which the reader recurses.  Members of the outermost object that nobody asks for
may be skimmed: they are checked for their shape alone.
-/
namespace Dataflow.Json

/-- Drops the white space at the beginning. -/
def skipBlank : List Char → List Char :=
  List.dropWhile fun c => c = ' ' || c = '\n' || c = '\t' || c = '\r'

/-! ## Texts -/

/-- The number that four hexadecimal digits stand for. -/
def hex4? (a b c d : Char) : Option Nat := Text.Hex.number? [a, b, c, d]

/-- The character behind a one-letter escape. -/
def shortEscape? : Char → Option Char
  | '"' => some '"'
  | '\\' => some '\\'
  | '/' => some '/'
  | 'b' => some '\x08'
  | 'f' => some '\x0c'
  | 'n' => some '\n'
  | 'r' => some '\r'
  | 't' => some '\t'
  | _ => none

/-- Whether a number is the first half of a surrogate pair. -/
def isHighSurrogate (n : Nat) : Bool := 0xD800 ≤ n && n ≤ 0xDBFF

/-- Whether a number is the second half of a surrogate pair. -/
def isLowSurrogate (n : Nat) : Bool := 0xDC00 ≤ n && n ≤ 0xDFFF

def joinSurrogates (high low : Nat) : Nat := (high - 0xD800) * 0x400 + (low - 0xDC00) + 0x10000

/-- The rest of a text after its opening quote. -/
def textBody : List Char → Option (List Char × List Char)
  | [] => none
  | '"' :: rest => some ([], rest)
  | '\\' :: 'u' :: a :: b :: c :: d :: rest =>
    match hex4? a b c d with
    | none => none
    | some n =>
      if isLowSurrogate n then none
      else if isHighSurrogate n then
        match rest with
        | '\\' :: 'u' :: a :: b :: c :: d :: rest =>
          match hex4? a b c d with
          | none => none
          | some m =>
            if isLowSurrogate m then
              (textBody rest).map fun r => (Char.ofNat (joinSurrogates n m) :: r.1, r.2)
            else none
        | _ => none
      else (textBody rest).map fun r => (Char.ofNat n :: r.1, r.2)
  | '\\' :: e :: rest =>
    match shortEscape? e with
    | none => none
    | some c => (textBody rest).map fun r => (c :: r.1, r.2)
  | c :: rest =>
    if c.toNat < 0x20 ∨ c = '\\' then none
    else (textBody rest).map fun r => (c :: r.1, r.2)

/-- The rest of a text that is only skimmed: four digits after `u` may be any number. -/
def skimText : List Char → Option (List Char)
  | [] => none
  | '"' :: rest => some rest
  | '\\' :: 'u' :: a :: b :: c :: d :: rest =>
    match hex4? a b c d with
    | none => none
    | some _ => skimText rest
  | '\\' :: e :: rest =>
    match shortEscape? e with
    | none => none
    | some _ => skimText rest
  | c :: rest => if c.toNat < 0x20 ∨ c = '\\' then none else skimText rest

def skimName (cs : List Char) : Option (List Char × List Char) :=
  (skimText cs).map fun rest => ([], rest)

/-! ## Numbers -/

/-- A number taken apart: sign, digits before and after the point, and the exponent with its sign,
if these are there. -/
structure Literal where
  negative : Bool
  whole : List Char
  part : Option (List Char)
  exponent : Option (Bool × List Char)

def fraction? : List Char → Option (Option (List Char) × List Char)
  | '.' :: cs =>
    let (ds, rest) := Decimal.spanDigits cs
    if ds.isEmpty then none else some (some ds, rest)
  | cs => some (none, cs)

def exponent? (cs : List Char) : Option (Option (Bool × List Char) × List Char) :=
  match cs with
  | c :: rest =>
    if c = 'e' ∨ c = 'E' then
      let (negative, rest) := Decimal.sign rest
      let (ds, rest) := Decimal.spanDigits rest
      if ds.isEmpty then none else some (some (negative, ds), rest)
    else some (none, cs)
  | [] => some (none, [])

/-- A number without leading zeros. -/
def literal? (cs : List Char) : Option (Literal × List Char) :=
  let (negative, cs) := match cs with
    | '-' :: rest => (true, rest)
    | _ => (false, cs)
  let (whole, rest) := Decimal.spanDigits cs
  if whole.isEmpty || (whole.length > 1 && whole.head? == some '0') then none
  else
    match fraction? rest with
    | none => none
    | some (part, rest) =>
      match exponent? rest with
      | none => none
      | some (exponent, rest) => some (⟨negative, whole, part, exponent⟩, rest)

/-- The digits of a number as far as they fit a word, and the power of ten that belongs to them. -/
structure Scaled where
  digits : Nat
  exponent : Int
  /-- Whether a digit was already dropped. -/
  full : Bool

/-- Digits before the point: once one of them does not fit, it and all that follow count as
zeros. -/
def Scaled.pushWhole (s : Scaled) (d : Nat) : Scaled :=
  if s.full || s.digits * 10 + d > Word.largest 64 then
    { s with exponent := s.exponent + 1, full := true }
  else { s with digits := s.digits * 10 + d }

/-- Digits after the point: once one of them does not fit, it and all that follow are dropped. -/
def Scaled.pushPart (s : Scaled) (d : Nat) : Scaled :=
  if s.full || s.digits * 10 + d > Word.largest 64 then { s with full := true }
  else { s with digits := s.digits * 10 + d, exponent := s.exponent - 1 }

def digitValues (cs : List Char) : List Nat := cs.filterMap Decimal.digit?

def Literal.scaled (l : Literal) : Scaled :=
  let s := (digitValues l.whole).foldl Scaled.pushWhole ⟨0, 0, false⟩
  (digitValues (l.part.getD [])).foldl Scaled.pushPart { s with full := false }

/-- Scales a double by a power of ten, in steps that double arithmetic can hold.  A result that is
too large is refused; one that is too small becomes zero. -/
def scaleBy : Nat → Float → Int → Option Float
  | 0, x, _ => some x
  | fuel + 1, x, e =>
    if e.natAbs ≤ 308 then
      let power := Float.ofScientific 1 false e.natAbs
      if 0 ≤ e then
        let y := x * power
        if y.isInf then none else some y
      else some (x / power)
    else if x == 0 then some x
    else if 0 ≤ e then none
    else scaleBy fuel (x / Float.ofScientific 1 false 308) (e + 308)

/-- The double that a number stands for, computed from the digits that fit a word. -/
def Literal.double? (l : Literal) : Option Float :=
  let s := l.scaled
  let signed (x : Float) : Float := if l.negative then -x else x
  let (negative, exponent) := match l.exponent with
    | none => (false, 0)
    | some (n, ds) => (n, (Decimal.natOfDigits ds).getD 0)
  if exponent > 2147483647 then
    if s.digits ≠ 0 ∧ !negative then none else some (signed 0)
  else
    let e := if negative then s.exponent - exponent else s.exponent + exponent
    (scaleBy 4 (Float.ofNat s.digits) e).map signed

def Literal.number? (l : Literal) : Option Number :=
  match l.part, l.exponent, Decimal.natOfDigits l.whole with
  | none, none, some n =>
    if !l.negative && n ≤ Word.largest 64 then some (.natural n)
    else if l.negative && 1 ≤ n && n ≤ Word.count 63 then some (.negative n)
    else l.double?.map .double
  | _, _, _ => l.double?.map .double

/-! ## Values -/

/-- The items of an array after its opening bracket, when it is not empty. -/
def items (item : List Char → Option (Json × List Char)) :
    Nat → List Char → Option (List Json × List Char)
  | 0, _ => none
  | fuel + 1, cs =>
    match item cs with
    | none => none
    | some (j, rest) =>
      match skipBlank rest with
      | ',' :: rest => (items item fuel rest).map fun r => (j :: r.1, r.2)
      | ']' :: rest => some ([j], rest)
      | _ => none

/-- The members of an object after its opening brace, when it is not empty.  `name` reads a member's
name after its opening quote, and `item` the value that belongs to a name. -/
def members (name : List Char → Option (List Char × List Char))
    (item : String → List Char → Option (Json × List Char)) :
    Nat → List Char → Option (List (String × Json) × List Char)
  | 0, _ => none
  | fuel + 1, cs =>
    match skipBlank cs with
    | '"' :: cs =>
      match name cs with
      | none => none
      | some (k, rest) =>
        match skipBlank rest with
        | ':' :: rest =>
          match item (String.ofList k) rest with
          | none => none
          | some (j, rest) =>
            match skipBlank rest with
            | ',' :: rest =>
              (members name item fuel rest).map fun r => ((String.ofList k, j) :: r.1, r.2)
            | '\x7d' :: rest => some ([(String.ofList k, j)], rest)
            | _ => none
        | _ => none
    | _ => none

def scalar? (cs : List Char) : Option (Json × List Char) :=
  match cs with
  | 'n' :: 'u' :: 'l' :: 'l' :: rest => some (.null, rest)
  | 't' :: 'r' :: 'u' :: 'e' :: rest => some (.bool true, rest)
  | 'f' :: 'a' :: 'l' :: 's' :: 'e' :: rest => some (.bool false, rest)
  | '"' :: rest => (textBody rest).map fun r => (.text (String.ofList r.1), r.2)
  | _ =>
    match literal? cs with
    | none => none
    | some (l, rest) => l.number?.map fun n => (.number n, rest)

/-- A value in which at most `depth` brackets nest. -/
def value : Nat → List Char → Option (Json × List Char)
  | depth, cs =>
    match depth, skipBlank cs with
    | 0, '[' :: _ => none
    | 0, '\x7b' :: _ => none
    | depth + 1, '[' :: rest =>
      match skipBlank rest with
      | ']' :: rest => some (.array [], rest)
      | _ => (items (value depth) rest.length rest).map fun r => (.array r.1, r.2)
    | depth + 1, '\x7b' :: rest =>
      match skipBlank rest with
      | '\x7d' :: rest => some (.object [], rest)
      | _ =>
        (members textBody (fun _ => value depth) rest.length rest).map
          fun r => (.object r.1, r.2)
    | _, cs => scalar? cs

/-- Skims a value: only its shape is checked.  The result says nothing but null. -/
def skim : Nat → List Char → Option (Json × List Char)
  | depth, cs =>
    match depth, skipBlank cs with
    | depth + 1, '[' :: rest =>
      match skipBlank rest with
      | ']' :: rest => some (.null, rest)
      | _ => (items (skim depth) rest.length rest).map fun r => (.null, r.2)
    | depth + 1, '\x7b' :: rest =>
      match skipBlank rest with
      | '\x7d' :: rest => some (.null, rest)
      | _ => (members skimName (fun _ => skim depth) rest.length rest).map fun r => (.null, r.2)
    | _, '"' :: rest => (skimText rest).map fun rest => (.null, rest)
    | _, cs =>
      match scalar? cs, literal? cs with
      | some (_, rest), _ => some (.null, rest)
      | none, some (_, rest) => some (.null, rest)
      | none, none => none

/-- How deep brackets may nest. -/
def maxDepth : Nat := 127

/-- Reads a text that holds one value, nested at most `depth` deep. -/
def parseWithin? (depth : Nat) (s : String) : Option Json :=
  match value depth s.toList with
  | some (j, rest) => if (skipBlank rest).isEmpty then some j else none
  | none => none

/-- Reads a text that holds one value. -/
def parse? (s : String) : Option Json := parseWithin? maxDepth s

/-- Reads a text that holds one value.  When the value is an object, members whose name is not in
`names` are skimmed. -/
def parseFor? (names : List String) (s : String) : Option Json :=
  match skipBlank s.toList with
  | '\x7b' :: rest =>
    let item (name : String) (cs : List Char) :=
      if name ∈ names then value (maxDepth - 1) cs else skim cs.length cs
    let result := match skipBlank rest with
      | '\x7d' :: rest => some ([], rest)
      | _ => members textBody item rest.length rest
    match result with
    | some (ms, rest) => if (skipBlank rest).isEmpty then some (.object ms) else none
    | none => none
  | _ => parse? s

end Dataflow.Json
