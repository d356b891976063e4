import Dataflow.Logical.Types
import Dataflow.Text.Utf8
import Dataflow.Decimal.Reader
import Dataflow.Word
/-!
# Values

What flows through operators at run time: fields of six types, and null.  Values are displayed,
converted to numbers and cast to other types here; tuples are lists of them.
-/
namespace Dataflow

/-- A field of a tuple. -/
inductive Value where
  | null
  | boolean (b : Bool)
  | int (n : Int32)
  | long (n : Int64)
  | double (x : Float)
  | charArray (s : String)
  | byteArray (bytes : List UInt8)

namespace Value

instance : Inhabited Value := ⟨.null⟩

def isNull : Value → Bool
  | .null => true
  | _ => false

def isNumeric : Value → Bool
  | .int _ => true
  | .long _ => true
  | .double _ => true
  | _ => false

def asBool? : Value → Option Bool
  | .boolean b => some b
  | _ => none

def dataType : Value → DataType
  | .null => .unknown
  | .boolean _ => .boolean
  | .int _ => .int
  | .long _ => .long
  | .double _ => .double
  | .charArray _ => .charArray
  | .byteArray _ => .byteArray

/-- The displayed form; null is displayed as nothing, bytes as the text that they encode. -/
def text : Value → String
  | .null => ""
  | .boolean b => boolText b
  | .int n => intText n.toInt
  | .long n => intText n.toInt
  | .double x => plainDoubles.write x
  | .charArray s => s
  | .byteArray bytes => Text.textOfBytes bytes

def ofLiteral : Literal → Value
  | .null => .null
  | .boolean b => .boolean b
  | .int n => .long n
  | .double x => .double x
  | .charArray s => .charArray s

/-! ## Conversion -/

/-- The double without its fractional part; what lies outside of the range becomes its nearest end,
and what is not a number becomes zero. -/
def truncate (x : Float) : Int64 :=
  Int64.ofInt ((Decimal.Binary.ofFloat x).truncate (Word.leastSigned 64) (Word.largestSigned 64))

/-- The value as a whole number of 64 bits. -/
def toLong? : Value → Option Int64
  | .boolean b => some (if b then 1 else 0)
  | .int n => some n.toInt64
  | .long n => some n
  | .double x => some (truncate x)
  | .charArray s => (Decimal.signedWord? 64 s).map Int64.ofInt
  | .null => none
  | .byteArray _ => none

/-- The value as a double; a whole number becomes the nearest one. -/
def toDouble? : Value → Option Float
  | .boolean b => some (if b then 1 else 0)
  | .int n => some (Float.ofInt n.toInt)
  | .long n => some (Float.ofInt n.toInt)
  | .double x => some x
  | .charArray s => Decimal.float? s
  | .null => none
  | .byteArray _ => none

def narrow? (n : Int64) : Option Int32 :=
  if Word.leastSigned 32 ≤ n.toInt ∧ n.toInt ≤ Word.largestSigned 32 then
    some (Int32.ofInt n.toInt)
  else none

def boolOfText? (s : String) : Option Bool :=
  if s = "true" then some true else if s = "false" then some false else none

/-- The reason why a value has no counterpart in another type. -/
def castRefusal (v : Value) (target : DataType) : String :=
  "cannot cast " ++ v.text ++ " to " ++ target.text

/-- Converts a value to a type, or says why it has no counterpart there.  Null is null in every
type. -/
def cast (v : Value) (target : DataType) : Except String Value :=
  match v with
  | .null => .ok .null
  | v =>
    match target with
    | .boolean =>
      match v with
      | .boolean b => .ok (.boolean b)
      | .charArray s =>
        match boolOfText? s with
        | some b => .ok (.boolean b)
        | none => .error ("cannot cast '" ++ s ++ "' to boolean")
      | v => .error ("cannot cast " ++ v.dataType.text ++ " to boolean")
    | .int =>
      match v.toLong?.bind narrow? with
      | some n => .ok (.int n)
      | none => .error (v.castRefusal .int)
    | .long =>
      match v.toLong? with
      | some n => .ok (.long n)
      | none => .error (v.castRefusal .long)
    | .double =>
      match v.toDouble? with
      | some x => .ok (.double x)
      | none => .error (v.castRefusal .double)
    | .charArray => .ok (.charArray v.text)
    | .byteArray => .ok (.byteArray (Text.bytesOfText v.text))
    | other => .error ("unsupported cast to " ++ other.text)

/-! ## Comparison -/

/-- Compares doubles; something that is not a number compares with nothing. -/
def compareDoubles (x y : Float) : Option Ordering :=
  if x < y then some .lt
  else if y < x then some .gt
  else if x == y then some .eq
  else none

/-- Compares lists by their first difference; a beginning comes before the whole. -/
def compareLists {α : Type} (f : α → α → Ordering) : List α → List α → Ordering
  | [], [] => .eq
  | [], _ :: _ => .lt
  | _ :: _, [] => .gt
  | a :: as, b :: bs =>
    match f a b with
    | .eq => compareLists f as bs
    | o => o

/-- Compares two values.  Numbers compare across their types, other values only within theirs, and
null with nothing. -/
def compare (a b : Value) : Option Ordering :=
  match a, b with
  | .boolean a, .boolean b => some (Ord.compare a b)
  | .int a, .int b => some (Ord.compare a.toInt b.toInt)
  | .long a, .long b => some (Ord.compare a.toInt b.toInt)
  | .charArray a, .charArray b =>
    some (compareLists (fun c d => Ord.compare c.toNat d.toNat) a.toList b.toList)
  | .byteArray a, .byteArray b =>
    some (compareLists (fun c d => Ord.compare c.toNat d.toNat) a b)
  | a, b =>
    if a.isNumeric && b.isNumeric then
      match a.toDouble?, b.toDouble? with
      | some x, some y => compareDoubles x y
      | _, _ => none
    else none

/-- Null equals null alone; other values are equal when they compare as equal. -/
def beq (a b : Value) : Bool :=
  match a, b with
  | .null, .null => true
  | .null, _ => false
  | _, .null => false
  | a, b => a.compare b == some .eq

instance : BEq Value := ⟨beq⟩

end Value

/-- An ordered list of fields. -/
abbrev Tuple := List Value

def Tuple.text (t : Tuple) : String :=
  "(" ++ String.intercalate "," (t.map Value.text) ++ ")"

end Dataflow
