import Dataflow.Json.Decode
/-!
# Types, literals and the operators of expressions

The types that values and columns can have, the constants that plans can hold, and the unary and
binary operators of logical expressions, each with its displayed name and its name in plan files.
-/
namespace Dataflow

/-- The type of a value or of a column. -/
inductive DataType where
  /-- Not yet known. -/
  | unknown
  | boolean
  | int
  | long
  | double
  | charArray
  | byteArray
  | tuple
  | bag
  deriving DecidableEq

namespace DataType

def text : DataType → String
  | .unknown => "unknown"
  | .boolean => "boolean"
  | .int => "int"
  | .long => "long"
  | .double => "double"
  | .charArray => "chararray"
  | .byteArray => "bytearray"
  | .tuple => "tuple"
  | .bag => "bag"

def fileName : DataType → String
  | .charArray => "char_array"
  | .byteArray => "byte_array"
  | t => t.text

def all : List DataType :=
  [.unknown, .boolean, .int, .long, .double, .charArray, .byteArray, .tuple, .bag]

def toJson (t : DataType) : Json := .text t.fileName

/-- Reads a type; `nested` says whether it stands inside of another record. -/
def ofJson? (nested : Bool) : Json → Option DataType :=
  Json.name? (all.map fun t => (t.fileName, t)) nested

end DataType

/-- A constant of a plan. -/
inductive Literal where
  | null
  | boolean (b : Bool)
  /-- A whole number; its type is long. -/
  | int (n : Int64)
  | double (x : Float)
  | charArray (s : String)
  deriving BEq

/-- Values are displayed with the fewest digits that read back, always written out. -/
def plainDoubles : Decimal.Notation where
  positional := none
  wholeMark := ""
  tie := .up
  nan := "NaN"
  infinity := "inf"

def boolText (b : Bool) : String := if b then "true" else "false"

def intText : Int → String
  | .ofNat n => toString n
  | .negSucc n => "-" ++ toString (n + 1)

namespace Literal

def dataType : Literal → DataType
  | .null => .unknown
  | .boolean _ => .boolean
  | .int _ => .long
  | .double _ => .double
  | .charArray _ => .charArray

def text : Literal → String
  | .null => "null"
  | .boolean b => boolText b
  | .int n => intText n.toInt
  | .double x => plainDoubles.write x
  | .charArray s => "'" ++ s ++ "'"

def toJson : Literal → Json
  | .null => .text "Null"
  | .boolean b => .object [("Boolean", .bool b)]
  | .int n => .object [("Int", Json.ofInt n.toInt)]
  | .double x => .object [("Double", .number (.double x))]
  | .charArray s => .object [("CharArray", .text s)]

/-- Reads a literal: a null by its name, anything else as an object with the one member that names
its kind; `nested` says whether it stands inside of another record. -/
def ofJson? (nested : Bool) : Json → Option Literal
  | .text s => if s = "Null" then some .null else none
  | .object [(kind, j)] =>
    if kind = "Null" then if j.isUnit nested then some .null else none
    else if kind = "Boolean" then j.bool?.map .boolean
    else if kind = "Int" then j.int64?.map .int
    else if kind = "Double" then j.double?.map .double
    else if kind = "CharArray" then j.text?.map .charArray
    else none
  | _ => none

end Literal

/-- The binary operators of expressions. -/
inductive BinaryOp where
  | add
  | subtract
  | multiply
  | divide
  | mod
  | equal
  | notEqual
  | less
  | lessEq
  | greater
  | greaterEq
  | and
  | or
  deriving DecidableEq

namespace BinaryOp

/-- Whether the operator yields a truth value. -/
def isBoolean : BinaryOp → Bool
  | .add => false
  | .subtract => false
  | .multiply => false
  | .divide => false
  | .mod => false
  | _ => true

def text : BinaryOp → String
  | .add => "Add"
  | .subtract => "Subtract"
  | .multiply => "Multiply"
  | .divide => "Divide"
  | .mod => "Mod"
  | .equal => "Equal"
  | .notEqual => "NotEqual"
  | .less => "LessThan"
  | .lessEq => "LessThanEqual"
  | .greater => "GreaterThan"
  | .greaterEq => "GreaterThanEqual"
  | .and => "And"
  | .or => "Or"

def fileName : BinaryOp → String
  | .less => "Less"
  | .lessEq => "LessEq"
  | .greater => "Greater"
  | .greaterEq => "GreaterEq"
  | op => op.text

def all : List BinaryOp :=
  [.add, .subtract, .multiply, .divide, .mod, .equal, .notEqual, .less, .lessEq, .greater,
    .greaterEq, .and, .or]

def toJson (op : BinaryOp) : Json := .text op.fileName

def ofJson? : Json → Option BinaryOp := Json.name? (all.map fun op => (op.fileName, op)) false

end BinaryOp

/-- The unary operators of expressions. -/
inductive UnaryOp where
  | not
  | negative
  | isNull
  deriving DecidableEq

namespace UnaryOp

/-- The displayed name, which is also the name in files. -/
def text : UnaryOp → String
  | .not => "Not"
  | .negative => "Negative"
  | .isNull => "IsNull"

def all : List UnaryOp := [.not, .negative, .isNull]

def toJson (op : UnaryOp) : Json := .text op.text

def ofJson? : Json → Option UnaryOp := Json.name? (all.map fun op => (op.text, op)) false

end UnaryOp
end Dataflow
