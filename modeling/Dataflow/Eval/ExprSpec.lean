import Dataflow.Eval.Expr
/-!
# Descriptions of expressions

An `ExprSpec` is an expression as plans carry it: without keys.  `ExprSpec.build` draws a key for
every node, a node before its operands and operands from left to right, so a node's number is the
first number plus its position in the description.
-/
namespace Dataflow

inductive ExprSpec where
  | const (value : Literal)
  | column (index : Nat) (dataType : DataType)
  | or (lhs rhs : ExprSpec)
  | and (lhs rhs : ExprSpec)
  | not (operand : ExprSpec)
  | compare (cmp : CompareOp) (lhs rhs : ExprSpec)
  | isNull (operand : ExprSpec)
  | binCond (cond lhs rhs : ExprSpec)
  | cast (operand : ExprSpec) (target : DataType)
  deriving BEq

namespace ExprSpec

instance : Inhabited ExprSpec := ⟨.const .null⟩

def size : ExprSpec → Nat
  | .const _ => 1
  | .column _ _ => 1
  | .or a b => a.size + b.size + 1
  | .and a b => a.size + b.size + 1
  | .not a => a.size + 1
  | .compare _ a b => a.size + b.size + 1
  | .isNull a => a.size + 1
  | .binCond a b c => a.size + b.size + c.size + 1
  | .cast a _ => a.size + 1

def text : ExprSpec → String
  | .const v => v.text
  | .column i _ => "$" ++ toString i
  | .or a b => "(" ++ a.text ++ " or " ++ b.text ++ ")"
  | .and a b => "(" ++ a.text ++ " and " ++ b.text ++ ")"
  | .not a => "not " ++ a.text
  | .compare op a b => "(" ++ a.text ++ " " ++ op.text ++ " " ++ b.text ++ ")"
  | .isNull a => a.text ++ " is null"
  | .binCond a b c => "(" ++ a.text ++ " ? " ++ b.text ++ " : " ++ c.text ++ ")"
  | .cast a t => "(" ++ t.text ++ ")" ++ a.text

/-- The expression that a description stands for, and the supply that is left. -/
def build {L : Type} (e : ExprSpec) (keys : KeySupply) : Expr L × KeySupply :=
  let (key, keys) := keys.draw
  match e with
  | .const v => (.constant key (Value.ofLiteral v), keys)
  | .column i t => (.column key i t, keys)
  | .or a b =>
    let (a, keys) := a.build keys
    let (b, keys) := b.build keys
    (.or key a b, keys)
  | .and a b =>
    let (a, keys) := a.build keys
    let (b, keys) := b.build keys
    (.and key a b, keys)
  | .not a =>
    let (a, keys) := a.build keys
    (.not key a, keys)
  | .compare op a b =>
    let (a, keys) := a.build keys
    let (b, keys) := b.build keys
    (.compare key op a b, keys)
  | .isNull a =>
    let (a, keys) := a.build keys
    (.isNull key a, keys)
  | .binCond a b c =>
    let (a, keys) := a.build keys
    let (b, keys) := b.build keys
    let (c, keys) := c.build keys
    (.cond key a b c, keys)
  | .cast a t =>
    let (a, keys) := a.build keys
    (.cast key a t, keys)

/-! ## In files -/

/-- The names of the forms, in the order of the forms. -/
def tags : List String :=
  ["const", "column", "or", "and", "not", "compare", "is_null", "bin_cond", "cast"]

/-- The form of an expression in plan files. -/
def toJson : ExprSpec → Json
  | .const v => .object [("op", .text "const"), ("value", v.toJson)]
  | .column i t =>
    .object [("op", .text "column"), ("index", Json.ofNat i), ("data_type", t.toJson)]
  | .or a b => .object [("op", .text "or"), ("lhs", a.toJson), ("rhs", b.toJson)]
  | .and a b => .object [("op", .text "and"), ("lhs", a.toJson), ("rhs", b.toJson)]
  | .not a => .object [("op", .text "not"), ("operand", a.toJson)]
  | .compare op a b =>
    .object [("op", .text "compare"), ("cmp", op.toJson), ("lhs", a.toJson), ("rhs", b.toJson)]
  | .isNull a => .object [("op", .text "is_null"), ("operand", a.toJson)]
  | .binCond a b c =>
    .object [("op", .text "bin_cond"), ("cond", a.toJson), ("lhs", b.toJson), ("rhs", c.toJson)]
  | .cast a t => .object [("op", .text "cast"), ("operand", a.toJson), ("to", t.toJson)]

/-- Reads an expression; `nested` says whether it stands inside of another record, and `fuel` bounds
the nesting. -/
def decode (nested : Bool) : Nat → Json → Option ExprSpec
  | 0, _ => none
  | fuel + 1, j =>
    let expr := Json.required? (decode true fuel)
    match j.tagged? "op" tags nested with
    | some (0, r) =>
      match r.fields? ["value"] with
      | some [v] => (Json.required? (Literal.ofJson? true) v).map .const
      | _ => none
    | some (1, r) =>
      match r.fields? ["index", "data_type"] with
      | some [i, t] => do
        return .column (← Json.required? Json.nat? i)
          (← Json.withDefault? .unknown (DataType.ofJson? true) t)
      | _ => none
    | some (2, r) =>
      match r.fields? ["lhs", "rhs"] with
      | some [a, b] => do return .or (← expr a) (← expr b)
      | _ => none
    | some (3, r) =>
      match r.fields? ["lhs", "rhs"] with
      | some [a, b] => do return .and (← expr a) (← expr b)
      | _ => none
    | some (4, r) =>
      match r.fields? ["operand"] with
      | some [a] => (expr a).map .not
      | _ => none
    | some (5, r) =>
      match r.fields? ["cmp", "lhs", "rhs"] with
      | some [op, a, b] => do
        return .compare (← Json.required? (CompareOp.ofJson? true) op) (← expr a) (← expr b)
      | _ => none
    | some (6, r) =>
      match r.fields? ["operand"] with
      | some [a] => (expr a).map .isNull
      | _ => none
    | some (7, r) =>
      match r.fields? ["cond", "lhs", "rhs"] with
      | some [a, b, c] => do return .binCond (← expr a) (← expr b) (← expr c)
      | _ => none
    | some (8, r) =>
      match r.fields? ["operand", "to"] with
      | some [a, t] => do return .cast (← expr a) (← Json.required? (DataType.ofJson? true) t)
      | _ => none
    | _ => none

/-- Reads an expression that stands on its own. -/
def ofJson? (j : Json) : Option ExprSpec := decode false (j.height + 1) j

/-- Reads an expression that stands inside of another record. -/
def ofNestedJson? (j : Json) : Option ExprSpec := decode true (j.height + 1) j

end ExprSpec
end Dataflow
