import Dataflow.Eval.Next
/-!
# Expressions

Operators that produce one value for each input tuple.  A composite operator pulls its operands from
left to right, ends with the first signal that it meets, and pulls nothing whose value it does not
need.  The leaves are constants, columns and operands from outside; what an outside operand does
when it is pulled is an action of an arbitrary monad, so it may keep a state of its own.
-/
namespace Dataflow

inductive CompareOp where
  | eq
  | ne
  | lt
  | le
  | gt
  | ge
  deriving DecidableEq

namespace CompareOp

/-- The symbol, which is also the name in files. -/
def text : CompareOp → String
  | .eq => "=="
  | .ne => "!="
  | .lt => "<"
  | .le => "<="
  | .gt => ">"
  | .ge => ">="

/-- The name of the operator that compares. -/
def kind : CompareOp → String
  | .eq => "EqualTo"
  | .ne => "NotEqualTo"
  | .lt => "LessThan"
  | .le => "LTE"
  | .gt => "GreaterThan"
  | .ge => "GTE"

/-- Whether the comparison holds of values in a given order. -/
def holds : CompareOp → Ordering → Bool
  | .eq, o => o == .eq
  | .ne, o => o != .eq
  | .lt, o => o == .lt
  | .le, o => o != .gt
  | .gt, o => o == .gt
  | .ge, o => o != .lt

def all : List CompareOp := [.eq, .ne, .lt, .le, .gt, .ge]

def toJson (op : CompareOp) : Json := .text op.text

/-- Reads a comparison; `nested` says whether it stands inside of another record. -/
def ofJson? (nested : Bool) : Json → Option CompareOp :=
  Json.name? (all.map fun op => (op.text, op)) nested

end CompareOp

/-- What is known of an operand from outside without pulling it. -/
class Operand (L : Type) where
  key : L → Key
  kind : L → String
  resultType : L → DataType

instance : Operand Empty := ⟨nofun, nofun, nofun⟩

/-- An expression over operands of type `L`. -/
inductive Expr (L : Type) where
  | constant (key : Key) (value : Value)
  | column (key : Key) (index : Nat) (type : DataType)
  | operand (leaf : L)
  | or (key : Key) (lhs rhs : Expr L)
  | and (key : Key) (lhs rhs : Expr L)
  | not (key : Key) (arg : Expr L)
  | compare (key : Key) (op : CompareOp) (lhs rhs : Expr L)
  | isNull (key : Key) (arg : Expr L)
  | cond (key : Key) (test yes no : Expr L)
  | cast (key : Key) (arg : Expr L) (target : DataType)

namespace Expr

variable {L : Type}

instance : Inhabited (Expr L) := ⟨.constant default .null⟩

section Description

variable [Operand L]

def key : Expr L → Key
  | .constant k _ => k
  | .column k _ _ => k
  | .operand l => Operand.key l
  | .or k _ _ => k
  | .and k _ _ => k
  | .not k _ => k
  | .compare k _ _ _ => k
  | .isNull k _ => k
  | .cond k _ _ _ => k
  | .cast k _ _ => k

def kind : Expr L → String
  | .constant _ _ => "Constant"
  | .column _ _ _ => "Project"
  | .operand l => Operand.kind l
  | .or _ _ _ => "Or"
  | .and _ _ _ => "And"
  | .not _ _ => "Not"
  | .compare _ op _ _ => op.kind
  | .isNull _ _ => "IsNull"
  | .cond _ _ _ _ => "BinCond"
  | .cast _ _ _ => "Cast"

/-- The declared type of the values that the operator produces.  A conditional has the type of its
first branch. -/
def resultType : Expr L → DataType
  | .constant _ v => v.dataType
  | .column _ _ t => t
  | .operand l => Operand.resultType l
  | .or _ _ _ => .boolean
  | .and _ _ _ => .boolean
  | .not _ _ => .boolean
  | .compare _ _ _ _ => .boolean
  | .isNull _ _ => .boolean
  | .cond _ _ yes _ => yes.resultType
  | .cast _ _ target => target

/-- The displayed name, such as `Or[boolean] - scope-3`. -/
def name (e : Expr L) : String :=
  e.kind ++ "[" ++ e.resultType.text ++ "] - " ++ e.key.text

end Description

/-! ## Evaluation -/

/-- The truth value of an operand, or the error of the operator `key` that needs one. -/
def expectBoolean (key : Key) (v : Value) : Except EvalError Bool :=
  match v.asBool? with
  | some b => .ok b
  | none => .error (.typeMismatch key .boolean v.dataType)

/-- The result of a constant: a null constant is the null signal. -/
def constantResult : Value → Next Value
  | .null => .null
  | v => .ok v

def columnResult (key : Key) (index : Nat) (t : Tuple) : Next Value :=
  match t[index]? with
  | none => .error (.columnOutOfRange key index t.length)
  | some v => constantResult v

def compareResult (key : Key) (op : CompareOp) (a b : Value) : Next Value :=
  match a.compare b with
  | some o => .ok (.boolean (op.holds o))
  | none => .error (.incomparable key a.dataType b.dataType)

def castResult (key : Key) (target : DataType) (v : Value) : Next Value :=
  match v.cast target with
  | .ok w => constantResult w
  | .error reason => .error (.failed key reason)

variable {m : Type → Type} [Monad m]

/-- Continues with a truth value. -/
def withBoolean (key : Key) (v : Value) (next : Bool → m (Next Value)) : m (Next Value) :=
  match expectBoolean key v with
  | .ok b => next b
  | .error e => pure (.error e)

/-- Produces the value for a tuple.  `ask` pulls an operand from outside. -/
def pull (ask : L → Tuple → m (Next Value)) : Expr L → Tuple → m (Next Value)
  | .constant _ v, _ => pure (constantResult v)
  | .column k i _, t => pure (columnResult k i t)
  | .operand l, t => ask l t
  | .or k lhs rhs, t =>
    Next.andThen (lhs.pull ask t) fun a => withBoolean k a fun a =>
      if a then pure (.ok (.boolean true))
      else Next.andThen (rhs.pull ask t) fun b => withBoolean k b fun b => pure (.ok (.boolean b))
  | .and k lhs rhs, t =>
    Next.andThen (lhs.pull ask t) fun a => withBoolean k a fun a =>
      if a then
        Next.andThen (rhs.pull ask t) fun b => withBoolean k b fun b => pure (.ok (.boolean b))
      else pure (.ok (.boolean false))
  | .not k arg, t =>
    Next.andThen (arg.pull ask t) fun a => withBoolean k a fun a => pure (.ok (.boolean !a))
  | .compare k op lhs rhs, t =>
    Next.andThen (lhs.pull ask t) fun a => Next.andThen (rhs.pull ask t) fun b =>
      pure (compareResult k op a b)
  | .isNull _ arg, t => do
    match ← arg.pull ask t with
    | .null => pure (.ok (.boolean true))
    | .ok v => pure (.ok (.boolean v.isNull))
    | .endOfData => pure .endOfData
    | .error e => pure (.error e)
  | .cond k test yes no, t =>
    Next.andThen (test.pull ask t) fun a => withBoolean k a fun a =>
      if a then yes.pull ask t else no.pull ask t
  | .cast k arg target, t => Next.andThen (arg.pull ask t) fun a => pure (castResult k target a)

/-- The value of an expression without operands from outside. -/
def eval (e : Expr Empty) (t : Tuple) : Next Value :=
  Id.run (e.pull (fun l _ => nomatch l) t)

end Expr
end Dataflow
