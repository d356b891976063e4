import Dataflow.Eval.ExprSpec
import Dataflow.Plan.Basic
/-!
# Physical operators

The operators that stages are made of.  Each names its inputs in order; the edges of its plan have
to agree with them.  What matters for the division into stages is the category of an operator:
whether it reads, writes, passes tuples on, merges, or needs its input redistributed.
-/
namespace Dataflow

/-- How an operator moves tuples between partitions. -/
inductive Redistribution where
  /-- Tuples stay where they are. -/
  | inPlace
  /-- Tuples are divided by a hash of their key. -/
  | hash
  /-- Tuples are divided into ranges of a total order. -/
  | totalOrder
  deriving DecidableEq

namespace Redistribution

/-- Whether the input has to be divided anew. -/
def isBoundary : Redistribution → Bool
  | .inPlace => false
  | .hash => true
  | .totalOrder => true

def text : Redistribution → String
  | .inPlace => "none"
  | .hash => "hash"
  | .totalOrder => "total order"

end Redistribution

/-- The part that an operator plays in the division into stages. -/
inductive Category where
  | load
  | store
  /-- One input, and tuples stay where they are. -/
  | pipeline
  /-- Several inputs, and tuples stay where they are. -/
  | union
  /-- Divides its input by a hash. -/
  | hash
  /-- Divides its input into sorted ranges. -/
  | sort
  deriving DecidableEq

inductive PhysicalKind where
  | load (location : String)
  | store (location : String)
  | filter (condition : ExprSpec)
  /-- Produces one column for each expression. -/
  | forEach (generate : List ExprSpec)
  | limit (count : Nat)
  /-- Concatenates its inputs. -/
  | union
  /-- Feeds its input to several consumers. -/
  | split
  | group (keys : List Nat) (parallelism : Option Nat)
  /-- Groups several inputs, each by columns of its own. -/
  | cogroup (keys : List (List Nat)) (parallelism : Option Nat)
  | join (keys : List (List Nat)) (parallelism : Option Nat)
  | distinct (parallelism : Option Nat)
  | sort (keys : List Nat) (ascending : List Bool) (parallelism : Option Nat)
  deriving BEq

namespace PhysicalKind

instance : Inhabited PhysicalKind := ⟨.union⟩

def name : PhysicalKind → String
  | .load _ => "Load"
  | .store _ => "Store"
  | .filter _ => "Filter"
  | .forEach _ => "ForEach"
  | .limit _ => "Limit"
  | .union => "Union"
  | .split => "Split"
  | .group _ _ => "Group"
  | .cogroup _ _ => "Cogroup"
  | .join _ _ => "Join"
  | .distinct _ => "Distinct"
  | .sort _ _ _ => "Sort"

def category : PhysicalKind → Category
  | .load _ => .load
  | .store _ => .store
  | .filter _ => .pipeline
  | .forEach _ => .pipeline
  | .limit _ => .pipeline
  | .union => .union
  | .split => .pipeline
  | .group _ _ => .hash
  | .cogroup _ _ => .hash
  | .join _ _ => .hash
  | .distinct _ => .hash
  | .sort _ _ _ => .sort

def redistribution (k : PhysicalKind) : Redistribution :=
  match k.category with
  | .hash => .hash
  | .sort => .totalOrder
  | _ => .inPlace

/-- The number of partitions that is asked for. -/
def parallelism : PhysicalKind → Option Nat
  | .group _ n => n
  | .cogroup _ n => n
  | .join _ n => n
  | .distinct n => n
  | .sort _ _ n => n
  | _ => none

/-- The least and the greatest number of inputs. -/
def arity : PhysicalKind → Nat × Option Nat
  | .load _ => (0, some 0)
  | .union => (1, none)
  | .cogroup _ _ => (1, none)
  | .join _ _ => (1, none)
  | _ => (1, some 1)

/-- The number of key lists, for the operators that have one for each input. -/
def keyLists : PhysicalKind → Option Nat
  | .cogroup keys _ => some keys.length
  | .join keys _ => some keys.length
  | _ => none

def columnsText (columns : List Nat) : String :=
  "[" ++ String.intercalate ", " (columns.map toString) ++ "]"

/-- The arguments as text, for the operators that show them. -/
def detail : PhysicalKind → Option String
  | .load location => some location
  | .store location => some location
  | .filter condition => some condition.text
  | .forEach generate => some (String.intercalate ", " (generate.map ExprSpec.text))
  | .limit count => some (toString count)
  | .union => none
  | .split => none
  | .group keys _ => some (columnsText keys)
  | .cogroup keys _ => some ("[" ++ String.intercalate ", " (keys.map columnsText) ++ "]")
  | .join keys _ => some ("[" ++ String.intercalate ", " (keys.map columnsText) ++ "]")
  | .distinct _ => none
  | .sort keys _ _ => some (columnsText keys)

end PhysicalKind

structure PhysicalOperator where
  key : Key
  kind : PhysicalKind
  /-- The producers, in order. -/
  inputs : List Key

abbrev PhysicalPlan := Plan PhysicalOperator

namespace PhysicalOperator

instance : Inhabited PhysicalOperator := ⟨⟨default, default, []⟩⟩

/-- The displayed name; what flows between physical operators are bags. -/
def name (op : PhysicalOperator) : String := op.kind.name ++ "[bag] - " ++ op.key.text

instance : PlanNode PhysicalOperator where
  key := key
  name := name
  declaredInputs op := some op.inputs

def describe (op : PhysicalOperator) : String :=
  match op.kind.detail with
  | some detail => op.name ++ " (" ++ detail ++ ")"
  | none => op.name

end PhysicalOperator
end Dataflow
