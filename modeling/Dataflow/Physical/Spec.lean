import Dataflow.Physical.Operator
/-!
# Descriptions of physical plans

A `PlanSpec` is a physical plan as files carry it: a scope, and operators that name their inputs by
number.  An input may be listed after the operator that it feeds, so a plan is built in two passes,
first all operators and then all edges.
-/
namespace Dataflow

/-- The description of one operator. -/
structure OperatorSpec where
  id : Nat
  /-- The numbers of the producers, in order. -/
  inputs : List Nat
  kind : PhysicalKind
  deriving BEq

structure PlanSpec where
  scope : String
  operators : List OperatorSpec
  deriving BEq

namespace PlanSpec

/-- The scope of a plan that does not name one. -/
def defaultScope : String := "plan"

/-- The description of a plan.  The scope is that of the first operator. -/
def ofPlan (p : PhysicalPlan) : PlanSpec where
  scope := (p.operators.head?.map fun op => op.key.scope).getD defaultScope
  operators := p.operators.map fun op => ⟨op.key.id, op.inputs.map Key.id, op.kind⟩

/-- The operator that a description stands for. -/
def operator (s : PlanSpec) (op : OperatorSpec) : PhysicalOperator :=
  ⟨⟨s.scope, op.id⟩, op.kind, op.inputs.map fun i => ⟨s.scope, i⟩⟩

def addAll (s : PlanSpec) : List OperatorSpec → PhysicalPlan → Except PlanError PhysicalPlan
  | [], p => .ok p
  | op :: rest, p =>
    match p.add (s.operator op) with
    | .ok p => s.addAll rest p
    | .error e => .error e

/-- Feeds an operator from its inputs in order.  A repeated input is refused before an unknown
one. -/
def wire (target : Key) (seen : List Key) : List Key → PhysicalPlan → Except PlanError PhysicalPlan
  | [], p => .ok p
  | input :: rest, p =>
    if input ∈ seen then .error (.duplicateEdge input target)
    else if !p.contains input then .error (.unresolvedInput target input)
    else
      match p.connect input target with
      | .ok p => wire target (input :: seen) rest p
      | .error e => .error e

/-- Feeds operators from their inputs, operator by operator. -/
def wireAll : List PhysicalOperator → PhysicalPlan → Except PlanError PhysicalPlan
  | [], p => .ok p
  | op :: rest, p =>
    match wire op.key [] op.inputs p with
    | .ok p => wireAll rest p
    | .error e => .error e

/-- The plan that a description stands for. -/
def build (s : PlanSpec) : Except PlanError PhysicalPlan :=
  match s.addAll s.operators .empty with
  | .ok p => wireAll (s.operators.map s.operator) p
  | .error e => .error e

end PlanSpec
end Dataflow
