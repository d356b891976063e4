import Dataflow.Physical.Operator
/-!
# Building physical plans

A builder draws the keys of one scope and feeds every operator from its inputs while it is added.  A
refused operator keeps its place and its number, with the edges that were made before the refusal.
-/
namespace Dataflow

/-- A plan under construction and the keys that are left. -/
structure PlanBuilder where
  keys : KeySupply
  plan : PhysicalPlan

namespace PlanBuilder

/-- An empty plan whose keys live in a scope. -/
def ofScope (scope : String) : PlanBuilder := ⟨KeySupply.ofScope scope, .empty⟩

/-- Adds an operator that is fed by `inputs` in order. -/
def add (b : PlanBuilder) (kind : PhysicalKind) (inputs : List Key) :
    Except PlanError Key × PlanBuilder :=
  let (key, keys) := b.keys.draw
  match b.plan.addWithInputs ⟨key, kind, inputs⟩ inputs with
  | (plan, none) => (.ok key, ⟨keys, plan⟩)
  | (plan, some e) => (.error e, ⟨keys, plan⟩)

/-- Adds an operator that reads a location. -/
def load (b : PlanBuilder) (location : String) : Except PlanError Key × PlanBuilder :=
  b.add (.load location) []

/-- Adds an operator that keeps the tuples which meet a condition. -/
def filter (b : PlanBuilder) (condition : ExprSpec) (input : Key) :
    Except PlanError Key × PlanBuilder :=
  b.add (.filter condition) [input]

/-- Adds an operator that writes a location. -/
def store (b : PlanBuilder) (location : String) (input : Key) :
    Except PlanError Key × PlanBuilder :=
  b.add (.store location) [input]

end PlanBuilder
end Dataflow
