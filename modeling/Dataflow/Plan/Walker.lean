import Dataflow.Plan.Order
import Dataflow.Text.Quoted
/-!
# Walkers

A walker decides in which order the operators of one plan are handed to a visitor.  Visitors keep
their walkers on a stack: entering a nested plan pushes a walker for it, leaving the plan pops that
walker, and the walker of the outermost plan is never popped.
-/
namespace Dataflow

/-- The orders in which a plan can be walked. -/
inductive Strategy where
  /-- From the roots along the consumers, each operator once. -/
  | depthFirst
  /-- Producers before consumers. -/
  | dependencyOrder
  /-- Consumers before producers. -/
  | reverseDependencyOrder
  deriving DecidableEq

namespace Strategy

def name : Strategy → String
  | .depthFirst => "depth-first"
  | .dependencyOrder => "dependency-order"
  | .reverseDependencyOrder => "reverse-dependency-order"

def all : List Strategy := [.depthFirst, .dependencyOrder, .reverseDependencyOrder]

def ofName? (name : String) : Option Strategy := all.find? fun s => s.name = name

/-- The name of the walkers with a strategy. -/
def walkerName : Strategy → String
  | .depthFirst => "DepthFirstWalker"
  | .dependencyOrder => "DependencyOrderWalker"
  | .reverseDependencyOrder => "ReverseDependencyOrderWalker"

end Strategy

/-- A strategy and the plan to walk. -/
structure Walker (α : Type) where
  strategy : Strategy
  plan : Plan α

namespace Walker

variable {α : Type}

/-- A walker of the same strategy over another plan. -/
def spawn (w : Walker α) (plan : Plan α) : Walker α := { w with plan }

/-- A description with the number of operators. -/
def describe (w : Walker α) : String :=
  w.strategy.walkerName ++ " \x7b operators: " ++ toString w.plan.size ++ " \x7d"

variable [PlanNode α]

/-- The keys of the operators in the order of the walker. -/
def keys (w : Walker α) : Except PlanError (List Key) :=
  match w.strategy with
  | .depthFirst => w.plan.depthFirstKeys
  | .dependencyOrder => w.plan.dependencyKeys
  | .reverseDependencyOrder => w.plan.reverseDependencyKeys

/-- The operators in the order of the walker. -/
def sequence (w : Walker α) : Except PlanError (List { op : α // op ∈ w.plan.operators }) :=
  w.keys.map w.plan.resolve

end Walker

/-- The walkers of a visitor: one for the outermost plan, and above it one for each nested plan that
was entered and not yet left, the innermost first. -/
structure Walkers (W : Type) where
  base : W
  nested : List W := []

namespace Walkers

variable {W : Type}

/-- The walker in effect. -/
def current (s : Walkers W) : W :=
  match s.nested with
  | [] => s.base
  | w :: _ => w

/-- The number of walkers, the outermost included. -/
def depth (s : Walkers W) : Nat := s.nested.length + 1

def push (s : Walkers W) (w : W) : Walkers W := { s with nested := w :: s.nested }

/-- Removes the current walker, unless it is the outermost one. -/
def pop (s : Walkers W) : Except PlanError (W × Walkers W) :=
  match s.nested with
  | [] => .error .stackUnderflow
  | w :: rest => .ok (w, { s with nested := rest })

end Walkers

/-- The walkers of a visitor that walks by strategies. -/
abbrev WalkerStack (α : Type) : Type := Walkers (Walker α)

/-- A description of a plan with its size and its roots. -/
def Plan.describe {α : Type} [PlanNode α] (p : Plan α) : String :=
  "OperatorPlan \x7b operators: " ++ toString p.size ++ ", roots: [" ++
    String.intercalate ", " (p.roots.map fun op => Text.quoted (PlanNode.key op).text) ++ "] \x7d"

end Dataflow
