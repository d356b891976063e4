import Dataflow.Logical.Traversal
/-!
# Analyses of logical plans

Two visitors: one writes a plan as an indented tree, the other collects the functions of the user
that a plan refers to.
-/
namespace Dataflow.LogicalPlan

/-- Writes each operator on a line of its own, indented by two blanks for each nested plan around
it. -/
def treePrinter : Visitor String where
  enter op stack out :=
    (.ok true,
      out ++ String.ofList (List.replicate (2 * (stack.depth - 1)) ' ') ++ PlanNode.name op ++ "\n")

/-- The plan as an indented tree, in dependency order; operands stand below their consumer. -/
def tree (plan : LogicalPlan) : Except PlanError String :=
  let (result, v) := treePrinter.run .dependencyOrder plan ""
  result.map fun _ => v.state

/-- Collects the names of functions, the latest first. -/
def functionCollector : Visitor (List String) where
  enter op _ names :=
    match op with
    | .userFunc _ function _ => (.ok true, function :: names)
    | _ => (.ok true, names)

/-- Sorted text in which each text stands once. -/
def sortedDistinct (names : List String) : List String :=
  names.eraseDups.mergeSort fun a b => decide (a ≤ b)

/-- The names of the functions that a walk of the plan meets, sorted. -/
def referencedFunctions (plan : LogicalPlan) : Except PlanError (List String) :=
  let (result, v) := functionCollector.run .dependencyOrder plan []
  result.map fun _ => sortedDistinct v.state

end Dataflow.LogicalPlan
