import Dataflow.Fault
/-!
# Plan errors

What can go wrong while a plan is built, checked or traversed.  Each of these ends the operation
that raised it.
-/
namespace Dataflow

/-- Why a plan was refused or a traversal ended. -/
inductive PlanError where
  | duplicateOperator (key : Key)
  | unknownOperator (key : Key)
  /-- An edge would feed an operator into itself. -/
  | selfLoop (key : Key)
  | duplicateEdge (source target : Key)
  | cycle (key : Key)
  /-- An operator declares an input that does not feed it. -/
  | unresolvedInput (operator input : Key)
  /-- The outermost walker of a stack would be removed. -/
  | stackUnderflow
  /-- A visitor gave up at an operator. -/
  | aborted (operator : Key) (reason : String)
  deriving DecidableEq

namespace PlanError

def message : PlanError → String
  | .duplicateOperator k => "operator " ++ k.text ++ " already exists in the plan"
  | .unknownOperator k => "operator " ++ k.text ++ " is not in the plan"
  | .selfLoop k => "operator " ++ k.text ++ " cannot feed itself"
  | .duplicateEdge a b => "edge " ++ a.text ++ " -> " ++ b.text ++ " already exists"
  | .cycle k => "plan contains a cycle through " ++ k.text
  | .unresolvedInput k i => "operator " ++ k.text ++ " has unresolved input " ++ i.text
  | .stackUnderflow => "walker stack underflow"
  | .aborted k r => "visitor failed at " ++ k.text ++ ": " ++ r

/-- Whether the plan itself is malformed, rather than a visitor having failed. -/
def isStructural : PlanError → Bool
  | .stackUnderflow => false
  | .aborted _ _ => false
  | _ => true

/-- The fault that the error becomes outside of plans. -/
def fault (e : PlanError) : Fault :=
  if e.isStructural then .planStructure e.message else .traversal e.message

end PlanError
end Dataflow
