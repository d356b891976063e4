import Dataflow.Plan.Error
/-!
# Compile errors

Why a physical plan cannot be divided into stages.
-/
namespace Dataflow

/-- Why a plan was not compiled. -/
inductive CompileError where
  /-- The plan itself is malformed. -/
  | plan (error : PlanError)
  /-- An operator has the wrong number of inputs. -/
  | arity (operator : Key) (expected : String) (found : Nat)
  /-- An operator asks for no partitions at all. -/
  | zeroParallelism (operator : Key)
  /-- The input of an operator belongs to no stage. -/
  | missingStage (operator : Key)
  | cycle (stage : StageId)
  | emptyPlan
  deriving DecidableEq

namespace CompileError

def message : CompileError → String
  | .plan e => e.message
  | .arity k expected found =>
    k.text ++ " takes " ++ expected ++ " inputs, found " ++ toString found
  | .zeroParallelism k => k.text ++ " requests a parallelism of 0"
  | .missingStage k => "no stage produces the input of " ++ k.text
  | .cycle s => "stage graph has a cycle through " ++ s.text
  | .emptyPlan => "physical plan has no operators"

/-- The fault that the error becomes outside of the compiler. -/
def fault : CompileError → Fault
  | .plan e => e.fault
  | .missingStage k => .internal (CompileError.missingStage k).message
  | e => .planStructure e.message

end CompileError
end Dataflow
