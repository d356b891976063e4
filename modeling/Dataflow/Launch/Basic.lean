import Dataflow.Launch.Supervisor
import Dataflow.Stage.Compile
/-!
# Launching

A launch divides a plan into stages, binds the stages to jobs, hands the jobs to an engine and
watches them to the end.  However it ends, the jobs are stopped before it returns.
-/
namespace Dataflow

/-- What executes job graphs. -/
structure Engine (m : Type → Type) (F : Type) where
  compiler : CompilerConfig
  launcher : LauncherConfig F
  /-- Starts the jobs of a graph and hands back their control. -/
  submit : JobGraph → m (Except Fault (Control m F))

namespace Engine

variable {m : Type → Type} [Monad m] {F : Type} [Fraction F]

/-- The jobs of a plan. -/
def prepare (compiler : CompilerConfig) (plan : PhysicalPlan) (group : String) :
    Except Fault JobGraph :=
  match StageGraph.compile compiler plan with
  | .error e => .error e.fault
  | .ok stages => JobGraph.bind stages group

/-- Hands the jobs of a plan to the engine.  A launch that is cancelled already starts nothing. -/
def submitPlan (e : Engine m F) (env : Surroundings m F) (plan : PhysicalPlan) (group : String) :
    m (Except Fault (Control m F × Supervisor F)) :=
  match prepare e.compiler plan group with
  | .error fault => pure (.error fault)
  | .ok graph => do
    if ← env.cancelled then return .error .cancelled
    match ← e.submit graph with
    | .error fault => return .error fault
    | .ok control => return .ok (control, .start graph e.launcher)

/-- Runs a plan to its end and reports the outcome.  There is no answer after `polls` polls. -/
def launchWithReport (e : Engine m F) (env : Surroundings m F) (polls : Nat) (plan : PhysicalPlan)
    (group : String) : m (Option (Except Fault (Report F))) := do
  match ← e.submitPlan env plan group with
  | .error fault => return some (.error fault)
  | .ok (control, watch) =>
    let (result, _) ← watch.wait control env polls
    control.stop
    return result

/-- Runs a plan to its end and says whether all of it was completed. -/
def launch (e : Engine m F) (env : Surroundings m F) (polls : Nat) (plan : PhysicalPlan)
    (group : String) : m (Option (Except Fault Bool)) := do
  match ← e.launchWithReport env polls plan group with
  | some r => return some (r.map Report.completed)
  | none => return none

end Engine
end Dataflow
