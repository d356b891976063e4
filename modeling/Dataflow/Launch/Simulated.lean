import Dataflow.Engine.Simulated
import Dataflow.Launch.Basic
import Dataflow.Launch.Scene
/-!
# Simulated launches

Launches whose jobs only pretend to work, on a clock that moves as fast as it can.
-/
namespace Dataflow.Simulation

variable {F : Type} [Fraction F]

abbrev SimulatedScene (F : Type) := Scene (SimulatedRun F) F

/-- The engine that simulates its jobs. -/
def engine (s : Simulation) (compiler : CompilerConfig) (launcher : LauncherConfig F) :
    Engine (StateM (SimulatedScene F)) F where
  compiler
  launcher
  submit graph := fun scene =>
    (.ok (Scene.control SimulatedRun.control), { scene with run := .ofGraph s graph })

/-- As many polls as can be needed: all steps of all jobs, one after the other, and one more. -/
def polls (s : Simulation) (launcher : LauncherConfig F) (jobs : Nat) : Nat :=
  Scene.pollsWithin launcher.pollInterval (jobs * s.stepCount * s.stepTime) + 1

/-- Runs a plan on simulated jobs.  There is no answer if the jobs outlast every poll. -/
def launch (s : Simulation) (compiler : CompilerConfig) (launcher : LauncherConfig F)
    (cancelAt : Option Nat) (plan : PhysicalPlan) (group : String) :
    Option (Except Fault (Report F)) :=
  let scene : SimulatedScene F := Scene.start (.ofGraph s ⟨group, []⟩) cancelAt
  let polls := s.polls launcher (2 * plan.size)
  ((s.engine compiler launcher).launchWithReport (Scene.surroundings SimulatedRun.elapse) polls plan
    group scene).1

end Dataflow.Simulation
