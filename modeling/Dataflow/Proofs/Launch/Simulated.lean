import Dataflow.Launch.Simulated
import Dataflow.Proofs.Launch.Watching
/-!
# Simulated launches

The jobs of a simulated launch do what jobs may do, so its reports are made of a finished run like
all others, in whatever numbers progress is counted.

**Proved here.**

    time passes in steps of the run                (`SimulatedRun.steps_elapse`)
    the engine is local                            (`Simulation.isLocal_engine`)
    the report of a simulated launch               (`Simulation.launch_eq_some_ok`)
-/
namespace Dataflow
variable {F : Type} [Fraction F]

namespace SimulatedRun

theorem steps_finishJob (r : SimulatedRun F) (job : Job) (result : Except String JobCounters) :
    LocalRun.Steps r.run (r.finishJob job result).run :=
  LocalRun.steps_finishJob r.run job.id result

theorem steps_endStep (r : SimulatedRun F) (t : SimulatedTask) :
    LocalRun.Steps r.run (r.endStep t).run := by
  have htick : LocalRun.Steps r.run (r.run.tick (max r.run.now t.due)) := .single (.tick _ _)
  simp only [endStep]
  split
  next => exact htick.trans (steps_finishJob { r with run := r.run.tick _ } _ _)
  next =>
    have hreport := htick.tail (.report _ t.job.id ((t.step : F) / (r.simulation.stepCount : F)))
    split
    next => exact hreport
    next => exact hreport.trans (steps_finishJob { r with run := (r.run.tick _).report _ _ } _ _)

theorem steps_endSteps (now n : Nat) (r : SimulatedRun F) :
    LocalRun.Steps r.run (endSteps now n r).run := by
  induction n generalizing r with
  | zero => exact .refl
  | succ n ih =>
      simp only [endSteps]
      split
      next t _ =>
        split
        next => exact (r.steps_endStep t).trans (ih _)
        next => exact .refl
      next => exact .refl

theorem steps_elapse (now : Nat) (r : SimulatedRun F) : LocalRun.Steps r.run (r.elapse now).run :=
  ((LocalRun.steps_settle r.run).trans (steps_endSteps now _ r.settle)).tail (.tick _ now)

end SimulatedRun

namespace Simulation

def view (scene : SimulatedScene F) : LocalRun F := scene.run.run

theorem lets_surroundings :
    (Scene.surroundings SimulatedRun.elapse).Lets (view : SimulatedScene F → LocalRun F) := by
  refine ⟨fun _ _ => .refl, ?_, fun _ => .refl⟩
  intro n scene
  simp only [Scene.surroundings, Scene.pause]
  split
  next =>
    split
    next => exact SimulatedRun.steps_elapse _ _
    next => exact SimulatedRun.steps_elapse _ _
  next => exact SimulatedRun.steps_elapse _ _

theorem drives_control :
    (Scene.control SimulatedRun.control).Drives (view : SimulatedScene F → LocalRun F) where
  finished _ := ⟨_, .refl, rfl, .refl⟩
  status _ _ := ⟨_, .refl, rfl, .refl⟩
  progress _ _ := ⟨_, .refl, rfl, .refl⟩
  succeeded _ := ⟨_, .refl, rfl, .refl⟩
  failed _ := ⟨_, .refl, rfl, .refl⟩
  stats _ _ := ⟨_, .refl, rfl, .refl⟩
  stop _ := ⟨_, .refl, rfl, .refl⟩

theorem isLocal_engine (s : Simulation) (compiler : CompilerConfig) (launcher : LauncherConfig F) :
    (s.engine compiler launcher).IsLocal view :=
  fun _ _ _ => ⟨_, rfl, drives_control, .refl⟩

/-- The report of a simulated launch is that of a run of its jobs which is finished. -/
theorem launch_eq_some_ok {s : Simulation} {compiler : CompilerConfig}
    {launcher : LauncherConfig F} {cancelAt : Option Nat} {plan : PhysicalPlan} {group : String}
    {report : Report F} (h : s.launch compiler launcher cancelAt plan group = some (.ok report)) :
    ∃ g r, Engine.prepare compiler plan group = .ok g ∧ LocalRun.Ended g r.table r ∧
      Outcome launcher r.table report := by
  obtain ⟨g, t, hg, hend, houtcome⟩ := ensures_launchWithReport (s.isLocal_engine compiler launcher)
    lets_surroundings _ plan group _ trivial report h
  obtain rfl := hend.table
  exact ⟨g, _, hg, hend, houtcome⟩

end Simulation
end Dataflow
