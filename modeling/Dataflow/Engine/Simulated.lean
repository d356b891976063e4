import Dataflow.Engine.Local
import Dataflow.Timer
import Dataflow.Word
/-!
# Simulated runs

A local run whose jobs only pretend to work: each takes a number of steps of equal length, reports
its progress after each step, and fails halfway through if it was told to.
-/
namespace Dataflow

/-- How jobs pretend to work. -/
structure Simulation where
  /-- The number of steps of each job. -/
  steps : Nat := 4
  /-- The length of a step, in milliseconds. -/
  delay : Nat := 1
  /-- The stages whose jobs fail. -/
  failing : List StageId := []

namespace Simulation

/-- Every job takes at least one step. -/
def stepCount (s : Simulation) : Nat := max s.steps 1

def stepTime (s : Simulation) : Nat := Timer.span s.delay

/-- The number of records that each partition of a job reads and writes. -/
def recordsPerPartition : Nat := 100

/-- The counters of a job that has ended well; counters are words of 64 bits. -/
def counters (job : Job) : JobCounters :=
  let n := recordsPerPartition * job.parallelism % Word.count 64
  ⟨n, n⟩

/-- Whether a job fails at the end of a step. -/
def failsAt (s : Simulation) (job : Job) (step : Nat) : Bool :=
  decide (job.stage ∈ s.failing) && decide (s.stepCount / 2 < step)

end Simulation

/-- A job under way. -/
structure SimulatedTask where
  job : Job
  /-- The step that it is in, counted from 1. -/
  step : Nat
  /-- When the step ends, in milliseconds. -/
  due : Nat

structure SimulatedRun (F : Type) where
  simulation : Simulation
  run : LocalRun F
  /-- The jobs under way. -/
  tasks : List SimulatedTask

namespace SimulatedRun

variable {F : Type} [Fraction F]

/-- A run that has just been submitted; nothing is started yet. -/
def ofGraph (s : Simulation) (g : JobGraph) : SimulatedRun F := ⟨s, .ofGraph g, []⟩

/-- Ends the pass of the scheduler and sets the jobs that it starts under way. -/
def settle (r : SimulatedRun F) : SimulatedRun F :=
  let run := r.run.settle
  let fresh := (run.started.drop r.run.started.length).filterMap run.table.graph.get?
  { r with
    run
    tasks := r.tasks ++ fresh.map fun job => ⟨job, 1, run.now + r.simulation.stepTime⟩ }

/-- The task whose step ends first; of several, the one that was set under way first. -/
def nextTask? (tasks : List SimulatedTask) : Option SimulatedTask :=
  tasks.foldl (fun best t =>
    match best with
    | none => some t
    | some b => if t.due < b.due then some t else some b) none

def dropTask (j : JobId) (tasks : List SimulatedTask) : List SimulatedTask :=
  tasks.filter fun t => t.job.id ≠ j

def finishJob (r : SimulatedRun F) (job : Job) (result : Except String JobCounters) :
    SimulatedRun F :=
  settle { r with run := r.run.join job.id result, tasks := dropTask job.id r.tasks }

def endStep (r : SimulatedRun F) (t : SimulatedTask) : SimulatedRun F :=
  let r := { r with run := r.run.tick (max r.run.now t.due) }
  if r.simulation.failsAt t.job t.step then
    r.finishJob t.job (.error ("simulated failure in " ++ t.job.stage.text))
  else
    let total := r.simulation.stepCount
    let part : F := (t.step : F) / (total : F)
    let r := { r with run := r.run.report t.job.id part }
    if t.step < total then
      { r with
        tasks := dropTask t.job.id r.tasks ++
          [{ t with step := t.step + 1, due := t.due + r.simulation.stepTime }] }
    else r.finishJob t.job (.ok (Simulation.counters t.job))

/-- Ends up to so many steps that end no later than `now`. -/
def endSteps (now : Nat) : Nat → SimulatedRun F → SimulatedRun F
  | 0, r => r
  | n + 1, r =>
    match nextTask? r.tasks with
    | some t => if t.due ≤ now then endSteps now n (r.endStep t) else r
    | none => r

/-- The number of steps that all jobs take together. -/
def totalSteps (r : SimulatedRun F) : Nat :=
  r.run.table.graph.size * r.simulation.stepCount

def elapse (now : Nat) (r : SimulatedRun F) : SimulatedRun F :=
  let r := endSteps now r.totalSteps r.settle
  { r with run := r.run.tick now }

def control : Control (StateM (SimulatedRun F)) F :=
  LocalRun.control.lift fun action r =>
    let (a, run) := action r.run
    (a, { r with run })

end SimulatedRun
end Dataflow
