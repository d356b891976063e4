import Dataflow.Engine.Local
/-!
# Runs by hand

A local run whose jobs go on until they are told how they end.
-/
namespace Dataflow

/-- A local run, and the jobs that were told how they end. -/
structure ManualRun (F : Type) where
  run : LocalRun F
  told : List JobId

/-- What became of the order to a job to end. -/
inductive Delivery where
  | delivered
  /-- The job was stopped before. -/
  | gone
  /-- The job was never started, or was told already. -/
  | notRunning
  deriving DecidableEq

namespace ManualRun

variable {F : Type} [Fraction F]

/-- A run that has started all jobs without dependencies. -/
def ofGraph (g : JobGraph) : ManualRun F := ⟨(LocalRun.ofGraph g).settle, []⟩

def tell (r : ManualRun F) (j : JobId) (result : Except String JobCounters) :
    Delivery × ManualRun F :=
  if j ∉ r.run.started ∨ j ∈ r.told then (.notRunning, r)
  else
    let r := { r with told := j :: r.told }
    if r.run.stopped then (.gone, r) else (.delivered, { r with run := r.run.finishJob j result })

/-- Lets a job report its progress, also after its end.  The answer is whether the run was stopped,
or nothing for a job that was never started. -/
def report (r : ManualRun F) (j : JobId) (part : F) : Option Bool × ManualRun F :=
  if j ∈ r.run.started then (some r.run.stopped, { r with run := r.run.report j part })
  else (none, r)

def elapse (now : Nat) (r : ManualRun F) : ManualRun F := { r with run := r.run.tick now }

def control : Control (StateM (ManualRun F)) F :=
  LocalRun.control.lift fun action r =>
    let (a, run) := action r.run
    (a, { r with run })

end ManualRun
end Dataflow
