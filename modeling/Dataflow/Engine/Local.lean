import Dataflow.Engine.Table
import Dataflow.Launch.Control
/-!
# Local runs

A run of a job graph on the spot.  Its scheduler goes over the jobs in order: it starts those whose
dependencies have all succeeded and gives up those of which one has failed.  Then it waits for the
result of a running job, takes it in and goes over the jobs again.  When nothing is running after a
pass, the run is finished.

Each function here is one step that nothing can interrupt.  Between steps anything may happen: jobs
end and report progress in any order, and the run may be stopped.
-/
namespace Dataflow

/-- Where the scheduler of a run stands. -/
inductive Phase where
  /-- It goes over the jobs; these are left. -/
  | scanning (rest : List Job)
  /-- It waits for the result of a running job. -/
  | waiting
  /-- Nothing is running and nothing can be started. -/
  | finished
  /-- The run was stopped. -/
  | aborted
  deriving DecidableEq

structure LocalRun (F : Type) where
  table : JobTable F
  phase : Phase
  /-- The jobs that were handed to the runner, in order. -/
  started : List JobId
  /-- Whether the run was told to stop. -/
  stopped : Bool
  /-- The time, in milliseconds. -/
  now : Nat

namespace LocalRun

variable {F : Type} [Fraction F]

def ofGraph (g : JobGraph) : LocalRun F := ⟨.ofGraph g, .scanning g.jobs, [], false, 0⟩

/-! ## Steps -/

def isRunning (r : LocalRun F) (j : JobId) : Bool := r.table.status? j = some .running

/-- The scheduler looks at the next job, or ends its pass.  A stopped run starts nothing. -/
def scan (r : LocalRun F) : LocalRun F :=
  match r.phase with
  | .scanning [] =>
    if (r.table.withStatus .running).isEmpty then { r with phase := .finished }
    else { r with phase := .waiting }
  | .scanning (job :: rest) =>
    if r.table.status? job.id = some .pending then
      match r.table.readiness job with
      | .waiting => { r with phase := .scanning rest }
      | .abandoned d =>
        { r with phase := .scanning rest, table := r.table.abandon r.now job.id d }
      | .ready =>
        if r.stopped then { r with phase := .aborted }
        else
          { r with
            phase := .scanning rest
            table := r.table.start r.now job.id
            started := r.started ++ [job.id] }
    else { r with phase := .scanning rest }
  | _ => r

/-- The waiting scheduler takes in the result of a running job, and goes over the jobs again. -/
def join (r : LocalRun F) (j : JobId) (result : Except String JobCounters) : LocalRun F :=
  if r.phase = .waiting ∧ r.isRunning j then
    { r with phase := .scanning r.table.graph.jobs, table := r.table.complete r.now j result }
  else r

def report (r : LocalRun F) (j : JobId) (part : F) : LocalRun F :=
  { r with table := r.table.report j part }

/-- The run is told to stop. -/
def requestStop (r : LocalRun F) : LocalRun F := { r with stopped := true }

/-- The scheduler of a stopped run is given up while it waits, or before it has begun. -/
def abort (r : LocalRun F) : LocalRun F :=
  match r.phase with
  | .finished => r
  | _ => if r.stopped then { r with phase := .aborted } else r

def tick (r : LocalRun F) (now : Nat) : LocalRun F := { r with now }

/-! ## Whole passes -/

def scans : Nat → LocalRun F → LocalRun F
  | 0, r => r
  | n + 1, r => scans n r.scan

/-- The scheduler ends its pass. -/
def settle (r : LocalRun F) : LocalRun F :=
  match r.phase with
  | .scanning rest => r.scans (rest.length + 1)
  | _ => r

/-- A job ends, and the scheduler does all that follows from it. -/
def finishJob (r : LocalRun F) (j : JobId) (result : Except String JobCounters) : LocalRun F :=
  (r.join j result).settle

/-- The run is stopped and its scheduler given up. -/
def stop (r : LocalRun F) : LocalRun F := r.requestStop.abort

/-! ## Control -/

/-- Whether no job will change any more. -/
def isFinished (r : LocalRun F) : Bool := r.phase = .finished

def control : Control (StateM (LocalRun F)) F where
  finished := fun r => (r.isFinished, r)
  status j := fun r =>
    (match r.table.status? j with
      | some s => .ok s
      | none => .error (.unknownJob j), r)
  progress j := fun r => (r.table.progress j, r)
  succeeded := fun r => (r.table.withStatus .succeeded, r)
  failed := fun r => (r.table.withStatus .failed, r)
  stats j := fun r => (r.table.stats r.now j, r)
  stop := fun r => ((), r.stop)

end LocalRun
end Dataflow
