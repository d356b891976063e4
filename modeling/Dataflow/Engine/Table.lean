import Dataflow.Job.Graph
import Dataflow.Progress.Fraction
/-!
# Job tables

The states of the jobs of one graph.  A state only changes as the life of a job allows: refused
changes leave the table as it is.  Progress never falls, and success makes it full.
-/
namespace Dataflow

structure JobState (F : Type) where
  status : JobStatus
  progress : F
  /-- When the job was started, in milliseconds. -/
  startedAt : Option Nat := none
  /-- When the job has ended, in milliseconds. -/
  endedAt : Option Nat := none
  counters : JobCounters := {}
  /-- Why the job failed. -/
  error : Option String := none

/-- The states of the jobs of a graph, in job order. -/
structure JobTable (F : Type) where
  graph : JobGraph
  states : List (JobState F)

/-- What a pending job is waiting for. -/
inductive Readiness where
  /-- Nothing: every dependency has succeeded. -/
  | ready
  | waiting
  /-- Nothing: a dependency has failed, so the job must not run. -/
  | abandoned (dependency : JobId)
  deriving DecidableEq

namespace JobTable

variable {F : Type} [Fraction F]

/-- Every job is pending. -/
def ofGraph (g : JobGraph) : JobTable F :=
  ⟨g, g.jobs.map fun _ => { status := .pending, progress := Fraction.zero }⟩

omit [Fraction F] in
def state? (t : JobTable F) : JobId → Option (JobState F)
  | ⟨0⟩ => none
  | ⟨n + 1⟩ => t.states[n]?

def status? (t : JobTable F) (j : JobId) : Option JobStatus := (t.state? j).map JobState.status

def modify (t : JobTable F) (j : JobId) (f : JobState F → JobState F) : JobTable F :=
  match j with
  | ⟨0⟩ => t
  | ⟨n + 1⟩ => { t with states := t.states.modify n f }

/-- What a job is waiting for, judged by its dependencies in order. -/
def readinessOf (t : JobTable F) : List JobId → Readiness
  | [] => .ready
  | j :: rest =>
    match t.status? j with
    | some .succeeded => t.readinessOf rest
    | some .failed => .abandoned j
    | _ =>
      match t.readinessOf rest with
      | .ready => .waiting
      | r => r

def readiness (t : JobTable F) (job : Job) : Readiness := t.readinessOf job.dependencies

/-- Moves a job on to a status and changes its state with it, unless the status may not follow. -/
def advance (t : JobTable F) (j : JobId) (next : JobStatus) (f : JobState F → JobState F) :
    JobTable F :=
  match t.status? j with
  | some s => if s.canBecome next then t.modify j fun st => f { st with status := next } else t
  | none => t

def start (t : JobTable F) (now : Nat) (j : JobId) : JobTable F :=
  t.advance j .running fun st => { st with startedAt := some now }

/-- Gives up a job that depends on a failed one. -/
def abandon (t : JobTable F) (now : Nat) (j dependency : JobId) : JobTable F :=
  t.advance j .failed fun st =>
    { st with endedAt := some now, error := some ("dependency " ++ dependency.text ++ " failed") }

/-- Ends a job with its result: the counters, or the reason of its failure. -/
def complete (t : JobTable F) (now : Nat) (j : JobId) : Except String JobCounters → JobTable F
  | .ok counters =>
    t.advance j .succeeded fun st =>
      { st with endedAt := some now, progress := Fraction.one, counters }
  | .error reason =>
    t.advance j .failed fun st => { st with endedAt := some now, error := some reason }

/-- Records the completed part of a running job.  What is recorded never falls. -/
def report (t : JobTable F) (j : JobId) (part : F) : JobTable F :=
  match t.status? j with
  | some .running =>
    t.modify j fun st => { st with progress := Fraction.larger st.progress (Fraction.clamp part) }
  | _ => t

/-- The jobs with a status, in job order. -/
def withStatus (t : JobTable F) (s : JobStatus) : List JobId :=
  t.graph.ids.filter fun j => t.status? j = some s

/-- The recorded part of a job. -/
def progress (t : JobTable F) (j : JobId) : Except Fault F :=
  match t.state? j with
  | some st => .ok st.progress
  | none => .error (.unknownJob j)

/-- The statistics of a job.  The time of a running job counts up to now. -/
def stats (t : JobTable F) (now : Nat) (j : JobId) : Except Fault JobStats :=
  match t.graph.get? j, t.state? j with
  | some job, some st =>
    .ok { JobStats.ofJob job st.status with
      duration := st.startedAt.map fun s => .ofMilliseconds (st.endedAt.getD now - s)
      counters := st.counters
      error := st.error }
  | _, _ => .error (.unknownJob j)

end JobTable
end Dataflow
