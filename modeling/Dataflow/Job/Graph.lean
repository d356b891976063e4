import Dataflow.Job.Basic
import Dataflow.Text.Blank
/-!
# Job graphs

Every stage of a plan becomes one job, and every link between stages a dependency between jobs.
Jobs are numbered from 1 in topological order, so each job comes after the jobs that it depends on.
-/
namespace Dataflow

structure JobGraph where
  /-- The name that the jobs have in common. -/
  group : String
  /-- The jobs, each after those that it depends on. -/
  jobs : List Job
  deriving DecidableEq

namespace JobGraph

def size (g : JobGraph) : Nat := g.jobs.length

def isEmpty (g : JobGraph) : Bool := g.jobs.isEmpty

def ids (g : JobGraph) : List JobId := g.jobs.map Job.id

def get? (g : JobGraph) : JobId → Option Job
  | ⟨0⟩ => none
  | ⟨n + 1⟩ => g.jobs[n]?

/-- The job with a given number, or the fault that names it. -/
def require (g : JobGraph) (j : JobId) : Except Fault Job :=
  match g.get? j with
  | some job => .ok job
  | none => .error (.unknownJob j)

/-- The job that executes a stage. -/
def jobOfStage? (g : JobGraph) (s : StageId) : Option JobId :=
  (g.jobs.find? fun job => decide (job.stage = s)).map Job.id

/-- The jobs that depend directly on `j`, in job order. -/
def dependents (g : JobGraph) (j : JobId) : List JobId :=
  (g.jobs.filter fun job => decide (j ∈ job.dependencies)).map Job.id

/-! ## Binding -/

/-- The jobs of the stages that `stage` reads from, where `jobOf` knows the jobs bound before. -/
def jobsOf (jobOf : StageId → Option JobId) (stage : StageId) :
    List StageId → Except Fault (List JobId)
  | [] => .ok []
  | s :: rest =>
    match jobOf s with
    | none => .error (.jobCreation (stage.text ++ " depends on unbound " ++ s.text))
    | some j =>
      match jobsOf jobOf stage rest with
      | .ok js => .ok (j :: js)
      | .error e => .error e

def jobFor (stages : StageGraph) (group : String) (id : JobId) (jobOf : StageId → Option JobId)
    (s : StageId) : Except Fault Job :=
  match stages.get? s with
  | none => .error (.jobCreation ("no such stage " ++ s.text))
  | some stage =>
    match jobsOf jobOf s (stages.predecessors s) with
    | .error e => .error e
    | .ok dependencies =>
      .ok ⟨id, group ++ "-" ++ s.text, s, stage.kind, stage.parallelism, stage.operators, dependencies⟩

def bindStage (stages : StageGraph) (g : JobGraph) (s : StageId) : Except Fault JobGraph :=
  match jobFor stages g.group ⟨g.size + 1⟩ g.jobOfStage? s with
  | .error e => .error e
  | .ok job => .ok { g with jobs := g.jobs ++ [job] }

/-- Adds the jobs of several stages in order. -/
def bindAll (stages : StageGraph) : List StageId → JobGraph → Except Fault JobGraph
  | [], g => .ok g
  | s :: rest, g =>
    match bindStage stages g s with
    | .ok g => bindAll stages rest g
    | .error e => .error e

/-- The jobs of a stage graph, named after a group. -/
def bind (stages : StageGraph) (group : String) : Except Fault JobGraph :=
  if Text.allBlank group then .error (.jobCreation "group name is empty")
  else if stages.isEmpty then .error (.jobCreation "stage plan has no stages")
  else
    match stages.topologicalOrder with
    | .ok order => bindAll stages order ⟨group, []⟩
    | .error e => .error e.fault

end JobGraph
end Dataflow
