import Dataflow.Launch.Control
/-!
# Replays

A control that answers from a record: a list of frames, each of which says what was to be seen from
some moment on.
-/
namespace Dataflow

/-- What was to be seen of a run from a moment on. -/
structure Observation (F : Type) where
  /-- Since when, in milliseconds. -/
  since : Nat
  finished : Bool
  progress : List (JobId × F)
  failed : List JobId
  succeeded : List JobId

/-- A record of a run. -/
structure Replay (F : Type) where
  graph : JobGraph
  frames : List (Observation F)
  now : Nat
  /-- Whether the run was stopped. -/
  stopped : Bool

namespace Replay

variable {F : Type}

def ofFrames (graph : JobGraph) (frames : List (Observation F)) : Replay F :=
  ⟨graph, frames, 0, false⟩

/-- What is to be seen now: the latest frame that has begun. -/
def current (r : Replay F) : Observation F :=
  ((r.frames.filter fun f => decide (f.since ≤ r.now)).getLast?).getD ⟨0, false, [], [], []⟩

def elapse (now : Nat) (r : Replay F) : Replay F := { r with now }

/-- The status of a job.  A job that is in neither list is running. -/
def status (r : Replay F) (job : Job) : JobStatus :=
  if job.id ∈ r.current.failed then .failed
  else if job.id ∈ r.current.succeeded then .succeeded
  else .running

def control : Control (StateM (Replay F)) F where
  finished := fun r => (r.current.finished, r)
  status j := fun r => ((r.graph.require j).map r.status, r)
  progress j := fun r =>
    (match r.current.progress.find? fun p => p.1 = j with
      | some p => .ok p.2
      | none => .error (.unknownJob j), r)
  succeeded := fun r => (r.current.succeeded, r)
  failed := fun r => (r.current.failed, r)
  stats j := fun r => ((r.graph.require j).map fun job => .ofJob job (r.status job), r)
  stop := fun r => ((), { r with stopped := true })

end Replay
end Dataflow
