import Dataflow.Launch.Control
import Dataflow.Progress.Tracker
/-!
# Supervision

A supervisor watches a submitted job graph until it is finished, tells a listener of progress, and
reports the outcome.  It only asks questions; the jobs are changed by their engine alone.
-/
namespace Dataflow

/-- What a supervisor can do beside asking about the jobs. -/
structure Surroundings (m : Type → Type) (F : Type) where
  /-- Tells the listener of a progress. -/
  notify : F → m Unit
  /-- Lets so many milliseconds pass, or fewer when the launch is cancelled meanwhile.  The answer
  is false when the caller gives up before that. -/
  pause : Nat → m Bool
  /-- Whether the launch was cancelled. -/
  cancelled : m Bool

structure Report (F : Type) where
  /-- Whether the whole graph was completed. -/
  completed : Bool
  progress : F
  /-- The statistics of the failed jobs and then of the succeeded ones. -/
  stats : List JobStats

namespace Report

variable {F : Type}

/-- The statistics of the jobs with a given status. -/
def withStatus (r : Report F) (s : JobStatus) : List JobStats :=
  r.stats.filter fun j => j.status = s

end Report

/-- The outcome of a single poll. -/
structure PollSample (F : Type) where
  progress : F
  finished : Bool
  /-- Whether the listener was told. -/
  notified : Bool

/-- The watch over a submitted job graph. -/
structure Supervisor (F : Type) where
  graph : JobGraph
  config : LauncherConfig F
  tracker : Tracker F

namespace Supervisor

variable {m : Type → Type} [Monad m] {F : Type} [Fraction F]

def start (graph : JobGraph) (config : LauncherConfig F) : Supervisor F :=
  ⟨graph, config, .start⟩

/-- Remembers a progress, and tells the listener when it exceeds the one before. -/
def observe (env : Surroundings m F) (s : Supervisor F) (progress : F) : m (Bool × Supervisor F) :=
  let (increased, tracker) := s.tracker.observe progress
  let s := { s with tracker }
  if increased then do
    env.notify progress
    pure (true, s)
  else pure (false, s)

def poll (c : Control m F) (env : Surroundings m F) (s : Supervisor F) :
    m (Except Fault (PollSample F) × Supervisor F) := do
  let finished ← c.finished
  match ← c.overallProgress s.config.weighting s.graph with
  | .error e => pure (.error e, s)
  | .ok progress => do
    let (notified, s) ← s.observe env progress
    pure (.ok ⟨progress, finished, notified⟩, s)

/-- The fault of a graph that is incomplete although no job of it has failed. -/
def contradiction (s : Supervisor F) (progress : F) : Fault :=
  .driverInconsistency
    ("job graph " ++ s.graph.group ++ " finished at " ++ Fraction.percentText progress ++
      "% with no failed jobs")

/-- The statistics of the failed jobs.  Only an incomplete graph is asked for them, and it has to
have some. -/
def failures (c : Control m F) (s : Supervisor F) (completed : Bool) (progress : F) :
    m (Except Fault (List JobStats)) :=
  if completed then pure (.ok [])
  else do
    let failed ← c.failed
    if failed.isEmpty then pure (.error (s.contradiction progress))
    else c.statsOf failed

/-- Reports the outcome of a finished graph. -/
def finish (c : Control m F) (env : Surroundings m F) (s : Supervisor F) :
    m (Except Fault (Report F) × Supervisor F) := do
  if !(← c.finished) then
    return (.error (.execution ("job graph " ++ s.graph.group ++ " has not finished")), s)
  match ← c.overallProgress s.config.weighting s.graph with
  | .error e => return (.error e, s)
  | .ok progress =>
    let (_, s) ← s.observe env progress
    let completed := s.config.isComplete progress
    match ← s.failures c completed progress with
    | .error e => return (.error e, s)
    | .ok failed =>
      match ← c.statsOf (← c.succeeded) with
      | .error e => return (.error e, s)
      | .ok succeeded => return (.ok ⟨completed, progress, failed ++ succeeded⟩, s)

/-- Polls in regular intervals until the graph is finished, and reports its outcome.  A cancelled
launch is stopped.  There is no answer when the caller gives up, or after `polls` polls. -/
def wait (c : Control m F) (env : Surroundings m F) :
    (polls : Nat) → Supervisor F → m (Option (Except Fault (Report F)) × Supervisor F)
  | polls, s => do
    if ← c.finished then
      let (r, s) ← s.finish c env
      return (some r, s)
    match polls with
    | 0 => return (none, s)
    | polls + 1 =>
      if !(← env.pause s.config.pollInterval) then return (none, s)
      if ← env.cancelled then
        c.stop
        return (some (.error .cancelled), s)
      match ← s.poll c env with
      | (.error e, s) => return (some (.error e), s)
      | (.ok _, s) => wait c env polls s

end Supervisor
end Dataflow
