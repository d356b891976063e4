import Dataflow.Config.Basic
import Dataflow.Job.Graph
/-!
# Control of submitted jobs

An engine that accepts a job graph hands back a `Control` of it: what can be asked about the jobs
while they run, and how to stop them.  Questions are actions of a monad, since the answers change
as the jobs go on.
-/
namespace Dataflow

/-- The control of a submitted job graph. -/
structure Control (m : Type → Type) (F : Type) where
  /-- Whether no job will change any more. -/
  finished : m Bool
  status : JobId → m (Except Fault JobStatus)
  /-- The completed part of a job. -/
  progress : JobId → m (Except Fault F)
  succeeded : m (List JobId)
  failed : m (List JobId)
  stats : JobId → m (Except Fault JobStats)
  /-- Stops the jobs and lets go of them; stopping twice is the same as stopping once. -/
  stop : m Unit

namespace Control

variable {m n : Type → Type} {F : Type}

/-- The same control as seen from a larger state. -/
def lift (c : Control m F) (f : {α : Type} → m α → n α) : Control n F where
  finished := f c.finished
  status j := f (c.status j)
  progress j := f (c.progress j)
  succeeded := f c.succeeded
  failed := f c.failed
  stats j := f (c.stats j)
  stop := f c.stop

variable [Monad m] [Fraction F]

/-- How much a job counts. -/
def weight (w : Weighting) (job : Job) : F :=
  match w with
  | .equal => Fraction.one
  | .parallelism => ((max job.parallelism 1 : Nat) : F)

/-- Adds the weighted progress of some jobs to `done`, and their weights to `total`. -/
def addProgress (c : Control m F) (w : Weighting) :
    List Job → (done total : F) → m (Except Fault (F × F))
  | [], done, total => pure (.ok (done, total))
  | job :: rest, done, total => do
    match ← c.progress job.id with
    | .ok p => c.addProgress w rest (done + weight w job * Fraction.clamp p) (total + weight w job)
    | .error e => pure (.error e)

def overallProgress (c : Control m F) (w : Weighting) (g : JobGraph) : m (Except Fault F) :=
  if g.isEmpty then pure (.ok Fraction.one)
  else do
    match ← c.addProgress w g.jobs Fraction.zero Fraction.zero with
    | .ok (done, total) => pure (.ok (done / total))
    | .error e => pure (.error e)

def statsOf (c : Control m F) : List JobId → m (Except Fault (List JobStats))
  | [] => pure (.ok [])
  | j :: rest => do
    match ← c.stats j with
    | .error e => pure (.error e)
    | .ok s =>
      match ← c.statsOf rest with
      | .ok ss => pure (.ok (s :: ss))
      | .error e => pure (.error e)

end Control
end Dataflow
