import Dataflow.Launch.Supervisor
import Dataflow.Timer
/-!
# Scenes

A scene sets a supervised run on a clock: it says how the run changes while time passes, when the
launch is cancelled, and how long the caller waits.
-/
namespace Dataflow

/-- A supervised run, with a state of type `σ`, on a clock. -/
structure Scene (σ F : Type) where
  /-- The time, in milliseconds. -/
  now : Nat
  /-- When the launch is cancelled. -/
  cancelAt : Option Nat
  /-- When the caller gives up. -/
  deadline : Option Nat
  /-- The progress that the listener was told of, in order. -/
  notified : List F
  run : σ

namespace Scene

variable {σ F : Type}

def start (run : σ) (cancelAt : Option Nat) : Scene σ F := ⟨0, cancelAt, none, [], run⟩

/-- Whether the launch was cancelled by now. -/
def isCancelled (s : Scene σ F) : Bool :=
  match s.cancelAt with
  | some t => decide (t ≤ s.now)
  | none => false

def cancel (s : Scene σ F) : Scene σ F :=
  { s with cancelAt := some (min s.now (s.cancelAt.getD s.now)) }

/-- Lets time pass up to a moment. -/
def moveTo (elapse : Nat → σ → σ) (s : Scene σ F) (time : Nat) : Scene σ F :=
  { s with now := time, run := elapse time s.run }

/-- When a pause ends: when its timer has run down, or earlier when the launch is cancelled. -/
def wakeTime (s : Scene σ F) (length : Nat) : Nat :=
  match s.cancelAt with
  | some t => min (s.now + Timer.span length) (max s.now t)
  | none => s.now + Timer.span length

/-- Pauses.  The caller who gives up at the very moment at which the pause ends does so only
afterwards. -/
def pause (elapse : Nat → σ → σ) (length : Nat) (s : Scene σ F) : Bool × Scene σ F :=
  let wake := s.wakeTime length
  match s.deadline with
  | some d => if d < wake then (false, s.moveTo elapse d) else (true, s.moveTo elapse wake)
  | none => (true, s.moveTo elapse wake)

def surroundings (elapse : Nat → σ → σ) : Surroundings (StateM (Scene σ F)) F where
  notify p := fun s => ((), { s with notified := s.notified ++ [p] })
  pause length := fun s => s.pause elapse length
  cancelled := fun s => (s.isCancelled, s)

def control (c : Control (StateM σ) F) : Control (StateM (Scene σ F)) F :=
  c.lift fun action s =>
    let (a, run) := action s.run
    (a, { s with run })

/-- The number of polls that fit into a span of time. -/
def pollsWithin (interval span : Nat) : Nat := span / Timer.span interval + 1

/-- Waits for the outcome, at most `limit` milliseconds. -/
def waitWithin [Fraction F] (c : Control (StateM σ) F) (elapse : Nat → σ → σ) (limit : Nat)
    (watch : Supervisor F) (s : Scene σ F) :
    (Option (Except Fault (Report F)) × Supervisor F) × Scene σ F :=
  let (r, s) := watch.wait (control c) (surroundings elapse)
    (pollsWithin watch.config.pollInterval limit) { s with deadline := some (s.now + limit) }
  (r, { s with deadline := none })

end Scene
end Dataflow
