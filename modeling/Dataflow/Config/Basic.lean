import Dataflow.Fault
import Dataflow.Progress.Fraction
import Dataflow.Word
/-!
# Configuration

What can be set from outside: how plans are compiled, how a launch is watched, and how much is
logged.  A configuration can hold any figures; `validate` says whether they make sense.
-/
namespace Dataflow

/-- How plans are divided into stages. -/
structure CompilerConfig where
  /-- The number of partitions of a stage that asks for no number of its own. -/
  defaultParallelism : Nat := 1
  /-- Whether a total order is preceded by a stage that samples its input. -/
  sampleTotalOrderSort : Bool := true
  deriving DecidableEq

/-- How much each job counts in the progress of a launch. -/
inductive Weighting where
  /-- Every job counts the same. -/
  | equal
  /-- A job counts as many times as it has partitions. -/
  | parallelism
  deriving DecidableEq

namespace Weighting

def text : Weighting → String
  | .equal => "equal"
  | .parallelism => "parallelism"

def all : List Weighting := [.equal, .parallelism]

def ofName? (name : String) : Option Weighting := all.find? fun w => w.text = name

end Weighting

/-- How a launch is watched. -/
structure LauncherConfig (F : Type) where
  /-- The time between two polls, in milliseconds. -/
  pollInterval : Nat := 500
  weighting : Weighting := .equal
  /-- How far from 1 a progress may be and still count as complete. -/
  tolerance : F
  deriving BEq

namespace LauncherConfig

variable {F : Type} [Fraction F]

def isComplete (c : LauncherConfig F) (progress : F) : Bool :=
  decide (Fraction.distance Fraction.one progress ≤ c.tolerance)

/-- A tolerance has to be less than a half, and cannot be negative. -/
def admitsTolerance (c : LauncherConfig F) : Bool :=
  decide (Fraction.zero ≤ c.tolerance) &&
    decide (c.tolerance < Fraction.one / (Fraction.one + Fraction.one))

end LauncherConfig

/-- How much is logged. -/
structure LoggingConfig where
  level : String := "info"
  deriving DecidableEq

structure Config where
  compiler : CompilerConfig := {}
  launcher : LauncherConfig Float := { tolerance := 1e-6 }
  logging : LoggingConfig := {}
  deriving BEq

instance : Inhabited Config := ⟨{}⟩

namespace Config

/-- Settings for tests, which poll often. -/
def forTesting : Config := { launcher := { pollInterval := 5, tolerance := 1e-6 } }

/-- Polls every so many nanoseconds.  Only whole milliseconds count, and only as many as fit a word
of 64 bits. -/
def withPollInterval (c : Config) (nanoseconds : Nat) : Config :=
  let pollInterval := min (nanoseconds / 1000000) (Word.largest 64)
  { c with launcher := { c.launcher with pollInterval } }

def withWeighting (c : Config) (w : Weighting) : Config :=
  { c with launcher := { c.launcher with weighting := w } }

def withDefaultParallelism (c : Config) (n : Nat) : Config :=
  { c with compiler := { c.compiler with defaultParallelism := n } }

/-- Whether the settings make sense; the first that does not is named. -/
def validate (c : Config) : Except Fault Unit :=
  if c.launcher.pollInterval = 0 then
    .error (.invalidConfig "launcher.poll_interval_ms must be positive")
  else if !c.launcher.admitsTolerance then
    .error (.invalidConfig "launcher.completion_tolerance must be in [0, 0.5)")
  else if c.compiler.defaultParallelism = 0 then
    .error (.invalidConfig "compiler.default_parallelism must be at least 1")
  else .ok ()

end Config
end Dataflow
