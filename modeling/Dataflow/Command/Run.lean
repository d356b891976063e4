import Dataflow.Command.Folder
import Dataflow.Command.Invocation
import Dataflow.Config.File
import Dataflow.Launch.Simulated
import Dataflow.Launch.Text
import Dataflow.Physical.File
/-!
# Executing commands

What the program prints, and how it ends.  Files are read by whoever executes the command.
-/
namespace Dataflow.Command

/-- Reads a file, or says why it cannot be read. -/
abbrev Reading (m : Type → Type) := String → m (Except String String)

def Folder.reading (f : Folder) : Reading Id := fun path => (f.read path).mapError Obstacle.message

/-- How the program ends. -/
structure Outcome where
  exitCode : Nat
  output : String := ""
  /-- What goes to the error output. -/
  complaint : String := ""
  deriving DecidableEq

/-- A failure, told from the outermost activity to its innermost cause. -/
abbrev Failure := List String

/-- A fault as a failure during an activity. -/
def failedBy (activity : String) (f : Fault) : Failure :=
  activity :: f.message :: f.cause?.toList

def readConfig {m : Type → Type} [Monad m] (read : Reading m) (path : String) :
    m (Except Fault Config) := do
  match ← read path with
  | .error cause => return .error (.io cause)
  | .ok text => return Config.parse text

namespace Shared

def override (s : Shared) (c : Config) : Config :=
  { c with
    compiler := { c.compiler with
      defaultParallelism := s.parallelism.getD c.compiler.defaultParallelism }
    launcher := { c.launcher with pollInterval := s.pollInterval.getD c.launcher.pollInterval } }

/-- The settings of the file that is named, or the defaults, overridden by the options. -/
def settings {m : Type → Type} [Monad m] (read : Reading m) (s : Shared) :
    m (Except Failure Config) := do
  let base ← match s.config with
    | some path => readConfig read path
    | none => pure (.ok {})
  match base with
  | .error f => return .error (failedBy "Failed to load config file" f)
  | .ok base =>
    let c := s.override base
    match c.validate with
    | .error f => return .error (failedBy "Invalid configuration" f)
    | .ok _ => return .ok c

end Shared

def readPlan {m : Type → Type} [Monad m] (read : Reading m) (path : String) :
    m (Except Failure PhysicalPlan) := do
  match ← read path with
  | .error cause => return .error ["Failed to read plan " ++ path, cause]
  | .ok text =>
    match PlanSpec.parse? text with
    | none => return .error ["Failed to parse plan " ++ path, "it does not describe a plan"]
    | some spec =>
      match spec.build with
      | .error e => return .error ["Invalid plan", e.message]
      | .ok plan => return .ok plan

def explainPlan (c : Config) (plan : PhysicalPlan) : Except Failure Outcome :=
  match StageGraph.compile c.compiler plan with
  | .error e => .error ["Failed to compile plan", e.message]
  | .ok stages => .ok ⟨0, stages.explain, ""⟩

def RunOptions.simulation (o : RunOptions) : Simulation where
  steps := o.steps
  delay := o.delay
  failing := o.failing.map StageId.mk

def RunOptions.print (o : RunOptions) (r : Report Float) : String :=
  if o.json then r.toJson.pretty 0 ++ "\n" else String.join (r.lines.map (· ++ "\n"))

def runPlan (c : Config) (plan : PhysicalPlan) (o : RunOptions) : Except Failure Outcome :=
  match o.simulation.launch c.compiler c.launcher none plan o.group with
  | none => .error ["Launch failed", "the jobs do not end"]
  | some (.error f) => .error (failedBy "Launch failed" f)
  | some (.ok report) => .ok ⟨if report.completed then 0 else 1, o.print report, ""⟩

/-- Executes a command with the given settings. -/
def Task.execute {m : Type → Type} [Monad m] (read : Reading m) (c : Config) :
    Task → m (Except Failure Outcome)
  | .explain path => do return (← readPlan read path).bind (explainPlan c)
  | .run path o => do return (← readPlan read path).bind fun plan => runPlan c plan o
  | .config =>
    match c.print with
    | .error f => return .error [f.message]
    | .ok text => return .ok ⟨0, text, ""⟩

def failed (f : Failure) : Outcome := ⟨1, "", "Error: " ++ String.intercalate ": " f ++ "\n"⟩

def Invocation.execute {m : Type → Type} [Monad m] (read : Reading m) (i : Invocation) :
    m Outcome := do
  match ← i.shared.settings read with
  | .error f => return failed f
  | .ok c =>
    match ← i.task.execute read c with
    | .error f => return failed f
    | .ok outcome => return outcome

def usage : String :=
  "Usage: drover [OPTIONS] explain <PLAN>\n" ++
  "       drover [OPTIONS] run [--group <GROUP>] [--fail <STAGE>]... [--steps <STEPS>]\n" ++
  "                        [--step-delay-ms <MS>] [--json] <PLAN>\n" ++
  "       drover [OPTIONS] config\n\n" ++
  "Options: [--config <FILE>] [--verbose] [--log-level <LEVEL>] [--parallelism <N>]\n" ++
  "         [--poll-interval-ms <MS>]\n"

/-- How the program ends when its arguments name no command. -/
def Refusal.outcome : Refusal → Outcome
  | .help => ⟨0, usage, ""⟩
  | .version => ⟨0, "drover 0.1.0\n", ""⟩
  | .malformed => ⟨2, "", usage⟩

def execute {m : Type → Type} [Monad m] (env : String → Option String) (read : Reading m)
    (words : List String) : m Outcome :=
  match Invocation.parse env words with
  | .error r => pure r.outcome
  | .ok i => i.execute read

end Dataflow.Command
