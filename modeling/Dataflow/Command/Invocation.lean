import Dataflow.Command.Arguments
import Dataflow.Decimal.Reader
import Dataflow.Word
/-!
# Invocations

What the program is asked to do: a command with its own options, and options that all commands
share.  The shared ones may stand before and after the name of the command.
-/
namespace Dataflow.Command

/-- Options that all commands share. -/
structure Shared where
  /-- The file with the settings. -/
  config : Option String := none
  verbose : Bool := false
  logLevel : Option String := none
  /-- The number of partitions of a stage that asks for no number of its own. -/
  parallelism : Option Nat := none
  /-- The time between two polls, in milliseconds. -/
  pollInterval : Option Nat := none

/-- How a plan is run. -/
structure RunOptions where
  group : String := "drover"
  /-- The stages whose jobs fail. -/
  failing : List Nat := []
  steps : Nat := 4
  /-- The length of a step, in milliseconds. -/
  delay : Nat := 50
  /-- Whether the report is written for programs. -/
  json : Bool := false

inductive Task where
  /-- Shows the stages of a plan. -/
  | explain (plan : String)
  /-- Runs a plan on simulated jobs. -/
  | run (plan : String) (options : RunOptions)
  /-- Shows the settings. -/
  | config

/-- What the program is asked to do. -/
structure Invocation where
  shared : Shared
  task : Task

/-! ## Values of options -/

/-- A natural number that fits a word of so many bits. -/
def wordOf? (bits : Nat) (s : String) : Option Nat :=
  if s.startsWith "-" then none
  else (Decimal.intWithin? 0 (Word.largest bits) s).map Int.toNat

/-- A natural number that fits a word of so many bits, where zero may have a minus sign. -/
def smallOf? (bits : Nat) (s : String) : Option Nat :=
  (Decimal.intWithin? 0 (Word.largest bits) s).map Int.toNat

/-- A path is not empty. -/
def pathOf? (s : String) : Option String := if s.isEmpty then none else some s

/-- Sets what was not set before. -/
def once {α : Type} (old : Option α) (new : Option α) : Option (Option α) :=
  match old, new with
  | none, some a => some (some a)
  | _, _ => none

/-- Raises a flag that was not raised before. -/
def raise (old : Bool) : Option Bool := if old then none else some true

/-! ## Shared options -/

namespace Shared

def options : List (OptionSpec Shared) := [
  ⟨some 'c', "config", .value fun v s =>
    (once s.config (pathOf? v)).map fun config => { s with config }⟩,
  ⟨some 'v', "verbose", .flag fun s => (raise s.verbose).map fun verbose => { s with verbose }⟩,
  ⟨none, "log-level", .value fun v s =>
    (once s.logLevel (some v)).map fun logLevel => { s with logLevel }⟩,
  ⟨none, "parallelism", .value fun v s =>
    (once s.parallelism (wordOf? 64 v)).map fun parallelism => { s with parallelism }⟩,
  ⟨none, "poll-interval-ms", .value fun v s =>
    (once s.pollInterval (wordOf? 64 v)).map fun pollInterval => { s with pollInterval }⟩]

/-- The options of two places; those at the second place win. -/
def merge (first second : Shared) : Shared where
  config := second.config <|> first.config
  verbose := first.verbose || second.verbose
  logLevel := second.logLevel <|> first.logLevel
  parallelism := second.parallelism <|> first.parallelism
  pollInterval := second.pollInterval <|> first.pollInterval

def ofEnvironment (env : String → Option String) : Shared :=
  { config := env "DROVER_CONFIG", logLevel := env "DROVER_LOG_LEVEL" }

end Shared

/-! ## Commands -/

/-- The options of a command that were read so far, shared and own ones. -/
structure Given where
  shared : Shared := {}
  plan : Option String := none
  group : Option String := none
  failing : List Nat := []
  steps : Option Nat := none
  delay : Option Nat := none
  json : Bool := false

namespace Given

def help {σ : Type} : OptionSpec σ := ⟨some 'h', "help", .refuse .help⟩

/-- An option that changes a part of what was read so far. -/
def liftOption {σ τ : Type} (get : τ → σ) (set : τ → σ → τ) (o : OptionSpec σ) : OptionSpec τ where
  short := o.short
  long := o.long
  effect :=
    match o.effect with
    | .flag f => .flag fun t => (f (get t)).map (set t)
    | .value f => .value fun v t => (f v (get t)).map (set t)
    | .refuse r => .refuse r

/-- The shared options among those of a command. -/
def sharedOptions : List (OptionSpec Given) :=
  Shared.options.map (liftOption Given.shared fun g shared => { g with shared })

def runOptions : List (OptionSpec Given) := [
  ⟨some 'g', "group", .value fun v g => (once g.group (some v)).map fun group => { g with group }⟩,
  ⟨none, "fail", .value fun v g =>
    (smallOf? 32 v).map fun n => { g with failing := g.failing ++ [n] }⟩,
  ⟨none, "steps", .value fun v g =>
    (once g.steps (smallOf? 32 v)).map fun steps => { g with steps }⟩,
  ⟨none, "step-delay-ms", .value fun v g =>
    (once g.delay (wordOf? 64 v)).map fun delay => { g with delay }⟩,
  ⟨none, "json", .flag fun g => (raise g.json).map fun json => { g with json }⟩]

def takePlan (v : String) (g : Given) : Option Given :=
  (once g.plan (pathOf? v)).map fun plan => { g with plan }

def vocabulary (own : List (OptionSpec Given)) (operand : String → Given → Option Given) :
    Vocabulary Given :=
  ⟨own ++ sharedOptions ++ [help], operand, []⟩

def toRunOptions (g : Given) : RunOptions :=
  let base : RunOptions := {}
  { group := g.group.getD base.group
    failing := g.failing
    steps := g.steps.getD base.steps
    delay := g.delay.getD base.delay
    json := g.json }

end Given

/-- The words before the name of a command. -/
def globalWords : Vocabulary Shared where
  options := Shared.options ++ [Given.help, ⟨some 'V', "version", .refuse .version⟩]
  operand _ _ := none
  commands := ["explain", "run", "config", "help"]

/-- Reads the words after the name of a command. -/
def readTask (name : String) (words : List String) : Except Refusal (Shared × Task) := do
  match name with
  | "explain" =>
    let (g, _) ← readWords (Given.vocabulary [] Given.takePlan) words {}
    match g.plan with
    | some plan => .ok (g.shared, .explain plan)
    | none => .error .malformed
  | "run" =>
    let (g, _) ← readWords (Given.vocabulary Given.runOptions Given.takePlan) words {}
    match g.plan with
    | some plan => .ok (g.shared, .run plan g.toRunOptions)
    | none => .error .malformed
  | "config" =>
    let (g, _) ← readWords (Given.vocabulary [] fun _ _ => none) words {}
    .ok (g.shared, .config)
  | _ =>
    match words with
    | [] => .error .help
    | [name] => .error (if name ∈ globalWords.commands then .help else .malformed)
    | _ => .error .malformed

/-- Reads the arguments of the program.  Options after the name of the command win over those before
it, and these over the environment.  The environment is asked at each place where an option is not
given, so what it says there has to be valid. -/
def Invocation.parse (env : String → Option String) (words : List String) :
    Except Refusal Invocation := do
  match ← readWords globalWords words {} with
  | (_, none) => .error .malformed
  | (before, some (name, rest)) =>
    let (after, task) ← readTask name rest
    let outside := Shared.ofEnvironment env
    let asked := before.config.isNone || after.config.isNone
    if asked && outside.config == some "" then .error .malformed
    else .ok ⟨outside.merge (before.merge after), task⟩

end Dataflow.Command
