import Dataflow.Physical.Operator
import Dataflow.Stage.Error
/-!
# Stage graphs

A stage is a run of operators that need no redistribution between them.  A stage that is linked to
another reads what that has written, so it may only start after the other is complete.  Stages are
numbered by their position.  A link is kept twice, with the stage that reads and with the stage that is
read, so that both can be asked for their neighbours.
-/
namespace Dataflow

/-- Why a stage exists. -/
inductive StageKind where
  /-- It reads a location. -/
  | source
  /-- Its input is redistributed. -/
  | shuffle
  /-- It samples the input of a total order, to find the bounds of the ranges. -/
  | sample
  /-- It combines the output of several stages as it is. -/
  | merge
  deriving DecidableEq

namespace StageKind

/-- The displayed name, which is also the name in files. -/
def text : StageKind → String
  | .source => "source"
  | .shuffle => "shuffle"
  | .sample => "sample"
  | .merge => "merge"

def all : List StageKind := [.source, .shuffle, .sample, .merge]

def toJson (k : StageKind) : Json := .text k.text

def ofJson? : Json → Option StageKind := Json.name? (all.map fun k => (k.text, k)) false

end StageKind

/-- A run of operators that need no redistribution between them. -/
structure Stage where
  id : StageId
  kind : StageKind
  /-- The number of partitions. -/
  parallelism : Nat
  /-- The operator whose redistribution opened the stage. -/
  boundary : Option Key := none
  /-- The operators, in dependency order. -/
  operators : List Key := []
  deriving DecidableEq

/-- The stages of a plan. -/
structure StageGraph where
  plan : PhysicalPlan
  stages : List Stage := []
  /-- A row for each stage: the stages that it reads from, in the order of the links. -/
  readsFrom : List (List StageId) := []
  /-- A row for each stage: the stages that read from it, in the order of the links. -/
  readBy : List (List StageId) := []
  /-- The stage of each operator.  Of several entries for an operator the first one counts. -/
  assignment : List (Key × StageId) := []

namespace StageGraph

def ofPlan (p : PhysicalPlan) : StageGraph := { plan := p }

def size (g : StageGraph) : Nat := g.stages.length

def isEmpty (g : StageGraph) : Bool := g.stages.isEmpty

def get? (g : StageGraph) (s : StageId) : Option Stage := g.stages[s.val]?

/-- The stages that `s` reads from. -/
def predecessors (g : StageGraph) (s : StageId) : List StageId := g.readsFrom[s.val]?.getD []

/-- The stages that read from `s`. -/
def successors (g : StageGraph) (s : StageId) : List StageId := g.readBy[s.val]?.getD []

/-- The stage that an operator belongs to. -/
def stageOf? (g : StageGraph) (k : Key) : Option StageId := g.assignment.lookup k

def ids (g : StageGraph) : List StageId := g.stages.map Stage.id

/-- The stages that read from no other. -/
def roots (g : StageGraph) : List StageId := g.ids.filter fun s => (g.predecessors s).isEmpty

/-- The stages that no other reads from. -/
def leaves (g : StageGraph) : List StageId := g.ids.filter fun s => (g.successors s).isEmpty

/-- Every link, ordered by its source. -/
def edges (g : StageGraph) : List (StageId × StageId) :=
  g.ids.flatMap fun s => (g.successors s).map fun t => (s, t)

/-! ## Building -/

/-- Opens a stage without operators. -/
def openStage (g : StageGraph) (kind : StageKind) (parallelism : Nat) (boundary : Option Key) :
    StageId × StageGraph :=
  let id : StageId := ⟨g.size⟩
  (id, { g with
    stages := g.stages ++ [⟨id, kind, parallelism, boundary, []⟩]
    readsFrom := g.readsFrom ++ [[]]
    readBy := g.readBy ++ [[]] })

/-- Puts an operator into a stage, behind the operators that are there already. -/
def assign (g : StageGraph) (k : Key) (s : StageId) : StageGraph :=
  { g with
    stages := g.stages.map fun st =>
      if st.id = s then { st with operators := st.operators ++ [k] } else st
    assignment := (k, s) :: g.assignment }

/-- Makes `t` read from `s`.  A stage does not read from itself, nor twice from another. -/
def link (g : StageGraph) (s t : StageId) : StageGraph :=
  if s = t ∨ t ∈ g.successors s then g
  else
    { g with
      readBy := g.readBy.modify s.val (· ++ [t])
      readsFrom := g.readsFrom.modify t.val (· ++ [s]) }

def linkAll (g : StageGraph) (sources : List StageId) (t : StageId) : StageGraph :=
  sources.foldl (fun g s => g.link s t) g

/-! ## Order -/

/-- A topological sort under way: how many links lead to each stage from stages that are not yet
listed, which stages wait to be listed, and which are listed. -/
structure Sorting where
  pending : List Int
  ready : List StageId
  listed : List StageId

/-- Takes one link off each of the targets, in order.  A stage without open links becomes ready. -/
def release : List StageId → Sorting → Sorting
  | [], s => s
  | t :: rest, s =>
    let n := (s.pending[t.val]?).getD 0 - 1
    release rest
      { s with
        pending := s.pending.set t.val n
        ready := if n = 0 then s.ready ++ [t] else s.ready }

/-- Lists the stage that has been ready for longest. -/
def sortStep (g : StageGraph) (s : Sorting) : Sorting :=
  match s.ready with
  | [] => s
  | t :: rest => release (g.successors t) { s with ready := rest, listed := s.listed ++ [t] }

def sortSteps (g : StageGraph) : Nat → Sorting → Sorting
  | 0, s => s
  | n + 1, s => sortSteps g n (sortStep g s)

/-- Where the sort begins: the stages that read from no other are ready. -/
def sortStart (g : StageGraph) : Sorting :=
  ⟨g.readsFrom.map fun row => (row.length : Int), g.roots, []⟩

/-- Where the sort ends; each step lists a stage, so there are as many steps as stages. -/
def sorted (g : StageGraph) : Sorting := g.sortSteps g.size g.sortStart

/-- The stages, each after those that it reads from.  The error names the first stage with a link
that stayed open. -/
def topologicalOrder (g : StageGraph) : Except CompileError (List StageId) :=
  let s := g.sorted
  if s.listed.length < g.size then
    .error (.cycle ⟨(s.pending.findIdx? fun n => decide (0 < n)).getD 0⟩)
  else .ok s.listed

/-- Whether every operator belongs to a stage and the stages can be ordered. -/
def validate (g : StageGraph) : Except CompileError Unit :=
  match g.plan.keys.find? fun k => (g.stageOf? k).isNone with
  | some k => .error (.missingStage k)
  | none => g.topologicalOrder.map fun _ => ()

/-! ## Display -/

def explainStage (g : StageGraph) (s : Stage) : List String :=
  let inputs := g.predecessors s.id
  let sources :=
    if inputs.isEmpty then "" else " <- " ++ String.intercalate ", " (inputs.map StageId.text)
  let title :=
    s.id.text ++ " [" ++ s.kind.text ++ ", parallelism " ++ toString s.parallelism ++ "]" ++ sources
  let quantiles :=
    match s.kind, s.boundary with
    | .sample, some k => ["  quantiles for " ++ k.text]
    | _, _ => []
  let operators := s.operators.map fun k =>
    match g.plan.get? k with
    | some op => "  " ++ op.describe
    | none => "  " ++ k.text
  title :: quantiles ++ operators

/-- The stages with their operators, in topological order. -/
def explain (g : StageGraph) : String :=
  let order :=
    match g.topologicalOrder with
    | .ok order => order
    | .error _ => g.ids
  String.join
    ((order.flatMap fun s =>
      match g.get? s with
      | some st => g.explainStage st
      | none => []).map (· ++ "\n"))

end StageGraph
end Dataflow
