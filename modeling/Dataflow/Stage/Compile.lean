import Dataflow.Config.Basic
import Dataflow.Plan.Order
import Dataflow.Stage.Graph
/-!
# Dividing plans into stages

The operators are placed in dependency order.  An operator joins the stage of its input, unless its
input has to be redistributed or comes from several stages; then it opens a stage that reads from
all of them.
-/
namespace Dataflow

namespace PhysicalOperator

/-- How many inputs an operator takes, as text. -/
def expectedInputs (least : Nat) : Option Nat → String
  | none => "at least " ++ toString least
  | some most =>
    if most = least then toString least else toString least ++ " to " ++ toString most

/-- Whether the number of inputs lies within the arity. -/
def admits (arity : Nat × Option Nat) (found : Nat) : Bool :=
  decide (arity.1 ≤ found) &&
    match arity.2 with
    | some most => decide (found ≤ most)
    | none => true

/-- Checks an operator against its arity and against the edges of its plan. -/
def check (p : PhysicalPlan) (op : PhysicalOperator) : Except CompileError Unit :=
  let found := op.inputs.length
  if op.kind.parallelism = some 0 then .error (.zeroParallelism op.key)
  else if !admits op.kind.arity found then
    .error (.arity op.key (expectedInputs op.kind.arity.1 op.kind.arity.2) found)
  else
    match op.kind.keyLists with
    | some n => if n ≠ found then .error (.arity op.key (toString n) found) else checkEdges
    | none => checkEdges
where
  /-- Every producer has to be a declared input. -/
  checkEdges : Except CompileError Unit :=
    match (p.predecessors op.key).find? fun k => decide (k ∉ op.inputs) with
    | some extra => .error (.plan (.unresolvedInput op.key extra))
    | none => .ok ()

end PhysicalOperator

namespace StageGraph

/-- The stages that produce the inputs of an operator, each once, in the order of the inputs. -/
def inputStages (g : StageGraph) (op : PhysicalOperator) : Except CompileError (List StageId) :=
  match op.inputs.mapM g.stageOf? with
  | some stages => .ok stages.eraseDups
  | none => .error (.missingStage op.key)

/-- The number of partitions of the stage that an operator opens by a redistribution. -/
def shuffleParallelism (c : CompilerConfig) (op : PhysicalOperator) : Nat :=
  op.kind.parallelism.getD c.defaultParallelism

/-- The largest number of partitions among some stages. -/
def largestParallelism (g : StageGraph) (c : CompilerConfig) (stages : List StageId) : Nat :=
  ((stages.filterMap g.get?).map Stage.parallelism).max?.getD c.defaultParallelism

/-- Opens a stage that reads from `inputs`, and puts the operator into it. -/
def openFor (g : StageGraph) (op : PhysicalOperator) (kind : StageKind) (parallelism : Nat)
    (boundary : Option Key) (inputs : List StageId) : StageGraph :=
  let (s, g) := g.openStage kind parallelism boundary
  (g.linkAll inputs s).assign op.key s

/-- Places an operator whose inputs are placed already. -/
def place (c : CompilerConfig) (g : StageGraph) (op : PhysicalOperator) :
    Except CompileError StageGraph :=
  match op.kind.category with
  | .load => .ok (g.openFor op .source c.defaultParallelism none [])
  | .store | .pipeline =>
    match g.inputStages op with
    | .ok [s] => .ok (g.assign op.key s)
    | .ok _ => .error (.missingStage op.key)
    | .error e => .error e
  | .union =>
    match g.inputStages op with
    | .ok [s] => .ok (g.assign op.key s)
    | .ok inputs => .ok (g.openFor op .merge (g.largestParallelism c inputs) none inputs)
    | .error e => .error e
  | .hash =>
    match g.inputStages op with
    | .ok inputs => .ok (g.openFor op .shuffle (shuffleParallelism c op) (some op.key) inputs)
    | .error e => .error e
  | .sort =>
    match g.inputStages op with
    | .ok inputs =>
      if c.sampleTotalOrderSort then
        let (sample, g) := g.openStage .sample 1 (some op.key)
        let g := g.linkAll inputs sample
        .ok (g.openFor op .shuffle (shuffleParallelism c op) (some op.key) (sample :: inputs))
      else .ok (g.openFor op .shuffle (shuffleParallelism c op) (some op.key) inputs)
    | .error e => .error e

def placeAll (c : CompilerConfig) :
    List PhysicalOperator → StageGraph → Except CompileError StageGraph
  | [], g => .ok g
  | op :: rest, g =>
    match place c g op with
    | .ok g => placeAll c rest g
    | .error e => .error e

def checkAll (p : PhysicalPlan) : List PhysicalOperator → Except CompileError Unit
  | [] => .ok ()
  | op :: rest =>
    match op.check p with
    | .ok _ => checkAll p rest
    | .error e => .error e

/-- Divides a plan into stages. -/
def compile (c : CompilerConfig) (p : PhysicalPlan) : Except CompileError StageGraph :=
  if p.isEmpty then .error .emptyPlan
  else
    match p.validate with
    | .error e => .error (.plan e)
    | .ok _ =>
      match checkAll p p.operators with
      | .error e => .error e
      | .ok _ =>
        match p.dependencyKeys with
        | .error e => .error (.plan e)
        | .ok order =>
          match placeAll c ((p.resolve order).map Subtype.val) (ofPlan p) with
          | .error e => .error e
          | .ok g => g.validate.map fun _ => g

end StageGraph
end Dataflow
