import Dataflow.Plan.Error
/-!
# Plans

A plan holds operators in insertion order and edges in connection order.  An edge `(a, b)` says
that the output of `a` feeds `b`.  The producers and the consumers of an operator are read off the
one list of edges, so they cannot disagree, and both come in connection order.
-/
namespace Dataflow

/-- What a plan needs to know about its operators. -/
class PlanNode (α : Type) where
  key : α → Key
  /-- A short name such as `Filter - scope-4`. -/
  name : α → String
  /-- The inputs that the operator itself declares, if it keeps track of them. -/
  declaredInputs : α → Option (List Key)

/-- A graph of operators. -/
structure Plan (α : Type) where
  operators : List α := []
  edges : List (Key × Key) := []

namespace Plan

variable {α : Type}

def empty : Plan α := ⟨[], []⟩

instance : Inhabited (Plan α) := ⟨empty⟩

def size (p : Plan α) : Nat := p.operators.length

def isEmpty (p : Plan α) : Bool := p.operators.isEmpty

/-- The producers that feed `k`, in connection order. -/
def predecessors (p : Plan α) (k : Key) : List Key :=
  (p.edges.filter fun e => e.2 = k).map Prod.fst

/-- The consumers that `k` feeds, in connection order. -/
def successors (p : Plan α) (k : Key) : List Key :=
  (p.edges.filter fun e => e.1 = k).map Prod.snd

variable [PlanNode α]

/-- The keys of the operators, in insertion order. -/
def keys (p : Plan α) : List Key := p.operators.map PlanNode.key

def contains (p : Plan α) (k : Key) : Bool := decide (k ∈ p.keys)

def get? (p : Plan α) (k : Key) : Option α :=
  p.operators.find? fun op => decide (PlanNode.key op = k)

/-- The operator with a given key, or the error that names the missing key. -/
def require (p : Plan α) (k : Key) : Except PlanError α :=
  match p.get? k with
  | some op => .ok op
  | none => .error (.unknownOperator k)

/-- The operators that nothing in the plan feeds, in insertion order. -/
def roots (p : Plan α) : List α :=
  p.operators.filter fun op => (p.predecessors (PlanNode.key op)).isEmpty

/-- The operators that feed nothing in the plan, in insertion order. -/
def leaves (p : Plan α) : List α :=
  p.operators.filter fun op => (p.successors (PlanNode.key op)).isEmpty

/-- Whether `k` is an operator of the plan that nothing feeds. -/
def isRoot (p : Plan α) (k : Key) : Bool := p.contains k && (p.predecessors k).isEmpty

/-! ## Building -/

/-- Adds an operator under a key that is not yet in use. -/
def add (p : Plan α) (op : α) : Except PlanError (Plan α) :=
  if p.contains (PlanNode.key op) then .error (.duplicateOperator (PlanNode.key op))
  else .ok { p with operators := p.operators ++ [op] }

/-- Feeds the output of `source` into `target`. -/
def connect (p : Plan α) (source target : Key) : Except PlanError (Plan α) :=
  if !p.contains source then .error (.unknownOperator source)
  else if !p.contains target then .error (.unknownOperator target)
  else if source = target then .error (.selfLoop source)
  else if (source, target) ∈ p.edges then .error (.duplicateEdge source target)
  else .ok { p with edges := p.edges ++ [(source, target)] }

/-- Feeds each key of a list into `target` until one is refused.  The edges made before the
refusal stay. -/
def connectAll (p : Plan α) (target : Key) : List Key → Plan α × Option PlanError
  | [] => (p, none)
  | source :: rest =>
    match p.connect source target with
    | .ok p' => p'.connectAll target rest
    | .error e => (p, some e)

/-- Adds an operator and feeds it from `inputs` in order.  When an input is refused, the operator
and the edges made before stay in the plan. -/
def addWithInputs (p : Plan α) (op : α) (inputs : List Key) : Plan α × Option PlanError :=
  match p.add op with
  | .ok p' => p'.connectAll (PlanNode.key op) inputs
  | .error e => (p, some e)

end Plan
end Dataflow
