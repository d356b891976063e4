import Dataflow.Logical.Operator
import Dataflow.Plan.Walker
/-!
# Visiting logical plans

A visitor is told of every operator before its children and again after them, may fail at either
point, and says whether the children are to be walked.  As a rule they are walked one after the
other; a visitor may follow a course of its own.  The walk itself keeps the stack of walkers: a
nested plan is entered by pushing a walker for it, its roots are visited in the order of that
walker, and the walker is removed again however the visit of the plan ended.
-/
namespace Dataflow

/-- How a visitor with a state of type `σ` goes on below an operator, step by step. -/
inductive Course (σ : Type) (op : LogicalOperator) where
  /-- Nothing is left to do. -/
  | done (result : Except PlanError Unit)
  /-- The visitor looks at the walkers, changes its state, and decides how to go on. -/
  | note (change : WalkerStack LogicalOperator → σ → σ)
      (rest : WalkerStack LogicalOperator → σ → Course σ op)
  /-- Something smaller than the operator is walked, as a rule something that it owns, and how to go
  on depends on how that ended.  A nested plan is walked by the strategy given here, or else by that
  of the visitor. -/
  | walk (child : LogicalOperator.Child) (smaller : child.size < sizeOf op)
      (strategy : Option Strategy) (rest : Except PlanError Unit → Course σ op)

/-- One thing is walked after the other, up to the first failure. -/
def Course.inOrder {σ : Type} {op : LogicalOperator} : (children : List LogicalOperator.Child) →
    (∀ child ∈ children, child.size < sizeOf op) → Course σ op
  | [], _ => .done (.ok ())
  | child :: rest, smaller => .walk child (smaller child List.mem_cons_self) none fun result =>
    match result with
    | .ok _ => inOrder rest fun c hc => smaller c (List.mem_cons_of_mem _ hc)
    | .error e => .done (.error e)

/-- What a visitor with a state of type `σ` does at an operator. -/
structure Visitor (σ : Type) where
  /-- Is told of an operator before its children, and answers whether to walk them. -/
  enter : LogicalOperator → WalkerStack LogicalOperator → σ → Except PlanError Bool × σ
  /-- Walks the children. -/
  walk : (op : LogicalOperator) → Course σ op := fun op =>
    .inOrder op.children fun _ => LogicalOperator.size_lt_of_mem_children
  /-- Is told of an operator after its children. -/
  leave : LogicalOperator → WalkerStack LogicalOperator → σ → Except PlanError Unit × σ :=
    fun _ _ s => (.ok (), s)
  /-- The strategy for a nested plan. -/
  nested : WalkerStack LogicalOperator → LogicalPlan → Strategy := fun _ _ => .dependencyOrder

/-- A visit in progress, with walkers of type `W`. -/
structure VisitBy (W σ : Type) where
  stack : Walkers W
  state : σ

/-- Removes the walker of a plan that was entered, however the visit of the plan has ended.  A failure
of the visit comes before one of the removal. -/
def VisitBy.leave {W σ : Type} (x : Except PlanError Unit × VisitBy W σ) :
    Except PlanError Unit × VisitBy W σ :=
  match x.1, x.2.stack.pop with
  | result, .ok (_, stack) => (result, { x.2 with stack })
  | .ok _, .error e => (.error e, x.2)
  | .error e, .error _ => (.error e, x.2)

abbrev Visit (σ : Type) : Type := VisitBy (Walker LogicalOperator) σ

/-- How a part of a visit ended, and where the visit stands then. -/
abbrev Visited (σ : Type) := Except PlanError Unit × Visit σ

variable {σ : Type}

/-- Goes on unless something failed. -/
def Visited.andThen (r : Visited σ) (next : Visit σ → Visited σ) : Visited σ :=
  match r.1 with
  | .ok _ => next r.2
  | .error _ => r

namespace Visit

/-- Visits the members of a list in order, up to the first failure. -/
def each {β : Type} (visit : β → Visit σ → Visited σ) : List β → Visit σ → Visited σ
  | [], s => (.ok (), s)
  | b :: rest, s => Visited.andThen (visit b s) (each visit rest)

/-- Runs a part of a visit with a walker of its own on the stack, which is removed in any case. -/
def within (w : Walker LogicalOperator) (visit : Visit σ → Visited σ) (s : Visit σ) : Visited σ :=
  VisitBy.leave (visit { s with stack := s.stack.push w })

end Visit

/-- Follows a course, with a given function for what is walked. -/
def Course.run {op : LogicalOperator} (walk : (child : LogicalOperator.Child) →
    child.size < sizeOf op → Option Strategy → Visit σ → Visited σ) :
    Course σ op → Visit σ → Visited σ
  | .done result, s => (result, s)
  | .note change rest, s =>
    let state := change s.stack s.state
    (rest s.stack state).run walk { s with state }
  | .walk child smaller strategy rest, s =>
    let (result, s) := walk child smaller strategy s
    (rest result).run walk s

namespace Visitor

/-- Visits an operator and everything below it. -/
def accept (v : Visitor σ) (op : LogicalOperator) (s : Visit σ) : Visited σ :=
  match v.enter op s.stack s.state with
  | (.error e, state) => (.error e, { s with state })
  | (.ok descend, state) =>
    let walked :=
      if descend then
        (v.walk op).run (fun child smaller strategy s =>
          match child, smaller with
          | .operand child, _smaller => v.accept child s
          | .subPlan plan, _smaller =>
            let w : Walker LogicalOperator := ⟨strategy.getD (v.nested s.stack plan), plan⟩
            Visit.within w (fun s =>
              match w.sequence with
              | .error e => (.error e, s)
              | .ok ops =>
                Visit.each (fun (o : { o // o ∈ plan.operators }) s => v.accept o.val s)
                  (ops.filter fun o => plan.isRoot (PlanNode.key o.val)) s) s)
          { s with state }
      else (.ok (), { s with state })
    Visited.andThen walked fun s =>
      let (result, state) := v.leave op s.stack s.state
      (result, { s with state })
  termination_by sizeOf op
  decreasing_by
  · exact _smaller
  · exact Nat.lt_trans (LogicalOperator.sizeOf_lt_of_mem_operators o.property) _smaller

/-- Visits the operators of the plan of the current walker, in the order of that walker. -/
def visit (v : Visitor σ) (s : Visit σ) : Visited σ :=
  match s.stack.current.sequence with
  | .error e => (.error e, s)
  | .ok ops => Visit.each (fun o s => v.accept o.val s) ops s

def run (v : Visitor σ) (strategy : Strategy) (plan : LogicalPlan) (state : σ) : Visited σ :=
  v.visit ⟨⟨⟨strategy, plan⟩, []⟩, state⟩

end Visitor
end Dataflow
