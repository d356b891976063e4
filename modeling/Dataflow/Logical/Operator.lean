import Dataflow.Logical.Types
import Dataflow.Plan.Basic
/-!
# Logical operators

A logical plan is made of structural operators, which own nested plans, and of expressions, which
own their operands.  `children` lists what an operator owns in the order in which it is walked; each
child is smaller than its operator, so walks end.
-/
namespace Dataflow

inductive LogicalOperator where
  /-- Reads a location. -/
  | load (key : Key) (location : String)
  /-- Writes a location. -/
  | store (key : Key) (location : String)
  | const (key : Key) (value : Literal)
  | binary (key : Key) (op : BinaryOp) (lhs rhs : LogicalOperator)
  | unary (key : Key) (op : UnaryOp) (operand : LogicalOperator)
  /-- Groups several inputs.  The grouping plans are listed for each input; one is absent where the
  input has no key in that place. -/
  | cogroup (key : Key) (inputs : List Key)
      (groupBy : List (List (Option (Plan LogicalOperator)))) (parallelism : Option Nat)
  /-- Produces output columns, one plan for each. -/
  | generate (key : Key) (plans : List (Plan LogicalOperator)) (flatten : List Bool)
  /-- Orders its input, one plan for each sort key. -/
  | sort (key : Key) (plans : List (Plan LogicalOperator)) (ascending : List Bool)
      (parallelism : Option Nat)
  /-- Keeps the rows that meet a condition. -/
  | filter (key : Key) (condition : Plan LogicalOperator)
  /-- Routes rows to branches; a branch without a condition takes every row. -/
  | split (key : Key) (conditions : List (Option (Plan LogicalOperator)))
  /-- Applies a plan to every row. -/
  | forEach (key : Key) (plan : Plan LogicalOperator)
  /-- Calls a function of the user. -/
  | userFunc (key : Key) (function : String) (args : List LogicalOperator)
  | binCond (key : Key) (cond lhs rhs : LogicalOperator)
  | cast (key : Key) (expr : LogicalOperator) (target : DataType)
  | regexp (key : Key) (operand : LogicalOperator) (pattern : String)
  /-- Refers to columns of the output of an expression.  A sentinel marks a reference that is
  resolved already. -/
  | project (key : Key) (expr : LogicalOperator) (columns : List Nat) (sentinel : Bool)

abbrev LogicalPlan := Plan LogicalOperator

namespace LogicalOperator

instance : Inhabited LogicalOperator := ⟨.load default ""⟩

def key : LogicalOperator → Key
  | .load k _ => k
  | .store k _ => k
  | .const k _ => k
  | .binary k _ _ _ => k
  | .unary k _ _ => k
  | .cogroup k _ _ _ => k
  | .generate k _ _ => k
  | .sort k _ _ _ => k
  | .filter k _ => k
  | .split k _ => k
  | .forEach k _ => k
  | .userFunc k _ _ => k
  | .binCond k _ _ _ => k
  | .cast k _ _ => k
  | .regexp k _ _ => k
  | .project k _ _ _ => k

def kind : LogicalOperator → String
  | .load _ _ => "Load"
  | .store _ _ => "Store"
  | .const _ _ => "Const"
  | .binary _ _ _ _ => "Binary"
  | .unary _ _ _ => "Unary"
  | .cogroup _ _ _ _ => "Cogroup"
  | .generate _ _ _ => "Generate"
  | .sort _ _ _ _ => "Sort"
  | .filter _ _ => "Filter"
  | .split _ _ => "Split"
  | .forEach _ _ => "ForEach"
  | .userFunc _ _ _ => "UserFunc"
  | .binCond _ _ _ _ => "BinCond"
  | .cast _ _ _ => "Cast"
  | .regexp _ _ _ => "Regexp"
  | .project _ _ _ _ => "Project"

/-- What an operator is called in front of its key: its kind, or more exactly the operation of an
expression and the target of a cast. -/
def title : LogicalOperator → String
  | .binary _ op _ _ => op.text
  | .unary _ op _ => op.text
  | .cast _ _ target => "Cast[" ++ target.text ++ "]"
  | op => op.kind

/-- Whether the operator owns nested plans. -/
def hasSubPlans : LogicalOperator → Bool
  | .cogroup _ _ _ _ => true
  | .generate _ _ _ => true
  | .sort _ _ _ _ => true
  | .filter _ _ => true
  | .split _ _ => true
  | .forEach _ _ => true
  | _ => false

/-- Only a cogroup keeps track of its inputs. -/
def declaredInputs : LogicalOperator → Option (List Key)
  | .cogroup _ inputs _ _ => some inputs
  | _ => none

instance : PlanNode LogicalOperator where
  key := key
  name op := op.title ++ " - " ++ op.key.text
  declaredInputs := declaredInputs

/-! ## Children -/

/-- Something that an operator owns. -/
inductive Child where
  | operand (op : LogicalOperator)
  | subPlan (plan : LogicalPlan)

/-- The grouping plans of an input: those listed at the position where the input occurs first. -/
def groupByPlans (inputs : List Key) (groupBy : List (List (Option LogicalPlan))) (input : Key) :
    List (Option LogicalPlan) :=
  (groupBy[inputs.findIdx fun k => k = input]?).getD []

/-- What an operator owns, in the order of a walk.  A resolved column reference hides its
expression. -/
def children : LogicalOperator → List Child
  | .load _ _ => []
  | .store _ _ => []
  | .const _ _ => []
  | .binary _ _ lhs rhs => [.operand lhs, .operand rhs]
  | .unary _ _ operand => [.operand operand]
  | .cogroup _ inputs groupBy _ =>
    inputs.flatMap fun i => (groupByPlans inputs groupBy i).filterMap fun p => p.map .subPlan
  | .generate _ plans _ => plans.map .subPlan
  | .sort _ plans _ _ => plans.map .subPlan
  | .filter _ condition => [.subPlan condition]
  | .split _ conditions => conditions.filterMap fun p => p.map .subPlan
  | .forEach _ plan => [.subPlan plan]
  | .userFunc _ _ args => args.map .operand
  | .binCond _ cond lhs rhs => [.operand cond, .operand lhs, .operand rhs]
  | .cast _ expr _ => [.operand expr]
  | .regexp _ operand _ => [.operand operand]
  | .project _ expr _ sentinel => if sentinel then [] else [.operand expr]

/-- The size by which walks end. -/
noncomputable def Child.size : Child → Nat
  | .operand op => sizeOf op
  | .subPlan plan => sizeOf plan

theorem sizeOf_lt_of_some_mem {plans : List (Option LogicalPlan)} {p : LogicalPlan}
    (h : some p ∈ plans) : sizeOf p < sizeOf plans := by
  have := List.sizeOf_lt_of_mem h
  simp only [Option.some.sizeOf_spec] at this
  omega

theorem size_lt_of_mem_children {op : LogicalOperator} {c : Child} (h : c ∈ op.children) :
    c.size < sizeOf op := by
  cases op with
  | load | store | const => simp [children] at h
  | binary k o lhs rhs =>
    simp only [children, List.mem_cons, List.not_mem_nil, or_false] at h
    rcases h with rfl | rfl <;> simp only [Child.size, binary.sizeOf_spec] <;> omega
  | unary k o operand =>
    obtain rfl := List.mem_singleton.mp h
    simp only [Child.size, unary.sizeOf_spec]
    omega
  | cogroup k inputs groupBy par =>
    simp only [children, List.mem_flatMap, List.mem_filterMap, Option.map_eq_some_iff] at h
    obtain ⟨i, _, o, ho, p, rfl, rfl⟩ := h
    unfold groupByPlans at ho
    cases hg : groupBy[inputs.findIdx fun k => decide (k = i)]? with
    | none => simp [hg] at ho
    | some plans =>
      simp only [hg, Option.getD_some] at ho
      have h1 := sizeOf_lt_of_some_mem ho
      have h2 := List.sizeOf_lt_of_mem (List.mem_of_getElem? hg)
      simp only [Child.size, cogroup.sizeOf_spec]
      omega
  | generate k plans flatten =>
    simp only [children, List.mem_map] at h
    obtain ⟨p, hp, rfl⟩ := h
    have := List.sizeOf_lt_of_mem hp
    simp only [Child.size, generate.sizeOf_spec]
    omega
  | sort k plans ascending par =>
    simp only [children, List.mem_map] at h
    obtain ⟨p, hp, rfl⟩ := h
    have := List.sizeOf_lt_of_mem hp
    simp only [Child.size, sort.sizeOf_spec]
    omega
  | filter k condition =>
    obtain rfl := List.mem_singleton.mp h
    simp only [Child.size, filter.sizeOf_spec]
    omega
  | split k conditions =>
    simp only [children, List.mem_filterMap, Option.map_eq_some_iff] at h
    obtain ⟨o, ho, p, rfl, rfl⟩ := h
    have := sizeOf_lt_of_some_mem ho
    simp only [Child.size, split.sizeOf_spec]
    omega
  | forEach k plan =>
    obtain rfl := List.mem_singleton.mp h
    simp only [Child.size, forEach.sizeOf_spec]
    omega
  | userFunc k name args =>
    simp only [children, List.mem_map] at h
    obtain ⟨p, hp, rfl⟩ := h
    have := List.sizeOf_lt_of_mem hp
    simp only [Child.size, userFunc.sizeOf_spec]
    omega
  | binCond k cond lhs rhs =>
    simp only [children, List.mem_cons, List.not_mem_nil, or_false] at h
    rcases h with rfl | rfl | rfl <;> simp only [Child.size, binCond.sizeOf_spec] <;> omega
  | cast k expr target =>
    obtain rfl := List.mem_singleton.mp h
    simp only [Child.size, cast.sizeOf_spec]
    omega
  | regexp k operand pattern =>
    obtain rfl := List.mem_singleton.mp h
    simp only [Child.size, regexp.sizeOf_spec]
    omega
  | project k expr columns sentinel =>
    cases sentinel with
    | true => exact absurd h List.not_mem_nil
    | false =>
      obtain rfl := List.mem_singleton.mp h
      simp only [Child.size, project.sizeOf_spec]
      omega

theorem sizeOf_lt_of_mem_operators {plan : LogicalPlan} {op : LogicalOperator}
    (h : op ∈ plan.operators) : sizeOf op < sizeOf plan := by
  cases plan with
  | mk operators edges =>
    have : sizeOf op < sizeOf operators := List.sizeOf_lt_of_mem h
    simp only [Plan.mk.sizeOf_spec]
    omega

end LogicalOperator
end Dataflow
