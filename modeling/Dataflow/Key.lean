/-!
# Identities

Operators are named by a `Key`: a scope and a number.  A `KeySupply` hands out the keys of one
scope in order, so keys drawn from one supply are pairwise distinct.  Stages and jobs are named by
numbers of their own, kept apart by their types.
-/
namespace Dataflow

/-- Identity of an operator: a scope and a number that is unique within the scope. -/
structure Key where
  scope : String
  id : Nat
  deriving DecidableEq, Inhabited

namespace Key

/-- The written form `scope-id`. -/
def text (k : Key) : String := k.scope ++ "-" ++ toString k.id

/-- Keys are ordered by scope, and within a scope by number. -/
def le (a b : Key) : Bool :=
  decide (a.scope < b.scope) || (decide (a.scope = b.scope) && decide (a.id ≤ b.id))

end Key

/-- A supply of fresh keys within one scope. -/
structure KeySupply where
  scope : String
  next : Nat
  deriving DecidableEq

namespace KeySupply

/-- A supply whose first key has number 1. -/
def ofScope (scope : String) : KeySupply := ⟨scope, 1⟩

def draw (s : KeySupply) : Key × KeySupply :=
  (⟨s.scope, s.next⟩, { s with next := s.next + 1 })

/-- The next `n` keys, in the order they are drawn. -/
def take : Nat → KeySupply → List Key
  | 0, _ => []
  | n + 1, s => s.draw.1 :: take n s.draw.2

end KeySupply

/-- Identity of a stage; also its position in the stage table. -/
structure StageId where
  val : Nat
  deriving DecidableEq, Inhabited

/-- The written form `stage-n`. -/
def StageId.text (s : StageId) : String := "stage-" ++ toString s.val

/-- Identity of a job; jobs are numbered from 1. -/
structure JobId where
  val : Nat
  deriving DecidableEq, Inhabited

/-- The written form `job-n`. -/
def JobId.text (j : JobId) : String := "job-" ++ toString j.val

end Dataflow
