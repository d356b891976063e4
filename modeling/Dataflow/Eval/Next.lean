import Dataflow.Fault
import Dataflow.Value.Basic
/-!
# Results of a pull

Operators produce values on demand.  A pull yields a value or one of three signals; the end of the
data and a null are expected outcomes, and only an error reports a problem.
-/
namespace Dataflow

/-- Why an operator could not produce a value.  Every reason names the operator that raised it. -/
inductive EvalError where
  | typeMismatch (operator : Key) (expected found : DataType)
  | incomparable (operator : Key) (lhs rhs : DataType)
  | columnOutOfRange (operator : Key) (column width : Nat)
  /-- The operator was pulled again after the end of its data. -/
  | exhausted (operator : Key)
  | failed (operator : Key) (reason : String)
  deriving DecidableEq

namespace EvalError

def operator : EvalError → Key
  | .typeMismatch k _ _ => k
  | .incomparable k _ _ => k
  | .columnOutOfRange k _ _ => k
  | .exhausted k => k
  | .failed k _ => k

def message : EvalError → String
  | .typeMismatch k e f => k.text ++ ": expected " ++ e.text ++ ", found " ++ f.text
  | .incomparable k l r => k.text ++ ": cannot compare " ++ l.text ++ " with " ++ r.text
  | .columnOutOfRange k c w =>
    k.text ++ ": column " ++ toString c ++ " out of range for tuple of width " ++ toString w
  | .exhausted k => k.text ++ ": pulled after end of data"
  | .failed k r => k.text ++ ": " ++ r

/-- The fault that the error becomes outside of evaluation. -/
def fault (e : EvalError) : Fault := .evaluation e.operator e.message

end EvalError

/-- The result of one pull. -/
inductive Next (α : Type) where
  | ok (value : α)
  | endOfData
  | null
  | error (e : EvalError)

namespace Next

variable {α β : Type}

instance : Inhabited (Next α) := ⟨.null⟩

def status : Next α → String
  | .ok _ => "OK"
  | .endOfData => "EOP"
  | .null => "NULL"
  | .error _ => "ERR"

def isOk : Next α → Bool
  | .ok _ => true
  | _ => false

def isEndOfData : Next α → Bool
  | .endOfData => true
  | _ => false

def value? : Next α → Option α
  | .ok a => some a
  | _ => none

/-- Changes the value and keeps every signal. -/
def map (f : α → β) : Next α → Next β
  | .ok a => .ok (f a)
  | .endOfData => .endOfData
  | .null => .null
  | .error e => .error e

/-- The result with errors set apart from all that is expected. -/
def toExcept : Next α → Except EvalError (Option α)
  | .ok a => .ok (some a)
  | .endOfData => .ok none
  | .null => .ok none
  | .error e => .error e

/-- Continues with the value of a result; every signal ends the evaluation unchanged. -/
def andThen {m : Type → Type} [Monad m] (first : m (Next α)) (next : α → m (Next β)) :
    m (Next β) := do
  match ← first with
  | .ok a => next a
  | .endOfData => pure .endOfData
  | .null => pure .null
  | .error e => pure (.error e)

end Next
end Dataflow
