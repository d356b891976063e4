import Dataflow.Eval.Expr
/-!
# Scripted operands

A stand-in for an operand from outside: it answers its pulls with the entries of a list, one after
the other and the last one for ever, and counts how often it was pulled.
-/
namespace Dataflow

/-- A scripted operand, referred to by its position among all of them. -/
structure ScriptRef where
  key : Key
  index : Nat

/-- Scripted operands claim to produce truth values. -/
instance : Operand ScriptRef where
  key := ScriptRef.key
  kind _ := "Scripted"
  resultType _ := .boolean

/-- The state of a scripted operand. -/
structure Script where
  results : List (Next Value)
  pulls : Nat := 0

namespace Script

def next (s : Script) : Next Value × Script :=
  match s.results with
  | [] => (.endOfData, { s with pulls := s.pulls + 1 })
  | [r] => (r, { s with pulls := s.pulls + 1 })
  | r :: rest => (r, { results := rest, pulls := s.pulls + 1 })

/-- Pulls one of several scripted operands. -/
def ask (l : ScriptRef) (_ : Tuple) : StateM (List Script) (Next Value) := fun scripts =>
  match scripts[l.index]? with
  | none => (.endOfData, scripts)
  | some s => (s.next.1, scripts.set l.index s.next.2)

end Script
end Dataflow
