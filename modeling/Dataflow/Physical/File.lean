import Dataflow.Json.Reader
import Dataflow.Json.Printer
import Dataflow.Physical.Spec
/-!
# Plan files

Physical plans as JSON.  An operator is one object: its number, its inputs, the tag that names its
kind, and the fields of the kind beside them.  Fields that a kind does not know are ignored.
-/
namespace Dataflow

namespace PhysicalKind

/-- The tags of the kinds, in the order of the kinds. -/
def tags : List String :=
  ["load", "store", "filter", "for_each", "limit", "union", "split", "group", "cogroup", "join",
    "distinct", "sort"]

def parallelismMember (n : Option Nat) : String × Json :=
  ("parallelism", Json.ofOption Json.ofNat n)

def columnsJson (columns : List Nat) : Json := Json.ofList Json.ofNat columns

/-- The members of a kind in a file, the tag first. -/
def members : PhysicalKind → List (String × Json)
  | .load location => [("type", .text "load"), ("location", .text location)]
  | .store location => [("type", .text "store"), ("location", .text location)]
  | .filter condition => [("type", .text "filter"), ("condition", condition.toJson)]
  | .forEach generate =>
    [("type", .text "for_each"), ("generate", Json.ofList ExprSpec.toJson generate)]
  | .limit count => [("type", .text "limit"), ("count", Json.ofNat count)]
  | .union => [("type", .text "union")]
  | .split => [("type", .text "split")]
  | .group keys n => [("type", .text "group"), ("keys", columnsJson keys), parallelismMember n]
  | .cogroup keys n =>
    [("type", .text "cogroup"), ("keys", Json.ofList columnsJson keys), parallelismMember n]
  | .join keys n =>
    [("type", .text "join"), ("keys", Json.ofList columnsJson keys), parallelismMember n]
  | .distinct n => [("type", .text "distinct"), parallelismMember n]
  | .sort keys ascending n =>
    [("type", .text "sort"), ("keys", columnsJson keys), ("ascending", Json.ofList .bool ascending),
      parallelismMember n]

/-- Reads an optional number of partitions. -/
def parallelism? : Option Json → Option (Option Nat) :=
  Json.withDefault? none (Json.optional? Json.nat?)

def columns? : Json → Option (List Nat) := Json.list? Json.nat?

/-- Reads the fields of the kind whose tag has a given position. -/
def ofFields? (position : Nat) (fields : Json) : Option PhysicalKind :=
  match position with
  | 0 =>
    match fields.fields? ["location"] with
    | some [location] => (Json.required? Json.text? location).map .load
    | _ => none
  | 1 =>
    match fields.fields? ["location"] with
    | some [location] => (Json.required? Json.text? location).map .store
    | _ => none
  | 2 =>
    match fields.fields? ["condition"] with
    | some [condition] => (Json.required? ExprSpec.ofNestedJson? condition).map .filter
    | _ => none
  | 3 =>
    match fields.fields? ["generate"] with
    | some [generate] =>
      (Json.required? (Json.list? ExprSpec.ofNestedJson?) generate).map .forEach
    | _ => none
  | 4 =>
    match fields.fields? ["count"] with
    | some [count] => (Json.required? Json.nat? count).map .limit
    | _ => none
  | 5 => (fields.fields? []).map fun _ => .union
  | 6 => (fields.fields? []).map fun _ => .split
  | 7 =>
    match fields.fields? ["keys", "parallelism"] with
    | some [keys, n] => do return .group (← Json.required? columns? keys) (← parallelism? n)
    | _ => none
  | 8 =>
    match fields.fields? ["keys", "parallelism"] with
    | some [keys, n] => do
      return .cogroup (← Json.required? (Json.list? columns?) keys) (← parallelism? n)
    | _ => none
  | 9 =>
    match fields.fields? ["keys", "parallelism"] with
    | some [keys, n] => do
      return .join (← Json.required? (Json.list? columns?) keys) (← parallelism? n)
    | _ => none
  | 10 =>
    match fields.fields? ["parallelism"] with
    | some [n] => (parallelism? n).map .distinct
    | _ => none
  | 11 =>
    match fields.fields? ["keys", "ascending", "parallelism"] with
    | some [keys, ascending, n] => do
      return .sort (← Json.required? columns? keys)
        (← Json.withDefault? [] (Json.list? Json.bool?) ascending) (← parallelism? n)
    | _ => none
  | _ => none

/-- Reads a kind; `nested` says whether it stands inside of another record. -/
def decode (nested : Bool) (j : Json) : Option PhysicalKind :=
  match j.tagged? "type" tags nested with
  | some (position, fields) => ofFields? position fields
  | none => none

def ofJson? (j : Json) : Option PhysicalKind := decode false j

end PhysicalKind

namespace OperatorSpec

def toJson (op : OperatorSpec) : Json :=
  .object (("id", Json.ofNat op.id) :: ("inputs", Json.ofList Json.ofNat op.inputs) ::
    op.kind.members)

/-- Reads an operator.  What is left of the object without its number and its inputs is the
kind. -/
def ofJson? : Json → Option OperatorSpec
  | .object ms => do
    match ← (Json.object ms).fields? ["id", "inputs"] with
    | [id, inputs] =>
      let id ← Json.required? Json.nat? id
      let inputs ← Json.withDefault? [] (Json.list? Json.nat?) inputs
      let rest := ms.filter fun m => !(m.1 = "id" || m.1 = "inputs")
      return ⟨id, inputs, ← PhysicalKind.decode true (.object rest)⟩
    | _ => none
  | _ => none

end OperatorSpec

namespace PlanSpec

def toJson (s : PlanSpec) : Json :=
  .object [("scope", .text s.scope), ("operators", Json.ofList OperatorSpec.toJson s.operators)]

def ofJson? (j : Json) : Option PlanSpec := do
  match ← j.fields? ["scope", "operators"] with
  | [scope, operators] =>
    return ⟨← Json.withDefault? defaultScope Json.text? scope,
      ← Json.required? (Json.list? OperatorSpec.ofJson?) operators⟩
  | _ => none

def parse? (s : String) : Option PlanSpec :=
  (Json.parseFor? ["scope", "operators"] s).bind ofJson?

def print (s : PlanSpec) : String := s.toJson.pretty 0

end PlanSpec
end Dataflow
