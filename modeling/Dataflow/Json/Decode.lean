import Dataflow.Json.Basic
import Dataflow.Word
/-!
# Taking JSON values apart

Readers for the parts that records and choices are written with.  A record is an object, or an array
that gives the fields in order.  A choice is told apart by a tag, which is a name, or inside of
another record also the position of that name.
-/
namespace Dataflow.Json

/-- A whole number that fits a word of 64 bits. -/
def nat? : Json → Option Nat
  | .number (.natural n) => some n
  | _ => none

/-- A whole number that fits a signed word of 64 bits. -/
def int64? : Json → Option Int64
  | .number (.natural n) => if n < Word.count 63 then some (Int64.ofNat n) else none
  | .number (.negative n) => some (Int64.ofInt (-(n : Int)))
  | _ => none

/-- Any number, as a double. -/
def double? : Json → Option Float
  | .number (.natural n) => some (Float.ofNat n)
  | .number (.negative n) => some (Float.ofInt (-(n : Int)))
  | .number (.double x) => some x
  | _ => none

def bool? : Json → Option Bool
  | .bool b => some b
  | _ => none

def text? : Json → Option String
  | .text s => some s
  | _ => none

def list? {α : Type} (item : Json → Option α) : Json → Option (List α)
  | .array items => items.mapM item
  | _ => none

/-- An optional value; null counts as absent. -/
def optional? {α : Type} (item : Json → Option α) : Json → Option (Option α)
  | .null => some none
  | j => (item j).map some

/-- The values of the members with a given name. -/
def valuesOf (name : String) (members : List (String × Json)) : List Json :=
  (members.filter fun m => m.1 = name).map Prod.snd

/-- The field of a given name: absent, or given once. -/
def field? (name : String) (members : List (String × Json)) : Option (Option Json) :=
  match valuesOf name members with
  | [] => some none
  | [j] => some (some j)
  | _ => none

/-- The fields of an array in order; fields beyond its end are absent. -/
def fieldsInOrder : List String → List Json → Option (List (Option Json))
  | [], [] => some []
  | [], _ :: _ => none
  | _ :: names, [] => (fieldsInOrder names []).map (none :: ·)
  | _ :: names, j :: rest => (fieldsInOrder names rest).map (some j :: ·)

/-- The fields of a record under the given names.  Members of an object with other names are
ignored; an array must not be longer than the record. -/
def fields? (names : List String) : Json → Option (List (Option Json))
  | .object members => names.mapM fun n => field? n members
  | .array items => fieldsInOrder names items
  | _ => none

def required? {α : Type} (item : Json → Option α) : Option Json → Option α
  | some j => item j
  | none => none

def withDefault? {α : Type} (fallback : α) (item : Json → Option α) : Option Json → Option α
  | some j => item j
  | none => some fallback

/-- The position that a tag names. -/
def tagIndex? (names : List String) (byPosition : Bool) : Json → Option Nat
  | .text s => names.findIdx? fun n => n = s
  | .number (.natural n) => if byPosition && n < names.length then some n else none
  | _ => none

/-- A choice told apart by a tag: the position of the tag among `names`, and the record that is left
without the tag. -/
def tagged? (tag : String) (names : List String) (byPosition : Bool) : Json → Option (Nat × Json)
  | .object members =>
    match field? tag members with
    | some (some t) =>
      (tagIndex? names byPosition t).map fun i => (i, .object (members.filter fun m => m.1 ≠ tag))
    | _ => none
  | .array (t :: rest) => (tagIndex? names byPosition t).map fun i => (i, .array rest)
  | _ => none

/-- What stands for no fields at all: null, inside of another record also an empty object. -/
def isUnit (nested : Bool) : Json → Bool
  | .null => true
  | .object [] => nested
  | _ => false

/-- A choice without further fields: its name, or an object that maps the name to no fields. -/
def name? {α : Type} (names : List (String × α)) (nested : Bool) : Json → Option α
  | .text s => (names.find? fun p => p.1 = s).map Prod.snd
  | .object [(s, j)] =>
    if j.isUnit nested then (names.find? fun p => p.1 = s).map Prod.snd else none
  | _ => none

end Dataflow.Json
