import Dataflow.Toml.Basic
/-!
# Taking TOML values apart

Readers for the settings that a document is asked for.
-/
namespace Dataflow.Toml

def asNat? : Toml → Option Nat
  | .scalar (.integer n) => if 0 ≤ n then some n.toNat else none
  | _ => none

def asBool? : Toml → Option Bool
  | .scalar (.boolean b) => some b
  | _ => none

/-- A double, which may be written as a whole number. -/
def asDouble? : Toml → Option Float
  | .scalar (.float x) => some x
  | .scalar (.integer n) => some (Float.ofInt n)
  | _ => none

def asText? : Toml → Option String
  | .scalar (.text s) => some s
  | _ => none

/-- A choice: its name, or a table with nothing but the name and an empty value. -/
def asChoice? : Toml → Option String
  | .scalar (.text s) => some s
  | .table [(s, .array [])] => some s
  | .table [(s, .table [])] => some s
  | _ => none

def orDefault {α : Type} (fallback : α) (decode : Toml → Option α) : Option Toml → Option α
  | none => some fallback
  | some t => decode t

/-- What a value says about the settings with the given names.  An array gives them in order; a
date or a time has the form of a record, but none of the names. -/
def settings? (names : List String) : Toml → Option (List (Option Toml))
  | .table members => some (names.map fun n => (members.find? fun m => m.1 = n).map Prod.snd)
  | .array items => some (names.mapIdx fun i _ => items[i]?)
  | .scalar (.dateTime _) => some (names.map fun _ => none)
  | .scalar _ => none

end Dataflow.Toml
