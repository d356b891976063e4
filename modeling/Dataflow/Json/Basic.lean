import Dataflow.Decimal.Notation
/-!
# JSON values

Objects keep their members in order and may hold a name twice; whether that is an error is for the
reader of the object to say.
-/
namespace Dataflow

/-- How a number was written. -/
inductive Json.Number where
  /-- Digits only, and at most 64 bits. -/
  | natural (n : Nat)
  /-- The number `-n`, with `n` between 1 and `2 ^ 63`. -/
  | negative (n : Nat)
  /-- Anything else. -/
  | double (x : Float)
  deriving BEq

inductive Json where
  | null
  | bool (b : Bool)
  | number (n : Json.Number)
  | text (s : String)
  | array (items : List Json)
  | object (members : List (String × Json))

namespace Json

instance : Inhabited Json := ⟨.null⟩

def ofNat (n : Nat) : Json := .number (.natural n)

def ofInt : Int → Json
  | .ofNat n => .number (.natural n)
  | .negSucc n => .number (.negative (n + 1))

def ofOption {α : Type} (f : α → Json) : Option α → Json
  | none => .null
  | some a => f a

def ofList {α : Type} (f : α → Json) (xs : List α) : Json := .array (xs.map f)

/-- The value of the first member with a given name. -/
def get? (name : String) : Json → Option Json
  | .object members => (members.find? fun m => m.1 = name).map Prod.snd
  | _ => none

mutual

def height : Json → Nat
  | .array items => heightItems items + 1
  | .object members => heightMembers members + 1
  | _ => 0

def heightItems : List Json → Nat
  | [] => 0
  | j :: rest => max (height j) (heightItems rest)

def heightMembers : List (String × Json) → Nat
  | [] => 0
  | (_, j) :: rest => max (height j) (heightMembers rest)

end

end Json
end Dataflow
