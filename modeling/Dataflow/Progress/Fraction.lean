import Dataflow.Decimal.Notation
/-!
# Numbers for progress

Progress is a part of a whole.  Launches count it in doubles; everything that is computed from it
only needs the operations collected here, so it can be counted in exact numbers as well.
-/
namespace Dataflow

/-- Numbers that parts of a whole can be measured in. -/
class Fraction (F : Type) extends NatCast F, Add F, Sub F, Mul F, Div F, LT F, LE F where
  decidableLT : DecidableLT F
  decidableLE : DecidableLE F
  /-- A number of hundredths, as text. -/
  percentText : F → String

namespace Fraction

instance (priority := low) {F : Type} [Fraction F] : DecidableLT F := decidableLT

instance (priority := low) {F : Type} [Fraction F] : DecidableLE F := decidableLE

instance : Fraction Float where
  natCast := Float.ofNat
  decidableLT := inferInstance
  decidableLE := inferInstance
  percentText x := Decimal.fixed 1 (x * 100)

instance : Fraction Rat where
  natCast := Nat.cast
  decidableLT := inferInstance
  decidableLE := inferInstance
  percentText x := toString (x * 100).floor ++ ".0"

variable {F : Type} [Fraction F]

def zero : F := ((0 : Nat) : F)

def one : F := ((1 : Nat) : F)

/-- The larger of two numbers; what cannot be compared with `a` does not replace it. -/
def larger (a b : F) : F := if a < b then b else a

/-- The nearest number between nothing and all. -/
def clamp (x : F) : F := if x < zero then zero else if one < x then one else x

/-- How far two numbers are apart. -/
def distance (a b : F) : F := if a < b then b - a else a - b

end Fraction
end Dataflow
