import Dataflow.Progress.Fraction
/-!
# Tracking progress

A tracker compares each poll with the one before, so that a listener only hears of progress.
-/
namespace Dataflow

/-- Remembers the progress of the latest poll; before the first one it holds a negative number. -/
structure Tracker (F : Type) where
  latest : F

namespace Tracker

variable {F : Type} [Fraction F]

def start : Tracker F := ⟨Fraction.zero - Fraction.one⟩

/-- Remembers a poll, and says whether it exceeds the one before. -/
def observe (t : Tracker F) (progress : F) : Bool × Tracker F :=
  (decide (t.latest < progress), ⟨progress⟩)

/-- The progress of the latest poll. -/
def last? (t : Tracker F) : Option F :=
  if Fraction.zero ≤ t.latest then some t.latest else none

end Tracker
end Dataflow
