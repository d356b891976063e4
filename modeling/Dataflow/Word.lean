/-!
# Words

The ranges of whole numbers that fixed numbers of bits can hold.
-/
namespace Dataflow.Word

/-- How many numbers so many bits tell apart. -/
def count (bits : Nat) : Nat := Nat.pow 2 bits

/-- The largest number of a word without a sign. -/
def largest (bits : Nat) : Nat := count bits - 1

/-- The least number of a word with a sign. -/
def leastSigned (bits : Nat) : Int := -(count (bits - 1) : Int)

/-- The largest number of a word with a sign. -/
def largestSigned (bits : Nat) : Int := (count (bits - 1) : Int) - 1

end Dataflow.Word
