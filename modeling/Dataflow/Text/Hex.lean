/-!
# Hexadecimal text

Numbers and bytes in base 16.
-/
namespace Dataflow.Text.Hex

def digit? (c : Char) : Option Nat :=
  if '0' ≤ c ∧ c ≤ '9' then some (c.toNat - '0'.toNat)
  else if 'a' ≤ c ∧ c ≤ 'f' then some (c.toNat - 'a'.toNat + 10)
  else if 'A' ≤ c ∧ c ≤ 'F' then some (c.toNat - 'A'.toNat + 10)
  else none

def number? (cs : List Char) : Option Nat :=
  cs.foldlM (fun n c => (digit? c).map fun d => n * 16 + d) 0

/-- The lower-case digits of a number, without leading zeros. -/
def text (n : Nat) : String := String.ofList (Nat.toDigits 16 n)

/-- The lower-case digits of a number, with zeros in front up to a width. -/
def padded (width n : Nat) : String :=
  let ds := Nat.toDigits 16 n
  String.ofList (List.replicate (width - ds.length) '0' ++ ds)

def ofBytes (bs : List UInt8) : String := String.join (bs.map fun b => padded 2 b.toNat)

/-- The bytes that pairs of digits stand for. -/
def bytes? : List Char → Option (List UInt8)
  | [] => some []
  | a :: b :: rest => do return UInt8.ofNat (← number? [a, b]) :: (← bytes? rest)
  | [_] => none

end Dataflow.Text.Hex
