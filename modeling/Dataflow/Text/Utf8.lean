/-!
# Reading bytes as text

`decodeLossy` reads bytes as UTF-8.  Where the bytes cannot be continued to a character, the longest
part that was still a beginning of one counts as one unknown character, U+FFFD.
-/
namespace Dataflow.Text

/-- What a lead byte promises: how many bytes follow, the range of the first of them, and the bits
that the lead byte itself contributes. -/
structure Lead where
  more : Nat
  low : UInt8
  high : UInt8
  bits : Nat

/-- The promise of a byte that may begin a character of several bytes. -/
def lead? (a : UInt8) : Option Lead :=
  if 0xC2 ≤ a && a ≤ 0xDF then some ⟨1, 0x80, 0xBF, a.toNat - 0xC0⟩
  else if a == 0xE0 then some ⟨2, 0xA0, 0xBF, 0⟩
  else if a == 0xED then some ⟨2, 0x80, 0x9F, 0xD⟩
  else if 0xE1 ≤ a && a ≤ 0xEF then some ⟨2, 0x80, 0xBF, a.toNat - 0xE0⟩
  else if a == 0xF0 then some ⟨3, 0x90, 0xBF, 0⟩
  else if 0xF1 ≤ a && a ≤ 0xF3 then some ⟨3, 0x80, 0xBF, a.toNat - 0xF0⟩
  else if a == 0xF4 then some ⟨3, 0x80, 0x8F, 4⟩
  else none

/-- Reads the bytes that follow a lead byte.  The number is the code point, when all of them were
there; the list is what comes after the bytes that fitted. -/
def continuation (more : Nat) (low high : UInt8) (bits : Nat) (s : List UInt8) :
    Option Nat × { r : List UInt8 // r.length ≤ s.length } :=
  match more, s with
  | 0, s => (some bits, ⟨s, Nat.le_refl _⟩)
  | _ + 1, [] => (none, ⟨[], Nat.le_refl _⟩)
  | n + 1, b :: s =>
    if low ≤ b && b ≤ high then
      let (code, rest) := continuation n 0x80 0xBF (bits * 0x40 + (b.toNat - 0x80)) s
      (code, ⟨rest.val, Nat.le_succ_of_le rest.property⟩)
    else (none, ⟨b :: s, Nat.le_refl _⟩)

/-- The character that stands for bytes without a meaning. -/
def unknown : Char := '\uFFFD'

/-- The characters that a list of bytes stands for. -/
def decodeLossy : List UInt8 → List Char
  | [] => []
  | a :: s =>
    if a < 0x80 then Char.ofNat a.toNat :: decodeLossy s
    else
      match lead? a with
      | none => unknown :: decodeLossy s
      | some l =>
        let r := continuation l.more l.low l.high l.bits s
        (r.1.map Char.ofNat).getD unknown :: decodeLossy r.2.val
  termination_by s => s.length
  decreasing_by
  · simp
  · simp
  · exact Nat.lt_succ_of_le (continuation l.more l.low l.high l.bits s).2.property

/-- The text that a list of bytes stands for. -/
def textOfBytes (bytes : List UInt8) : String := String.ofList (decodeLossy bytes)

def bytesOfText (s : String) : List UInt8 := s.toUTF8.toList

end Dataflow.Text
