import Dataflow.Decimal.Reader
import Dataflow.Logical.Types
/-!
# Numerals

The reader of whole numbers takes digits behind an optional sign, with leading zeros and a plus if
they are there.  The printer writes no more than it has to.  Both go by the same numerals: the reader
takes just the texts of numerals, each for the number that it stands for, and what the printer writes
is the text of one.

**Proved here.**

    digits are read as the number they stand for            (`natOfDigits_eq_some_iff`)
    what is read as a whole number, and as which            (`int?_eq_some_iff`)
    a number in writing is read back                        (`int?_intText`)
-/
namespace Dataflow.Decimal

/-- What stands before the digits of a numeral. -/
inductive Sign where
  | none
  | plus
  | minus

namespace Sign

def marks : Sign → List Char
  | .none => []
  | .plus => ['+']
  | .minus => ['-']

def isMinus : Sign → Bool
  | .minus => true
  | _ => false

def of (s : Sign) (n : Nat) : Int := if s.isMinus then -(n : Int) else n

end Sign

/-- A whole number in writing. -/
structure Numeral where
  sign : Sign
  digits : List Char
  digits_ne_nil : digits ≠ []
  isDigit : ∀ c ∈ digits, c.isDigit

namespace Numeral

def text (m : Numeral) : String := String.ofList (m.sign.marks ++ m.digits)

def value (m : Numeral) : Int := m.sign.of (Nat.ofDigitChars 10 m.digits 0)

def ofNat (sign : Sign) (n : Nat) : Numeral where
  sign := sign
  digits := Nat.toDigits 10 n
  digits_ne_nil := Nat.toDigits_ne_nil
  isDigit := fun _ hc => Nat.isDigit_of_mem_toDigits (by decide) (by decide) hc

theorem value_ofNat (sign : Sign) (n : Nat) : (ofNat sign n).value = sign.of n := by
  rw [value, ofNat, Nat.ofDigitChars_toDigits (by decide) (by decide)]

theorem exists_intText (n : Int) : ∃ m : Numeral, m.text = intText n ∧ m.value = n := by
  cases n with
  | ofNat n =>
      refine ⟨ofNat .none n, ?_, value_ofNat .none n⟩
      rw [← String.toList_inj]
      simp [text, ofNat, Sign.marks, intText]
  | negSucc n =>
      refine ⟨ofNat .minus (n + 1), ?_, value_ofNat .minus (n + 1)⟩
      rw [← String.toList_inj]
      simp [text, ofNat, Sign.marks, intText]

end Numeral

/-! ## Digits -/

theorem digit?_eq_some_iff {c : Char} {d : Nat} :
    digit? c = some d ↔ c.isDigit ∧ d = c.toNat - '0'.toNat := by
  have hrange : c.isDigit ↔ '0' ≤ c ∧ c ≤ '9' := by
    simp [Char.isDigit, Char.le_def]
  rw [digit?, hrange]
  by_cases hc : '0' ≤ c ∧ c ≤ '9'
  · simp [hc, eq_comm]
  · simp [hc]

theorem natOfDigits_go_eq_some_iff {cs : List Char} {acc n : Nat} :
    natOfDigits.go acc cs = some n ↔
      (∀ c ∈ cs, c.isDigit) ∧ n = Nat.ofDigitChars 10 cs acc := by
  induction cs generalizing acc with
  | nil =>
      simp only [natOfDigits.go, Option.some.injEq, Nat.ofDigitChars_nil, List.not_mem_nil]
      simpa using eq_comm
  | cons c cs ih =>
      rw [natOfDigits.go]
      cases hd : digit? c with
      | none =>
          have hc : ¬ c.isDigit := by
            intro hc
            rw [digit?_eq_some_iff.mpr ⟨hc, rfl⟩] at hd
            cases hd
          simp [hc]
      | some d =>
          obtain ⟨hc, rfl⟩ := digit?_eq_some_iff.mp hd
          simp [ih, hc, Nat.ofDigitChars_cons]

/-- Digits are read as the number that they stand for. -/
theorem natOfDigits_eq_some_iff {cs : List Char} {n : Nat} :
    natOfDigits cs = some n ↔ (∀ c ∈ cs, c.isDigit) ∧ n = Nat.ofDigitChars 10 cs 0 :=
  natOfDigits_go_eq_some_iff

/-! ## Signs -/

theorem sign_append {s : Sign} {ds : List Char} (hne : ds ≠ []) (hds : ∀ c ∈ ds, c.isDigit) :
    sign (s.marks ++ ds) = (s.isMinus, ds) := by
  cases s with
  | plus => rfl
  | minus => rfl
  | none =>
      obtain ⟨c, cs, rfl⟩ := List.exists_cons_of_ne_nil hne
      have hc := hds c List.mem_cons_self
      show sign (c :: cs) = (false, c :: cs)
      rw [sign]
      all_goals
        rintro _ ⟨⟩
        exact absurd hc (by decide)

theorem exists_marks (cs : List Char) :
    ∃ s : Sign, cs = s.marks ++ (sign cs).2 ∧ (sign cs).1 = s.isMinus := by
  rw [sign.eq_def]
  split
  · exact ⟨.minus, rfl, rfl⟩
  · exact ⟨.plus, rfl, rfl⟩
  · exact ⟨.none, rfl, rfl⟩

/-! ## Whole numbers -/

theorem int?_text (m : Numeral) : int? m.text = some m.value := by
  have hsign := sign_append (s := m.sign) m.digits_ne_nil m.isDigit
  have hdigits : natOfDigits m.digits = some (Nat.ofDigitChars 10 m.digits 0) :=
    natOfDigits_eq_some_iff.mpr ⟨m.isDigit, rfl⟩
  simp [int?, Numeral.text, hsign, m.digits_ne_nil, hdigits, Numeral.value, Sign.of]

/-- What is read as a whole number is a numeral that stands for it. -/
theorem int?_eq_some_iff {s : String} {n : Int} :
    int? s = some n ↔ ∃ m : Numeral, m.text = s ∧ m.value = n := by
  constructor
  · intro h
    obtain ⟨sg, hcs, hneg⟩ := exists_marks s.toList
    simp only [int?] at h
    split at h
    · cases h
    next hne =>
      obtain ⟨k, hk, rfl⟩ := Option.map_eq_some_iff.mp h
      obtain ⟨j, hj, ⟨⟩⟩ := Option.bind_eq_some_iff.mp hk
      obtain ⟨hds, rfl⟩ := natOfDigits_eq_some_iff.mp hj
      refine ⟨⟨sg, (sign s.toList).2, by simpa using hne, hds⟩, ?_, ?_⟩
      · rw [Numeral.text, ← hcs, String.ofList_toList]
      · rw [Numeral.value, Sign.of, ← hneg]
  · rintro ⟨m, rfl, rfl⟩
    exact int?_text m

/-- A number in writing is read back. -/
theorem int?_intText (n : Int) : int? (intText n) = some n :=
  int?_eq_some_iff.mpr (Numeral.exists_intText n)

theorem signedWord?_eq_some_iff {bits : Nat} {s : String} {n : Int} :
    signedWord? bits s = some n ↔
      int? s = some n ∧ Word.leastSigned bits ≤ n ∧ n ≤ Word.largestSigned bits := by
  rw [signedWord?, intWithin?]
  cases int? s with
  | none => simp
  | some k =>
      by_cases hk : Word.leastSigned bits ≤ k ∧ k ≤ Word.largestSigned bits
      · simp only [if_pos hk, Option.some.injEq]
        exact ⟨fun h => ⟨h, h ▸ hk⟩, And.left⟩
      · simp only [if_neg hk, Option.some.injEq]
        exact ⟨(nomatch ·), fun h => absurd (h.1.symm ▸ h.2) hk⟩

end Dataflow.Decimal
