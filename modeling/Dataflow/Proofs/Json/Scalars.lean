import Dataflow.Json.Printer
import Dataflow.Json.Reader
import Dataflow.Proofs.Decimal.Numerals
/-!
# Texts and whole numbers are read back

The printer and the reader agree on everything that holds no other value.  A text may be followed by
anything; a number only by what ends it, since further digits, a point or an exponent would be read
as part of it.  The printer puts a comma or a line break behind a value, or nothing at all.

Doubles are left out: their digits are the fewest that name them, and the reader rounds.

**Proved here.**

    the characters of a quoted text come back, escapes included       (`textBody_flatMap`)
    the digits of a number are all that is read, and its value        (`literal?_digits`)
    both at once, for every value that holds no other                 (`scalar?_text`, …)
-/
namespace Dataflow

namespace Decimal

/-! ## Digits -/

theorem isDigit_of_mem_toDigits {n : Nat} {c : Char} (h : c ∈ Nat.toDigits 10 n) : isDigit c := by
  have hc := Nat.isDigit_of_mem_toDigits (by decide) (by decide) h
  rw [isDigit, digit?_eq_some_iff.mpr ⟨hc, rfl⟩]
  rfl

theorem natOfDigits_toDigits (n : Nat) : natOfDigits (Nat.toDigits 10 n) = some n :=
  natOfDigits_eq_some_iff.mpr ⟨(Numeral.ofNat .none n).isDigit,
    (Nat.ofDigitChars_toDigits (by decide) (by decide)).symm⟩

theorem exists_head_toDigits (n : Nat) :
    ∃ c cs, Nat.toDigits 10 n = c :: cs ∧ isDigit c := by
  obtain ⟨c, cs, hcs⟩ := List.exists_cons_of_ne_nil (Nat.toDigits_ne_nil (n := n) (b := 10))
  refine ⟨c, cs, hcs, isDigit_of_mem_toDigits (n := n) ?_⟩
  rw [hcs]
  exact List.mem_cons_self

theorem head?_toDigits {n : Nat} (h : 0 < n) : (Nat.toDigits 10 n).head? ≠ some '0' := by
  induction n using Nat.strongRecOn with
  | ind n ih =>
      rcases Nat.lt_or_ge n 10 with hlt | hge
      · have hall : ∀ d < 10, 0 < d → some (Nat.digitChar d) ≠ some '0' := by decide
        rw [Nat.toDigits_of_lt_base hlt]
        exact hall n hlt h
      · have hfront := ih (n / 10) (by omega) (by omega)
        obtain ⟨c, cs, hcs, -⟩ := exists_head_toDigits (n / 10)
        rw [hcs] at hfront
        rw [Nat.toDigits_of_base_le (by decide) hge, hcs]
        exact hfront

theorem spanDigits_append {ds rest : List Char} (hds : ∀ c ∈ ds, isDigit c)
    (hrest : ∀ c ∈ rest.head?, isDigit c = false) : spanDigits (ds ++ rest) = (ds, rest) := by
  have hstop : rest.takeWhile isDigit = [] ∧ rest.dropWhile isDigit = rest := by
    cases rest with
    | nil => exact ⟨rfl, rfl⟩
    | cons c rest => simp [hrest c rfl]
  rw [spanDigits, List.takeWhile_append_of_pos hds, List.dropWhile_append_of_pos hds, hstop.1,
    hstop.2, List.append_nil]

end Decimal

namespace Json

/-! ## Texts -/

theorem hex4?_hexDigit {n : Nat} (h : n < 0x20) :
    hex4? '0' '0' (hexDigit (n / 16)) (hexDigit n) = some n := by
  have hall : ∀ n < 0x20, hex4? '0' '0' (hexDigit (n / 16)) (hexDigit n) = some n := by decide
  exact hall n h

theorem textBody_escapeChar (c : Char) (rest : List Char) :
    textBody (escapeChar c ++ rest) = (textBody rest).map fun r => (c :: r.1, r.2) := by
  unfold escapeChar
  -- the characters that have a letter of their own
  iterate 7
    split
    next h =>
      subst h
      rfl
  split
  next hcontrol =>
    have hlow : isLowSurrogate c.toNat = false := by simp [isLowSurrogate]; omega
    have hhigh : isHighSurrogate c.toNat = false := by simp [isHighSurrogate]; omega
    simp only [List.cons_append, List.nil_append]
    rw [textBody]
    simp [hex4?_hexDigit hcontrol, hlow, hhigh]
  next hquote hslash _ _ _ _ _ hplain =>
    simp only [List.cons_append, List.nil_append]
    rw [textBody.eq_def]
    split
    next h => cases h
    next h => exact absurd (List.cons.inj h).1 hquote
    next h => exact absurd (List.cons.inj h).1 hslash
    next h => exact absurd (List.cons.inj h).1 hslash
    next h =>
      cases h
      rw [if_neg (not_or.mpr ⟨hplain, hslash⟩)]

/-- The characters of a text are read back up to the closing quote. -/
theorem textBody_flatMap (cs rest : List Char) :
    textBody (cs.flatMap escapeChar ++ '"' :: rest) = some (cs, rest) := by
  induction cs with
  | nil => rfl
  | cons c cs ih =>
      rw [List.flatMap_cons, List.append_assoc, textBody_escapeChar, ih]
      rfl

theorem toList_quote (s : String) :
    (quote s).toList = '"' :: (s.toList.flatMap escapeChar ++ ['"']) := by
  simp [quote]

/-! ## Numbers -/

/-- What the printer puts behind a value: nothing, a comma, or a line break. -/
def Delimited (rest : List Char) : Prop := ∀ c ∈ rest.head?, c = ',' ∨ c = '\n'

/-- The numbers without a fraction, as the reader makes them. -/
def Number.Whole : Number → Prop
  | .natural n => n ≤ Word.largest 64
  | .negative n => 1 ≤ n ∧ n ≤ Word.count 63
  | .double _ => False

theorem Delimited.fraction? {rest : List Char} (h : Delimited rest) :
    fraction? rest = some (none, rest) := by
  cases rest with
  | nil => rfl
  | cons c rest =>
      rcases h c rfl with rfl | rfl
      · rfl
      · rfl

theorem Delimited.exponent? {rest : List Char} (h : Delimited rest) :
    exponent? rest = some (none, rest) := by
  cases rest with
  | nil => rfl
  | cons c rest =>
      rcases h c rfl with rfl | rfl
      · rfl
      · rfl

theorem Delimited.isDigit {rest : List Char} (h : Delimited rest) :
    ∀ c ∈ rest.head?, Decimal.isDigit c = false := by
  intro c hc
  rcases h c hc with rfl | rfl
  · decide
  · decide

def minus (negative : Bool) : List Char := if negative then ['-'] else []

/-- A number is read to the end of its digits. -/
theorem literal?_digits (negative : Bool) (n : Nat) {rest : List Char} (h : Delimited rest) :
    literal? (minus negative ++ (Nat.toDigits 10 n ++ rest)) =
      some (⟨negative, Nat.toDigits 10 n, none, none⟩, rest) := by
  have hspan : Decimal.spanDigits (Nat.toDigits 10 n ++ rest) = (Nat.toDigits 10 n, rest) :=
    Decimal.spanDigits_append (fun _ hc => Decimal.isDigit_of_mem_toDigits hc) h.isDigit
  have hzero : ((Nat.toDigits 10 n).isEmpty ||
      ((Nat.toDigits 10 n).length > 1 && (Nat.toDigits 10 n).head? == some '0')) = false := by
    rcases Nat.eq_zero_or_pos n with rfl | hpos
    · decide
    · simp [Nat.toDigits_ne_nil, Decimal.head?_toDigits hpos]
  have hfirst : ∀ cs, Nat.toDigits 10 n ++ rest ≠ '-' :: cs := by
    intro cs hcs
    obtain ⟨c, ds, hds, hc⟩ := Decimal.exists_head_toDigits n
    rw [hds] at hcs
    rw [(List.cons.inj hcs).1] at hc
    exact absurd hc (by decide)
  cases negative with
  | true =>
      show literal? ('-' :: (Nat.toDigits 10 n ++ rest)) = _
      rw [literal?, hspan]
      simp only [hzero, h.fraction?, h.exponent?]
      rfl
  | false =>
      show literal? (Nat.toDigits 10 n ++ rest) = _
      rw [literal?, hspan]
      · simp only [hzero, h.fraction?, h.exponent?]
        rfl
      · exact hfirst

/-- A whole number is written with a sign and digits that the reader takes for it. -/
theorem toList_text {n : Number} (h : n.Whole) :
    ∃ negative m, n.text.toList = minus negative ++ Nat.toDigits 10 m ∧
      (⟨negative, Nat.toDigits 10 m, none, none⟩ : Literal).number? = some n := by
  cases n with
  | natural n =>
      have hn : n ≤ Word.largest 64 := h
      refine ⟨false, n, ?_, ?_⟩
      · simp [Number.text, minus]
      · simp [Literal.number?, Decimal.natOfDigits_toDigits, hn]
  | negative n =>
      obtain ⟨hone, hn⟩ : 1 ≤ n ∧ n ≤ Word.count 63 := h
      refine ⟨true, n, ?_, ?_⟩
      · simp [Number.text, minus]
      · simp [Literal.number?, Decimal.natOfDigits_toDigits, hone, hn]
  | double x => exact h.elim

theorem exists_head_text {n : Number} (h : n.Whole) :
    ∃ c cs, n.text.toList = c :: cs ∧ (c = '-' ∨ Decimal.isDigit c) := by
  obtain ⟨negative, m, htext, -⟩ := toList_text h
  cases negative with
  | true => exact ⟨'-', _, htext, Or.inl rfl⟩
  | false =>
      obtain ⟨c, cs, hcs, hc⟩ := Decimal.exists_head_toDigits m
      exact ⟨c, cs, htext.trans hcs, Or.inr hc⟩

/-! ## Values that hold no other -/

theorem scalar?_quote (s : String) (rest : List Char) :
    scalar? ((quote s).toList ++ rest) = some (.text s, rest) := by
  rw [toList_quote, List.cons_append, List.append_assoc]
  show (textBody (s.toList.flatMap escapeChar ++ '"' :: rest)).map _ = _
  rw [textBody_flatMap]
  simp

theorem scalar?_text {n : Number} (h : n.Whole) {rest : List Char} (hrest : Delimited rest) :
    scalar? (n.text.toList ++ rest) = some (.number n, rest) := by
  obtain ⟨c, cs, hcs, hc⟩ := exists_head_text h
  obtain ⟨negative, m, htext, hnumber⟩ := toList_text h
  have hliteral := literal?_digits negative m hrest
  rw [← List.append_assoc, ← htext] at hliteral
  rw [scalar?, hliteral]
  · simp [hnumber]
  -- neither a word nor a quote begins as numbers do
  all_goals
    intro cs' hcs'
    rw [hcs] at hcs'
    rw [(List.cons.inj hcs').1] at hc
    exact absurd hc (by decide)

end Json
end Dataflow
