import Dataflow.Text.Utf8
/-!
# Bytes that encode a text

Bytes that encode a text are read as this text, whatever comes behind them, so only bytes that encode
no text are changed when they are read and written again.  The argument goes by single characters: the
lead byte of a character promises just the bytes that follow it, and each of them hands on six bits of
the code point.

**Proved here.**

    what a lead byte promises                                 (`lead?_two`, `lead?_three`, `lead?_four`)
    one character, and what comes behind it                   (`decodeLossy_utf8EncodeChar`)
    a text is read back                                       (`textOfBytes_bytesOfText`)
    which bytes stay as they are                              (`bytesOfText_textOfBytes_iff`)
-/
namespace Dataflow.Text

/-! ## Bytes as lists -/

theorem toList_loop_byteArray (b : ByteArray) (i : Nat) (r : List UInt8) :
    ByteArray.toList.loop b i r = r.reverse ++ b.data.toList.drop i := by
  fun_induction ByteArray.toList.loop b i r with
  | case1 i r hlt ih =>
      have hi : i < b.data.toList.length := by simpa using hlt
      have hget : b.get! i = b.data.toList[i] := getElem!_pos b.data i (by simpa using hlt)
      rw [ih, List.drop_eq_getElem_cons hi, hget]
      simp
  | case2 i r hge =>
      have hle : b.data.toList.length ≤ i := by simpa using hge
      rw [List.drop_eq_nil_of_le hle, List.append_nil]

theorem toList_byteArray (b : ByteArray) : b.toList = b.data.toList := by
  rw [ByteArray.toList, toList_loop_byteArray]
  rfl

theorem bytesOfText_eq (s : String) : bytesOfText s = s.toList.flatMap String.utf8EncodeChar := by
  rw [bytesOfText, String.toUTF8_eq_toByteArray, ← String.utf8Encode_toList, toList_byteArray,
    List.utf8Encode, List.toList_data_toByteArray]

/-! ## One character -/

section Characters
variable {a b : UInt8} {low high : UInt8} {bits n : Nat} {s : List UInt8}

theorem lead?_two (h : 0xC2 ≤ a.toNat) (h' : a.toNat ≤ 0xDF) :
    lead? a = some ⟨1, 0x80, 0xBF, a.toNat - 0xC0⟩ := by
  have hrange : 0xC2 ≤ a ∧ a ≤ 0xDF := ⟨h, h'⟩
  simp [lead?, hrange]

/-- The range of the second byte of three is cut where there is a shorter form, and where there are no
characters. -/
theorem lead?_three (h : 0xE0 ≤ a.toNat) (h' : a.toNat ≤ 0xEF) :
    lead? a = some ⟨2, if a.toNat = 0xE0 then 0xA0 else 0x80,
      if a.toNat = 0xED then 0x9F else 0xBF, a.toNat - 0xE0⟩ := by
  simp only [lead?, Bool.and_eq_true, decide_eq_true_eq, UInt8.le_iff_toNat_le, beq_iff_eq,
    ← UInt8.toNat_inj, UInt8.reduceToNat]
  grind

/-- The range of the second byte of four is cut where there is a shorter form, and where the code points
end. -/
theorem lead?_four (h : 0xF0 ≤ a.toNat) (h' : a.toNat ≤ 0xF4) :
    lead? a = some ⟨3, if a.toNat = 0xF0 then 0x90 else 0x80,
      if a.toNat = 0xF4 then 0x8F else 0xBF, a.toNat - 0xF0⟩ := by
  simp only [lead?, Bool.and_eq_true, decide_eq_true_eq, UInt8.le_iff_toNat_le, beq_iff_eq,
    ← UInt8.toNat_inj, UInt8.reduceToNat]
  grind

/-- All bytes that were promised are there; they complete the code point, and `rest` comes behind
them. -/
def Completes (more : Nat) (low high : UInt8) (bits : Nat) (s : List UInt8) (code : Nat)
    (rest : List UInt8) : Prop :=
  (continuation more low high bits s).1 = some code ∧
    (continuation more low high bits s).2.val = rest

theorem Completes.none : Completes 0 low high bits s bits s := ⟨rfl, rfl⟩

theorem Completes.more {code : Nat} {rest : List UInt8} (hlow : low.toNat ≤ b.toNat)
    (hhigh : b.toNat ≤ high.toNat)
    (h : Completes n 0x80 0xBF (bits * 0x40 + (b.toNat - 0x80)) s code rest) :
    Completes (n + 1) low high bits (b :: s) code rest := by
  have hrange : low ≤ b ∧ b ≤ high := ⟨hlow, hhigh⟩
  simp only [Completes, continuation, hrange, decide_true, Bool.and_true, if_true]
  exact h

theorem decodeLossy_lead {l : Lead} {code : Nat} {rest : List UInt8} (ha : 0x80 ≤ a.toNat)
    (hl : lead? a = some l) (h : Completes l.more l.low l.high l.bits s code rest) :
    decodeLossy (a :: s) = Char.ofNat code :: decodeLossy rest := by
  have hlead : ¬ a < 0x80 := Nat.not_lt.mpr ha
  obtain ⟨hcode, hrest⟩ := h
  rw [decodeLossy, if_neg hlead, hl]
  simp only [hcode, hrest]
  rfl

/-- A character is read back, whatever comes behind it. -/
theorem decodeLossy_utf8EncodeChar (c : Char) (rest : List UInt8) :
    decodeLossy (String.utf8EncodeChar c ++ rest) = c :: decodeLossy rest := by
  have hbyte : ∀ k < 256, (UInt8.ofNat k).toNat = k := fun k hk => UInt8.toNat_ofNat_of_lt' hk
  have hvalid : c.val.toNat < 0xD800 ∨ 0xDFFF < c.val.toNat ∧ c.val.toNat < 0x110000 := c.valid
  have hcode : ∀ k, k = c.val.toNat → Char.ofNat k = c := by
    rintro _ rfl
    exact Char.ofNat_toNat c
  fun_cases String.utf8EncodeChar c with
  | case1 v h =>
      have ha := hbyte v (by omega)
      have hsmall : UInt8.ofNat v < 0x80 := by
        rw [UInt8.lt_iff_toNat_lt, ha]
        exact Nat.lt_succ_of_le h
      rw [List.singleton_append, decodeLossy, if_pos hsmall, ha, hcode v rfl]
  | case2 v h h' =>
      have ha := hbyte (v / 64 % 0x20 + 0xC0) (by omega)
      have hb := hbyte (v % 0x40 + 0x80) (by omega)
      refine (decodeLossy_lead (by omega) (lead?_two (by omega) (by omega))
        (.more ?_ ?_ .none)).trans (congrArg (· :: decodeLossy rest) (hcode _ ?_))
      all_goals simp only [ha, hb, UInt8.reduceToNat]; omega
  | case3 v h h' h'' =>
      have ha := hbyte (v / 4096 % 0x10 + 0xE0) (by omega)
      have hb := hbyte (v / 64 % 0x40 + 0x80) (by omega)
      have hd := hbyte (v % 0x40 + 0x80) (by omega)
      refine (decodeLossy_lead (by omega) (lead?_three (by omega) (by omega))
        (.more ?_ ?_ (.more ?_ ?_ .none))).trans (congrArg (· :: decodeLossy rest) (hcode _ ?_)) <;>
        simp only [ha, hb, hd, apply_ite UInt8.toNat, UInt8.reduceToNat]
      · -- a shorter form is left out
        split <;> omega
      · -- no character has these numbers
        split <;> omega
      all_goals omega
  | case4 v h h' h'' =>
      have ha := hbyte (v / 262144 % 0x08 + 0xF0) (by omega)
      have hb := hbyte (v / 4096 % 0x40 + 0x80) (by omega)
      have hd := hbyte (v / 64 % 0x40 + 0x80) (by omega)
      have he := hbyte (v % 0x40 + 0x80) (by omega)
      refine (decodeLossy_lead (by omega) (lead?_four (by omega) (by omega))
        (.more ?_ ?_ (.more ?_ ?_ (.more ?_ ?_ .none)))).trans
        (congrArg (· :: decodeLossy rest) (hcode _ ?_)) <;>
        simp only [ha, hb, hd, he, apply_ite UInt8.toNat, UInt8.reduceToNat]
      · split <;> omega
      · split <;> omega
      all_goals omega

end Characters

/-! ## Texts -/

theorem decodeLossy_flatMap (l : List Char) :
    decodeLossy (l.flatMap String.utf8EncodeChar) = l := by
  induction l with
  | nil => rw [List.flatMap_nil, decodeLossy]
  | cons c l ih => rw [List.flatMap_cons, decodeLossy_utf8EncodeChar, ih]

theorem textOfBytes_bytesOfText (s : String) : textOfBytes (bytesOfText s) = s := by
  rw [textOfBytes, bytesOfText_eq, decodeLossy_flatMap, String.ofList_toList]

/-- Reading bytes as a text loses nothing just when they encode one. -/
theorem bytesOfText_textOfBytes_iff {bytes : List UInt8} :
    bytesOfText (textOfBytes bytes) = bytes ↔ bytes.toByteArray.IsValidUTF8 := by
  constructor
  · intro h
    rw [bytesOfText_eq] at h
    exact .intro _ (congrArg List.toByteArray h.symm)
  · rintro ⟨chars, hchars⟩
    have hbytes : bytes = chars.flatMap String.utf8EncodeChar := by
      rw [← List.toList_data_toByteArray (l := bytes), hchars, List.utf8Encode,
        List.toList_data_toByteArray]
    have htext : bytes = bytesOfText (String.ofList chars) := by
      rw [bytesOfText_eq, String.toList_ofList, hbytes]
    rw [htext, textOfBytes_bytesOfText]

end Dataflow.Text
