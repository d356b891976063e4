import Dataflow.Value.Basic
import Dataflow.Proofs.Decimal.Numerals
import Dataflow.Proofs.Text.Decoding
/-!
# Casts

What comes out of a cast has the type that it was cast to.  If that is the type which the value has
already, nothing should happen to it, and nothing does, with one exception: every cast to bytes goes
through the displayed form, so bytes that encode no text are replaced by those of their displayed form.

Casts to another type and back lose nothing on truth values and whole numbers, unless they go through
doubles.  Through text every number comes back, the least ones included, since a numeral is read for
the number that it stands for.

**Proved here.**

    the type of what comes out                              (`dataType_of_cast`)
    casts to the own type, bytes left out                   (`cast_dataType`)
    casts to the own type                                   (`cast_ownType`)
    casts to another type and back                          (`cast_cast`, `cast_text`)
    which numbers are cast to 32 bits                       (`cast_int_iff`)
    all of it together                                      (`cast_sound`)
-/
namespace Dataflow.Value

theorem dataType_eq_unknown {v : Value} (h : v.dataType = .unknown) : v = .null := by
  cases v with
  | null => rfl
  | _ => cases h

/-- What is cast to a type has that type. -/
theorem dataType_of_cast {v w : Value} {target : DataType} (hv : v ≠ .null)
    (h : v.cast target = .ok w) : w.dataType = target := by
  revert h
  fun_cases Value.cast v target with
  | case1 => exact absurd rfl hv
  | _ => rintro ⟨⟩ <;> rfl

theorem cast_ne_null {v w : Value} {target : DataType} (hv : v ≠ .null)
    (h : v.cast target = .ok w) : w ≠ .null := by
  rintro rfl
  obtain rfl : target = .unknown := (dataType_of_cast hv h).symm
  cases v with
  | null => exact absurd rfl hv
  | _ => cases h

theorem narrow?_toInt64 (n : Int32) : narrow? n.toInt64 = some n := by
  have hlow : Word.leastSigned 32 ≤ n.toInt := n.le_toInt
  have hhigh : n.toInt ≤ Word.largestSigned 32 := Int.le_sub_one_of_lt n.toInt_lt
  simp [narrow?, hlow, hhigh]

theorem cast_byteArray (bytes : List UInt8) : (byteArray bytes).cast .byteArray =
    .ok (.byteArray (Text.bytesOfText (Text.textOfBytes bytes))) := rfl

theorem cast_dataType {v : Value} (hv : v ≠ .null) (hbytes : ∀ bytes, v ≠ .byteArray bytes) :
    v.cast v.dataType = .ok v := by
  cases v with
  | null => exact absurd rfl hv
  | boolean b => rfl
  | int n => simp [dataType, cast, toLong?, narrow?_toInt64]
  | long n => rfl
  | double x => rfl
  | charArray s => rfl
  | byteArray bytes => exact absurd rfl (hbytes bytes)

/-- A cast to the own type succeeds, and unless the value is of bytes that encode no text, the value is
what comes out.  Bytes become those of their displayed form, and stay so from then on. -/
theorem cast_ownType {v : Value} (hv : v ≠ .null) : ∃ w, v.cast v.dataType = .ok w ∧
    (w = v ↔ ∀ bytes, v = .byteArray bytes → bytes.toByteArray.IsValidUTF8) ∧
    (∀ bytes, v = .byteArray bytes →
      w = .byteArray (Text.bytesOfText (Text.textOfBytes bytes))) ∧
    w.cast w.dataType = .ok w := by
  by_cases hbytes : ∀ bytes, v ≠ .byteArray bytes
  · have hcast := cast_dataType hv hbytes
    refine ⟨v, hcast, iff_of_true rfl ?_, ?_, hcast⟩
    · intro bytes h
      exact absurd h (hbytes bytes)
    · intro bytes h
      exact absurd h (hbytes bytes)
  · obtain ⟨bytes, rfl⟩ : ∃ bytes, v = .byteArray bytes := by simpa using hbytes
    refine ⟨_, cast_byteArray bytes, ?_, ?_, ?_⟩
    · simp only [byteArray.injEq, Text.bytesOfText_textOfBytes_iff, forall_eq']
    · rintro _ ⟨⟩
      rfl
    · rw [dataType, cast_byteArray, Text.textOfBytes_bytesOfText]

theorem torn_cast : byteArray [0x61, 0xC3] ≠ .null ∧
    ∃ w, (byteArray [0x61, 0xC3]).cast .byteArray = .ok w ∧
      w = .byteArray [0x61, 0xEF, 0xBF, 0xBD] ∧ w.cast .byteArray = .ok w := by
  have hne : byteArray [0x61, 0xC3] ≠ .null := Value.noConfusion
  obtain ⟨w, hcast, -, hbytes, hagain⟩ := cast_ownType hne
  have hdecoded : Text.decodeLossy [0x61, 0xC3] = ['a', Text.unknown] := by
    simp [Text.decodeLossy, Text.lead?, Text.continuation]
  have hw : w = .byteArray [0x61, 0xEF, 0xBF, 0xBD] := by
    rw [hbytes _ rfl, Text.bytesOfText_eq, Text.textOfBytes, String.toList_ofList, hdecoded]
    rfl
  subst hw
  exact ⟨hne, _, hcast, rfl, hagain⟩

/-- A byte that begins no character does not stay what it is. -/
theorem brokenByte_cast : byteArray [0xFF] ≠ .null ∧
    (byteArray [0xFF]).cast (byteArray [0xFF]).dataType = .ok (.byteArray [0xEF, 0xBF, 0xBD]) ∧
    (byteArray [0xFF]).cast (byteArray [0xFF]).dataType ≠ .ok (.byteArray [0xFF]) := by
  have hdecoded : Text.decodeLossy [0xFF] = [Text.unknown] := by
    simp [Text.decodeLossy, Text.lead?]
  have hcast : (byteArray [0xFF]).cast .byteArray = .ok (.byteArray [0xEF, 0xBF, 0xBD]) := by
    rw [cast_byteArray, Text.bytesOfText_eq, Text.textOfBytes, String.toList_ofList, hdecoded]
    rfl
  refine ⟨Value.noConfusion, hcast, ?_⟩
  rw [dataType, hcast]
  simp

/-! ## There and back

A truth value or a whole number is cast to another type and back to its own.  Doubles apart, whatever
does not go through text is the same number in another width, so the way back meets the same number
again; and text is read for the number that was written. -/

/-- Truth values and whole numbers. -/
inductive IsDiscrete : Value → Prop
  | boolean (b : Bool) : IsDiscrete (.boolean b)
  | int (n : Int32) : IsDiscrete (.int n)
  | long (n : Int64) : IsDiscrete (.long n)

section Numbers
variable {n : Int64} {k : Int32} {s : String} {i : Int}

theorem narrow?_eq_some_iff : narrow? n = some k ↔ k.toInt = n.toInt := by
  have hlow : Word.leastSigned 32 ≤ k.toInt := k.le_toInt
  have hhigh : k.toInt ≤ Word.largestSigned 32 := Int.le_sub_one_of_lt k.toInt_lt
  rw [narrow?]
  constructor
  · intro h
    split at h
    next hfits =>
      cases h
      exact Int32.toInt_ofInt_of_le hfits.1 (Int.lt_of_le_sub_one hfits.2)
    · cases h
  · intro h
    rw [← h, if_pos ⟨hlow, hhigh⟩, Int32.ofInt_toInt]

theorem exists_narrow?_iff : (∃ k, narrow? n = some k) ↔
    Int32.minValue.toInt ≤ n.toInt ∧ n.toInt ≤ Int32.maxValue.toInt := by
  simp only [narrow?_eq_some_iff]
  constructor
  · rintro ⟨k, hk⟩
    exact hk ▸ ⟨k.minValue_le_toInt, k.toInt_le⟩
  · rintro ⟨hlow, hhigh⟩
    exact ⟨Int32.ofInt n.toInt, Int32.toInt_ofInt_of_le hlow (Int.lt_of_le_sub_one hhigh)⟩

theorem toLong?_of_int? (hread : Decimal.int? s = some i) (hlow : Int64.minValue.toInt ≤ i)
    (hhigh : i ≤ Int64.maxValue.toInt) : (charArray s).toLong? = some (Int64.ofInt i) := by
  have hword : Decimal.signedWord? 64 s = some i :=
    Decimal.signedWord?_eq_some_iff.mpr ⟨hread, hlow, hhigh⟩
  rw [toLong?, hword]
  rfl

theorem toLong?_intText (n : Int64) : (charArray (intText n.toInt)).toLong? = some n := by
  rw [toLong?_of_int? (Decimal.int?_intText n.toInt) n.minValue_le_toInt n.toInt_le,
    Int64.ofInt_toInt]

theorem cast_int_eq_ok {v w : Value} (hv : v ≠ .null) :
    v.cast .int = .ok w ↔ ∃ n k, v.toLong? = some n ∧ narrow? n = some k ∧ w = .int k := by
  have hcast : v.cast .int =
      (v.toLong?.bind narrow?).elim (.error (v.castRefusal .int)) fun k => .ok (.int k) := by
    cases v with
    | null => exact absurd rfl hv
    | _ =>
        simp only [Value.cast]
        cases Option.bind _ narrow?
        all_goals rfl
  rw [hcast]
  cases hn : v.toLong? with
  | none => simp
  | some n =>
      cases hk : narrow? n with
      | none => simp [hk]
      | some k => simp [hk, eq_comm]

theorem cast_long_eq_ok {v w : Value} (hv : v ≠ .null) :
    v.cast .long = .ok w ↔ ∃ n, v.toLong? = some n ∧ w = .long n := by
  have hcast : v.cast .long =
      v.toLong?.elim (.error (v.castRefusal .long)) fun n => .ok (.long n) := by
    cases v with
    | null => exact absurd rfl hv
    | _ =>
        simp only [Value.cast]
        cases toLong? _
        all_goals rfl
  rw [hcast]
  cases v.toLong? with
  | none => simp
  | some n => simp [eq_comm]

end Numbers

theorem IsDiscrete.ne_null {v : Value} (hv : v.IsDiscrete) : v ≠ .null := by
  rintro rfl
  cases hv

/-- A displayed truth value or whole number is read back. -/
theorem cast_text {v : Value} (hv : v.IsDiscrete) : (charArray v.text).cast v.dataType = .ok v := by
  cases hv with
  | boolean b => cases b <;> rfl
  | int n =>
      refine (cast_int_eq_ok Value.noConfusion).mpr ⟨n.toInt64, n, ?_, narrow?_toInt64 n, rfl⟩
      rw [text, ← n.toInt_toInt64]
      exact toLong?_intText n.toInt64
  | long n => exact (cast_long_eq_ok Value.noConfusion).mpr ⟨n, toLong?_intText n, rfl⟩

/-- A whole number that was cast to whole numbers of either width is the same number there. -/
theorem toLong?_of_cast {v w : Value} {target : DataType} (hv : v ≠ .null)
    (htarget : target = .int ∨ target = .long) (h : v.cast target = .ok w) :
    w.toLong? = v.toLong? := by
  rcases htarget with rfl | rfl
  · obtain ⟨n, k, hn, hk, rfl⟩ := (cast_int_eq_ok hv).mp h
    rw [hn, toLong?, ← Int64.ofInt_toInt n, ← narrow?_eq_some_iff.mp hk, Int64.ofInt_int32ToInt]
  · obtain ⟨n, hn, rfl⟩ := (cast_long_eq_ok hv).mp h
    rw [hn, toLong?]

theorem cast_boolean_ne_ok {v w : Value} (hv : v.dataType = .int ∨ v.dataType = .long) :
    v.cast .boolean ≠ .ok w := by
  intro h
  cases v with
  | int n => cases h
  | long n => cases h
  | null => simp [dataType] at hv
  | boolean b => simp [dataType] at hv
  | double x => simp [dataType] at hv
  | charArray s => simp [dataType] at hv
  | byteArray bytes => simp [dataType] at hv

theorem cast_cast_number {v w u : Value} {target : DataType} (hv : v.IsDiscrete)
    (htarget : target = .int ∨ target = .long) (h : v.cast target = .ok w)
    (hback : w.cast v.dataType = .ok u) : u = v := by
  have hw := cast_ne_null hv.ne_null h
  have hsame := toLong?_of_cast hv.ne_null htarget h
  cases hv with
  | boolean b =>
      rw [← dataType_of_cast Value.noConfusion h] at htarget
      exact absurd hback (cast_boolean_ne_ok htarget)
  | int n =>
      obtain ⟨i, k, hi, hk, rfl⟩ := (cast_int_eq_ok hw).mp hback
      obtain rfl : n.toInt64 = i := Option.some.inj (hsame.symm.trans hi)
      rw [Option.some.inj ((narrow?_toInt64 n).symm.trans hk)]
  | long n =>
      obtain ⟨i, hi, rfl⟩ := (cast_long_eq_ok hw).mp hback
      obtain rfl : n = i := Option.some.inj (hsame.symm.trans hi)
      rfl

/-- A truth value or a whole number that comes back from another type than doubles is as it was. -/
theorem cast_cast {v w u : Value} {target : DataType} (hv : v.IsDiscrete) (htarget : target ≠ .double)
    (h : v.cast target = .ok w) (hback : w.cast v.dataType = .ok u) : u = v := by
  cases target with
  | int => exact cast_cast_number hv (Or.inl rfl) h hback
  | long => exact cast_cast_number hv (Or.inr rfl) h hback
  | double => exact absurd rfl htarget
  | boolean =>
      cases hv with
      | boolean b =>
          cases h
          cases hback
          rfl
      | int n => cases h
      | long n => cases h
  | charArray =>
      obtain rfl : w = .charArray v.text := by cases hv <;> exact (Except.ok.inj h).symm
      rw [cast_text hv] at hback
      exact (Except.ok.inj hback).symm
  | byteArray =>
      -- bytes are cast to none of the three types
      cases hv <;> cases h <;> cases hback
  | unknown => cases hv <;> cases h
  | tuple => cases hv <;> cases h
  | bag => cases hv <;> cases h

/-- What stands for a whole number of 64 bits is cast to 32 bits just when the number has a place
there, and stays the same number. -/
theorem cast_int_iff {v : Value} {n : Int64} (hv : v ≠ .null) (hn : v.toLong? = some n) :
    ((∃ w, v.cast .int = .ok w) ↔
      Int32.minValue.toInt ≤ n.toInt ∧ n.toInt ≤ Int32.maxValue.toInt) ∧
      ∀ w, v.cast .int = .ok w → ∃ k : Int32, w = .int k ∧ k.toInt = n.toInt := by
  simp only [cast_int_eq_ok hv, hn, Option.some.injEq, ← exists_narrow?_iff]
  refine ⟨⟨?_, ?_⟩, ?_⟩
  · rintro ⟨_, i, k, rfl, hk, -⟩
    exact ⟨k, hk⟩
  · rintro ⟨k, hk⟩
    exact ⟨_, n, k, rfl, hk, rfl⟩
  · rintro _ ⟨i, k, rfl, hk, rfl⟩
    exact ⟨k, rfl, narrow?_eq_some_iff.mp hk⟩

/-- A cast yields the type that was asked for, and a null just for a null.  Truth values and whole
numbers that come back from another type than doubles are what they were, and they come back from
every text.  A number of 64 bits, or a numeral of one, is cast to 32 bits just when it fits. -/
theorem cast_sound :
    (∀ (v w : Value) (target : DataType), v.cast target = .ok w →
      (w = .null ↔ v = .null) ∧ (v ≠ .null → w.dataType = target)) ∧
    (∀ (v w u : Value) (target : DataType), v.IsDiscrete → target ≠ .double →
      v.cast target = .ok w → w.cast v.dataType = .ok u → u = v) ∧
    (∀ v : Value, v.IsDiscrete →
      ∃ w, v.cast .charArray = .ok w ∧ w.cast v.dataType = .ok v) ∧
    (∀ n : Int64, ((∃ w, (long n).cast .int = .ok w) ↔
        Int32.minValue.toInt ≤ n.toInt ∧ n.toInt ≤ Int32.maxValue.toInt) ∧
      ∀ w, (long n).cast .int = .ok w → ∃ k : Int32, w = .int k ∧ k.toInt = n.toInt) ∧
    ∀ m : Decimal.Numeral, Int64.minValue.toInt ≤ m.value → m.value ≤ Int64.maxValue.toInt →
      ((∃ w, (charArray m.text).cast .int = .ok w) ↔
        Int32.minValue.toInt ≤ m.value ∧ m.value ≤ Int32.maxValue.toInt) ∧
      ∀ w, (charArray m.text).cast .int = .ok w →
        ∃ k : Int32, w = .int k ∧ k.toInt = m.value := by
  refine ⟨?_, fun _ _ _ _ hv htarget h hback => cast_cast hv htarget h hback, ?_, ?_, ?_⟩
  · intro v w target h
    refine ⟨⟨?_, ?_⟩, fun hv => dataType_of_cast hv h⟩
    · intro hw
      exact Classical.byContradiction fun hv => cast_ne_null hv h hw
    · rintro rfl
      exact (Except.ok.inj h).symm
  · intro v hv
    exact ⟨.charArray v.text, by cases hv <;> rfl, cast_text hv⟩
  · intro n
    exact cast_int_iff Value.noConfusion rfl
  · intro m hlow hhigh
    have h := cast_int_iff Value.noConfusion (toLong?_of_int? (Decimal.int?_text m) hlow hhigh)
    rwa [Int64.toInt_ofInt_of_le hlow (Int.lt_of_le_sub_one hhigh)] at h

/-- The least number of 32 bits, with a zero too many. -/
def leastNumeral : Decimal.Numeral where
  sign := .minus
  digits := ['0', '2', '1', '4', '7', '4', '8', '3', '6', '4', '8']
  digits_ne_nil := List.cons_ne_nil _ _
  isDigit := by simp

theorem leastNumeral_cast :
    (∃ w u, (int Int32.minValue).cast .long = .ok w ∧ w.dataType = .long ∧
      w.cast .int = .ok u ∧ u = .int Int32.minValue) ∧
    ((long Int64.minValue).cast .charArray = .ok (.charArray "-9223372036854775808") ∧
      (charArray "-9223372036854775808").cast .long = .ok (.long Int64.minValue)) ∧
    leastNumeral.value = Int32.minValue.toInt ∧
    ∃ k : Int32, (charArray "-02147483648").cast .int = .ok (.int k) ∧
      k.toInt = Int32.minValue.toInt := by
  obtain ⟨htyped, hback, htext, -, hnumeral⟩ := cast_sound
  refine ⟨?_, ?_, by decide, ?_⟩
  · have hlong : (int Int32.minValue).cast .long = .ok (.long (-2147483648)) := rfl
    have hint : (long (-2147483648)).cast .int = .ok (.int Int32.minValue) := rfl
    exact ⟨_, _, hlong, (htyped _ _ _ hlong).2 Value.noConfusion, hint,
      hback _ _ _ _ (.int _) (by decide) hlong hint⟩
  · obtain ⟨w, hw, hlong⟩ := htext (long Int64.minValue) (.long _)
    obtain rfl : .charArray "-9223372036854775808" = w := Except.ok.inj hw
    exact ⟨hw, hlong⟩
  · have hvalue : leastNumeral.value = Int32.minValue.toInt := by decide
    obtain ⟨hfits, hsame⟩ := hnumeral leastNumeral (by decide) (by decide)
    obtain ⟨u, hu⟩ := hfits.mpr (by decide)
    obtain ⟨k, rfl, hk⟩ := hsame u hu
    exact ⟨k, hu, hvalue ▸ hk⟩

end Dataflow.Value
