import Mathlib
/-!
# Whole numbers as doubles

A double has 53 bits for its mantissa.  A whole number below `2 ^ 53` fills them up with zeros, so the
mantissa and the exponent tell which number it was.  A larger one loses bits, and others are rounded to
the same double; but its exponent says that it was large.  So a whole number below `2 ^ 53` shares its
double with no other whole number, and that is all that is needed to compare numbers across types.

Everything is said of doubles taken apart (`UnpackedFloat`).  On the way into a double a number is
rounded, by shifting its mantissa until 53 bits are left, and packed; a mantissa of just 53 bits gets
through both.

**Proved here.**

    what a mantissa of 53 bits or more is rounded to             (`roundWithAccuracy_eq`)
    what a whole number of 64 bits becomes                       (`exists_rounded_ofInt`)
    whole numbers below `2 ^ 53` share their doubles with none   (`eq_of_ofInt_beq`)
-/
namespace Dataflow.Decimal

open Float.Model Float.Model.UnpackedFloat

/-! ## Rounding -/

theorem shiftRight_exact (m k : Nat) :
    (⟨m * 2 ^ k, false, false⟩ : ExtendedMantissa) >>> k = ⟨m, false, false⟩ := by
  show k.repeat ExtendedMantissa.shiftRightOne _ = _
  induction k generalizing m with
  | zero => simp [Nat.repeat]
  | succ k ih =>
      have hpow : m * 2 ^ (k + 1) = m * 2 * 2 ^ k := by rw [Nat.pow_succ', Nat.mul_assoc]
      rw [Nat.repeat, hpow, ih]
      simp [ExtendedMantissa.shiftRightOne]

theorem mantissa_shiftRight (em : ExtendedMantissa) (k : Nat) :
    (em >>> k).mantissa = em.mantissa / 2 ^ k := by
  show (k.repeat ExtendedMantissa.shiftRightOne em).mantissa = _
  induction k with
  | zero => simp [Nat.repeat]
  | succ k ih =>
      rw [Nat.repeat]
      show (k.repeat ExtendedMantissa.shiftRightOne em).mantissa / 2 = _
      rw [ih, Nat.div_div_eq_div_mul, Nat.pow_succ]

theorem roundedMantissa_bounds (em : ExtendedMantissa) :
    em.mantissa ≤ em.roundedMantissa ∧ em.roundedMantissa ≤ em.mantissa + 1 := by
  obtain ⟨m, round, sticky⟩ := em
  have hmod : m % 2 ≤ 1 := Nat.le_of_lt_succ (Nat.mod_lt m Nat.two_pos)
  cases round <;> cases sticky <;>
    simp [ExtendedMantissa.roundedMantissa, ExtendedMantissa.accuracy,
      Accuracy.roundToNearestEven, hmod]

section Rounding
variable {s : Sign} {m k : Nat} {e t : Int}

theorem shiftToTargetExponent_eq (hk : m.log2 = 52 + k) (he : -1074 ≤ e + k) :
    shiftToTargetExponent .binary64 m e .exact =
      ((⟨m, false, false⟩ : ExtendedMantissa) >>> k, e + k) := by
  have htarget : Format.binary64.targetExponent (totalExponent m e) = e + k := by
    show max (((m.log2 : Int) + 1 + e) - 53) (-1074) = e + k
    omega
  have hshift : (e + k - e).toNat = k := by omega
  simp only [shiftToTargetExponent, htarget, shiftToExponent, hshift]
  rfl

/-- A mantissa is shifted, rounded, and shifted once more. -/
theorem roundWithAccuracy_of_shifts {E : Int} {em em' : ExtendedMantissa}
    (hfirst : shiftToTargetExponent .binary64 m e .exact = (em, t))
    (hsecond : shiftToTargetExponent .binary64 em.roundedMantissa t .exact = (em', E))
    (hpos : 0 < em'.mantissa) :
    roundWithAccuracy .binary64 s m e .exact = .finite s em'.mantissa E hpos := by
  rw [roundWithAccuracy, hfirst]
  simp only [hsecond]
  exact dif_neg hpos.ne'

/-- What a mantissa of 53 bits or more is rounded to.  Nothing is lost if all further bits are
zeros. -/
theorem roundWithAccuracy_eq (hk : m.log2 = 52 + k) (he : -1074 ≤ e + k) :
    ∃ M E hM, roundWithAccuracy .binary64 s m e .exact = .finite s M E hM ∧ M.log2 = 52 ∧
      e + k ≤ E ∧ E ≤ e + k + 1 ∧ ∀ n, m = n * 2 ^ k → M = n ∧ E = e + k := by
  have hm : m ≠ 0 := by
    rintro rfl
    rw [Nat.log2_zero] at hk
    omega
  obtain ⟨hlow, hhigh⟩ := (Nat.log2_eq_iff hm).mp hk
  let em : ExtendedMantissa := (⟨m, false, false⟩ : ExtendedMantissa) >>> k
  have hbits : 2 ^ 52 ≤ em.mantissa ∧ em.mantissa < 2 ^ 53 := by
    rw [mantissa_shiftRight]
    rw [Nat.pow_add] at hlow
    rw [show 52 + k + 1 = 53 + k by omega, Nat.pow_add] at hhigh
    exact ⟨(Nat.le_div_iff_mul_le (Nat.two_pow_pos k)).mpr hlow,
      (Nat.div_lt_iff_lt_mul (Nat.two_pow_pos k)).mpr hhigh⟩
  obtain ⟨hup, hdown⟩ := roundedMantissa_bounds em
  have hexact : ∀ n, m = n * 2 ^ k → em.mantissa = n ∧ em.roundedMantissa = n := by
    rintro n rfl
    have hem : em = ⟨n, false, false⟩ := shiftRight_exact n k
    rw [hem]
    exact ⟨rfl, rfl⟩
  have hfirst : shiftToTargetExponent .binary64 m e .exact = (em, e + k) :=
    shiftToTargetExponent_eq hk he
  by_cases hcarry : em.roundedMantissa = 2 ^ 53
  · -- rounding up has made one bit too many
    have hlog : em.roundedMantissa.log2 = 52 + 1 := by rw [hcarry, Nat.log2_two_pow]
    have hsecond : shiftToTargetExponent .binary64 em.roundedMantissa (e + k) .exact =
        (⟨2 ^ 52, false, false⟩, e + k + 1) := by
      rw [shiftToTargetExponent_eq hlog (by omega), hcarry, show 2 ^ 53 = 2 ^ 52 * 2 ^ 1 by rfl,
        shiftRight_exact]
      rfl
    refine ⟨_, _, _, roundWithAccuracy_of_shifts hfirst hsecond (Nat.two_pow_pos 52),
      Nat.log2_two_pow, by omega, by omega, ?_⟩
    intro n hn
    obtain ⟨hfloor, hround⟩ := hexact n hn
    omega
  · have hlog : em.roundedMantissa.log2 = 52 + 0 :=
      (Nat.log2_eq_iff (by omega)).mpr ⟨by omega, by omega⟩
    have hsecond := shiftToTargetExponent_eq (e := e + k) hlog (by omega)
    have hpos : 0 < em.roundedMantissa := by omega
    refine ⟨_, _, _, roundWithAccuracy_of_shifts hfirst hsecond hpos, hlog, by omega, by omega, ?_⟩
    intro n hn
    exact ⟨(hexact n hn).2, by omega⟩

end Rounding

/-! ## Packing -/

theorem unpack_pack {s : Sign} {m : Nat} {e : Int} {hm : 0 < m} (hlog : m.log2 = 52)
    (hlow : -1074 ≤ e) (hhigh : e ≤ 971) :
    (Float.Model.pack (.finite s m e hm)).unpack = .finite s m e hm := by
  obtain ⟨hm52, hm53⟩ := (Nat.log2_eq_iff hm.ne').mp hlog
  let b : Nat := (e + 1023 + 52).toNat
  have hb : (b : Int) = e + 1075 := by omega
  have hexponent : (BitVec.ofNat 11 b).toNat = b := by
    rw [BitVec.toNat_ofNat, Nat.mod_eq_of_lt (by omega)]
  -- neither of the two exponents that are set apart
  have hspecial : ∀ w : BitVec 11, w.toNat = 0 ∨ w.toNat = 2047 → BitVec.ofNat 11 b ≠ w := by
    rintro w hw rfl
    omega
  have hmantissa : (1#1 ++ BitVec.ofNat 52 m).toNat = m := by
    rw [BitVec.toNat_append, ← Nat.shiftLeft_add_eq_or_of_lt (BitVec.isLt _), BitVec.toNat_ofNat,
      Nat.shiftLeft_eq]
    simp only [BitVec.toNat_ofNat]
    omega
  have hpack : UnpackedFloat.pack .binary64 (.finite s m e hm) =
      packComponents .binary64 s (BitVec.ofNat 11 b) (BitVec.ofNat 52 m) := by
    show (if 2 ^ 11 ≤ b + 1 then _ else if m.log2 + 1 = 53 then _ else _) = _
    rw [if_neg (by omega), if_pos (by omega)]
    rfl
  show UnpackedFloat.unpack .binary64 (UnpackedFloat.pack .binary64 (.finite s m e hm)) = _
  rw [hpack, UnpackedFloat.unpack]
  simp only [unpackMantissa_packComponents, unpackExponent_packComponents,
    unpackSign_packComponents, Sign.ofBitVec_toBitVec]
  rw [if_neg (hspecial _ (Or.inr rfl)), if_neg (hspecial _ (Or.inl rfl))]
  congr 1
  rw [hexponent, hb]
  show e + 1075 - (1023 + 52) = e
  omega

/-! ## Whole numbers -/

/-- The mantissa and the exponent of a positive whole number of 64 bits. -/
structure Rounded (n M : Nat) (E : Int) : Prop where
  log2_eq : M.log2 = 52
  low : -52 ≤ E
  high : E ≤ 12
  exact : n < 2 ^ 53 → M = n * 2 ^ (52 - n.log2) ∧ E = n.log2 - 52
  large : 2 ^ 53 ≤ n → 1 ≤ E

theorem Rounded.eq_of_lt {m n M : Nat} {E : Int} (hm : Rounded m M E) (hn : Rounded n M E)
    (hlt : m < 2 ^ 53) : m = n := by
  obtain ⟨hM, hE⟩ := hm.exact hlt
  by_cases hlarge : 2 ^ 53 ≤ n
  · have hpos := hn.large hlarge
    have hlog : m.log2 ≤ 52 := by
      by_cases hzero : m = 0
      · simp [hzero]
      · exact Nat.le_of_lt_succ ((Nat.log2_lt hzero).mpr hlt)
    omega
  · obtain ⟨hM', hE'⟩ := hn.exact (Nat.lt_of_not_le hlarge)
    have hlog : m.log2 = n.log2 := by omega
    rw [hM, hlog] at hM'
    exact Nat.eq_of_mul_eq_mul_right (Nat.two_pow_pos _) hM'

theorem log2_mul_two_pow {n : Nat} (hn : n ≠ 0) (k : Nat) : (n * 2 ^ k).log2 = n.log2 + k := by
  have hpos : n * 2 ^ k ≠ 0 := Nat.mul_ne_zero hn (Nat.two_pow_pos k).ne'
  refine (Nat.log2_eq_iff hpos).mpr ⟨?_, ?_⟩
  · rw [Nat.pow_add]
    exact Nat.mul_le_mul_right _ (Nat.log2_self_le hn)
  · rw [Nat.add_right_comm, Nat.pow_add]
    exact (Nat.mul_lt_mul_right (Nat.two_pow_pos k)).mpr Nat.lt_log2_self

section Whole
variable {n : Nat}

theorem normalize_ofNat (hpos : 0 < n) (hlog : n.log2 ≤ 52) :
    ∃ hM, UnpackedFloat.normalize .binary64 n 0 .positive =
      .finite .positive (n * 2 ^ (52 - n.log2)) (n.log2 - 52) hM := by
  have hbits : (n * 2 ^ (52 - n.log2)).log2 = 52 + 0 := by
    rw [log2_mul_two_pow hpos.ne']
    omega
  obtain ⟨M, E, hM, hround, -, -, -, hexact⟩ :=
    roundWithAccuracy_eq (s := .positive) (e := n.log2 - 52) hbits (by omega)
  obtain ⟨rfl, hE⟩ := hexact _ (Nat.mul_one _).symm
  obtain rfl : E = n.log2 - 52 := by omega
  have htarget : Format.binary64.targetExponent (totalExponent n 0) = n.log2 - 52 := by
    show max (((n.log2 : Int) + 1 + 0) - 53) (-1074) = n.log2 - 52
    omega
  have hshift : (0 - ((n.log2 : Int) - 52)).toNat = 52 - n.log2 := by omega
  have hexponent : (0 : Int) - ((52 - n.log2 : Nat) : Int) = n.log2 - 52 := by omega
  have hgt : compare (n : Int) 0 = .gt := Int.compare_eq_gt.mpr (by omega)
  refine ⟨hM, ?_⟩
  rw [UnpackedFloat.normalize, hgt]
  simp only [Int.toNat_natCast, UnpackedFloat.round, htarget, decreaseExponent, hshift, hexponent,
    Nat.shiftLeft_eq]
  exact hround

/-- Below `2 ^ 53` a number is taken over as a word and multiplied by one. -/
theorem unpack_ofNat_of_lt (hpos : 0 < n) (hn : n < 2 ^ 53) :
    ∃ hM, (Float.ofNat n).toModel.unpack =
      .finite .positive (n * 2 ^ (52 - n.log2)) (n.log2 - 52) hM := by
  have hlog : n.log2 ≤ 52 := Nat.le_of_lt_succ ((Nat.log2_lt hpos.ne').mpr hn)
  have hbits : (n * 2 ^ (52 - n.log2)).log2 = 52 := by
    rw [log2_mul_two_pow hpos.ne']
    omega
  obtain ⟨hM, hnormal⟩ := normalize_ofNat hpos hlog
  have hword : n.toUInt64.toFloat.toModel.unpack =
      .finite .positive (n * 2 ^ (52 - n.log2)) (n.log2 - 52) hM := by
    have hval : n.toUInt64.toNat = n := Nat.mod_eq_of_lt (by omega)
    show (Float.Model.pack
      (UnpackedFloat.normalize .binary64 (n.toUInt64.toNat : Int) 0 .positive)).unpack = _
    rw [hval, hnormal]
    exact unpack_pack hbits (by omega) (by omega)
  have hone : (Float.ofBits 0x3FF0000000000000).toModel.unpack =
      .finite .positive (2 ^ 52) (-52) (Nat.two_pow_pos 52) := rfl
  have hproduct : (n * 2 ^ (52 - n.log2) * 2 ^ 52).log2 = 52 + 52 := by
    rw [log2_mul_two_pow (by omega), hbits]
  obtain ⟨M, E, hM', hround, -, -, -, hexact⟩ :=
    roundWithAccuracy_eq (s := .positive) (e := n.log2 - 52 + -52) hproduct (by omega)
  obtain ⟨rfl, hE⟩ := hexact _ rfl
  obtain rfl : E = n.log2 - 52 := by omega
  have hfast : Float.ofNat n = n.toUInt64.toFloat * Float.ofBits 0x3FF0000000000000 := by
    show Float.ofScientific n false 0 = _
    rw [Float.ofScientific, dif_pos ⟨hn, Nat.zero_le 22⟩]
    rfl
  refine ⟨hM, ?_⟩
  rw [hfast]
  show (Float.Model.pack (UnpackedFloat.mul .binary64 n.toUInt64.toFloat.toModel.unpack
    (Float.ofBits 0x3FF0000000000000).toModel.unpack)).unpack = _
  rw [hword, hone]
  show (Float.Model.pack (roundWithAccuracy .binary64 .positive _ _ .exact)).unpack = _
  rw [hround]
  exact unpack_pack hbits (by omega) (by omega)

theorem unpack_ofNat_of_le (hlow : 2 ^ 53 ≤ n) (hhigh : n < 2 ^ 64) :
    ∃ M E hM, (Float.ofNat n).toModel.unpack = .finite .positive M E hM ∧ M.log2 = 52 ∧
      1 ≤ E ∧ E ≤ 12 := by
  have hpos : n ≠ 0 := by omega
  have hlog : 53 ≤ n.log2 := (Nat.le_log2 hpos).mpr hlow
  have hlog' : n.log2 < 64 := (Nat.log2_lt hpos).mpr hhigh
  have hbits : ((n <<< 53) * 10 ^ 0).log2 = 52 + (n.log2 + 1) := by
    rw [Nat.shiftLeft_eq, Nat.pow_zero, Nat.mul_one, log2_mul_two_pow hpos]
    omega
  obtain ⟨M, E, hM, hround, hM52, hE, hE', -⟩ :=
    roundWithAccuracy_eq (s := .positive) (e := -53 + 0) hbits (by omega)
  have hslow : Float.ofNat n = .ofModel (.pack (UnpackedFloat.ofScientific .binary64 n 0)) := by
    show Float.ofScientific n false 0 = _
    rw [Float.ofScientific, dif_neg (by omega)]
    rfl
  have hexponent : ¬ (0 : Int) < -(2 ^ 11 + n.log2) := by omega
  have hscientific : UnpackedFloat.ofScientific .binary64 n 0 =
      roundWithAccuracy .binary64 .positive ((n <<< 53) * 10 ^ 0) (-53 + 0) .exact := by
    rw [UnpackedFloat.ofScientific, dif_neg hpos, if_neg (by decide), if_neg hexponent,
      if_pos (Int.le_refl 0)]
    rfl
  refine ⟨M, E, hM, ?_, hM52, by omega, by omega⟩
  rw [hslow, hscientific, hround]
  exact unpack_pack hM52 (by omega) (by omega)

theorem exists_rounded_ofNat (hpos : 0 < n) (hn : n < 2 ^ 64) :
    ∃ M E hM, (Float.ofNat n).toModel.unpack = .finite .positive M E hM ∧ Rounded n M E := by
  by_cases hlt : n < 2 ^ 53
  · obtain ⟨hM, heq⟩ := unpack_ofNat_of_lt hpos hlt
    have hlog : n.log2 ≤ 52 := Nat.le_of_lt_succ ((Nat.log2_lt hpos.ne').mpr hlt)
    refine ⟨_, _, hM, heq, ?_, by omega, by omega, fun _ => ⟨rfl, rfl⟩, fun h => by omega⟩
    rw [log2_mul_two_pow hpos.ne']
    omega
  · obtain ⟨M, E, hM, heq, hlog, hlow, hhigh⟩ := unpack_ofNat_of_le (Nat.le_of_not_lt hlt) hn
    exact ⟨M, E, hM, heq, hlog, by omega, hhigh, fun h => absurd h hlt, fun _ => hlow⟩

end Whole

/-- The sign of a number other than zero. -/
def signOf (n : Int) : Sign := if n < 0 then .negative else .positive

theorem eq_of_signOf_eq {m n : Int} (hsign : signOf m = signOf n) (habs : m.natAbs = n.natAbs) :
    m = n := by
  unfold signOf at hsign
  by_cases hm : m < 0
  · by_cases hn : n < 0
    · omega
    · rw [if_pos hm, if_neg hn] at hsign
      cases hsign
  · by_cases hn : n < 0
    · rw [if_neg hm, if_pos hn] at hsign
      cases hsign
    · omega

/-- What a whole number of 64 bits becomes, if it is not zero. -/
theorem exists_rounded_ofInt {n : Int} (hne : n ≠ 0) (hn : n.natAbs < 2 ^ 64) :
    ∃ M E hM, (Float.ofInt n).toModel.unpack = .finite (signOf n) M E hM ∧
      Rounded n.natAbs M E := by
  cases n with
  | ofNat n =>
      have hpos : 0 < n := Nat.pos_of_ne_zero fun h => hne (congrArg Int.ofNat h)
      obtain ⟨M, E, hM, heq, hrounded⟩ := exists_rounded_ofNat hpos hn
      have hsign : signOf (Int.ofNat n) = .positive := if_neg (Int.not_lt.mpr (Int.natCast_nonneg n))
      refine ⟨M, E, hM, ?_, hrounded⟩
      rw [hsign]
      exact heq
  | negSucc n =>
      obtain ⟨M, E, hM, heq, hrounded⟩ := exists_rounded_ofNat n.succ_pos hn
      have hsign : signOf (Int.negSucc n) = .negative := if_pos (Int.negSucc_lt_zero n)
      have hlow := hrounded.low
      have hhigh := hrounded.high
      refine ⟨M, E, hM, ?_, hrounded⟩
      rw [hsign]
      show (Float.Model.pack (Float.ofNat (n + 1)).toModel.unpack.neg).unpack = _
      rw [heq]
      exact unpack_pack hrounded.log2_eq (by omega) (by omega)

theorem unpack_ofInt_zero : (Float.ofInt 0).toModel.unpack = .zero .positive := rfl

theorem ofInt_beq_self {n : Int} (hn : n.natAbs < 2 ^ 64) :
    (Float.ofInt n == Float.ofInt n) = true := by
  have hnumber : (Float.ofInt n).toModel.unpack ≠ .notANumber := by
    by_cases hne : n = 0
    · subst hne
      rw [unpack_ofInt_zero]
      exact UnpackedFloat.noConfusion
    · obtain ⟨M, E, hM, heq, -⟩ := exists_rounded_ofInt hne hn
      rw [heq]
      exact UnpackedFloat.noConfusion
  exact (beq_iff_ne_notANumber_and_eq _ _).mpr ⟨hnumber, hnumber, Or.inl rfl⟩

/-- A whole number below `2 ^ 53` shares its double with no other whole number of 64 bits. -/
theorem eq_of_ofInt_beq {m n : Int} (hm : m.natAbs < 2 ^ 53) (hn : n.natAbs < 2 ^ 64)
    (h : (Float.ofInt m == Float.ofInt n) = true) : m = n := by
  obtain ⟨-, -, hsame⟩ := (beq_iff_ne_notANumber_and_eq _ _).mp h
  by_cases hm0 : m = 0
  · by_cases hn0 : n = 0
    · rw [hm0, hn0]
    · obtain ⟨M, E, hM, heq, -⟩ := exists_rounded_ofInt hn0 hn
      rw [hm0, unpack_ofInt_zero, heq] at hsame
      simp at hsame
  · obtain ⟨M, E, hM, heq, hrounded⟩ := exists_rounded_ofInt hm0 (by omega)
    by_cases hn0 : n = 0
    · rw [hn0, unpack_ofInt_zero, heq] at hsame
      simp at hsame
    · obtain ⟨M', E', hM', heq', hrounded'⟩ := exists_rounded_ofInt hn0 hn
      rw [heq, heq'] at hsame
      obtain ⟨hsign, rfl, rfl⟩ : signOf m = signOf n ∧ M = M' ∧ E = E' := by simpa using hsame
      exact eq_of_signOf_eq hsign (hrounded.eq_of_lt hrounded' hm)

end Dataflow.Decimal
