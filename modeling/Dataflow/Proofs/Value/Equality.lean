import Dataflow.Value.Basic
import Dataflow.Proofs.Decimal.Doubles
/-!
# When values are equal

Values of different types are compared as doubles, values of the same type as what they are.  Both agree
as long as every number has a double of its own, which is so up to 53 bits.  Beyond, two numbers of 64
bits may share a double without being equal, and then a double which equals both stands between them:
equality is not transitive there.  Nor is it reflexive, for what is not a number equals nothing, not even
itself.

Apart from these two things equality is an equivalence.  Everything follows from one description of it:
numbers are equal if they are equal as doubles (`SameDouble`), two of 64 bits if they are the same, and
other values if they are the same.

**Proved here.**

    values that are no numbers                  (`beq_iff_eq_of_not_numeric`)
    two numbers of 64 bits                      (`long_beq_long`)
    all other numbers                           (`beq_iff_sameDouble`)
    the only way to miss transitivity           (`beq_trans_or`)
    the laws of equality, as far as they hold   (`beq_laws`)
-/
namespace Dataflow.Value

/-! ## Values that are no numbers -/

theorem compareLists_eq_eq_iff {α : Type} {f : α → α → Ordering}
    (hf : ∀ a b, f a b = .eq ↔ a = b) (as bs : List α) :
    compareLists f as bs = .eq ↔ as = bs := by
  fun_induction compareLists f as bs with
  | case1 => exact iff_of_true rfl rfl
  | case2 b bs => exact iff_of_false Ordering.noConfusion (List.cons_ne_nil b bs).symm
  | case3 a as => exact iff_of_false Ordering.noConfusion (List.cons_ne_nil a as)
  | case4 a as b bs heq ih => rw [ih, (hf a b).mp heq, List.cons.injEq, eq_self, true_and]
  | case5 a as b bs hne =>
      refine iff_of_false hne ?_
      rintro ⟨⟩
      exact hne ((hf a a).mpr rfl)

theorem compareChars_eq_eq_iff (s t : String) :
    compareLists (fun c d : Char => Ord.compare c.toNat d.toNat) s.toList t.toList = .eq ↔ s = t := by
  rw [compareLists_eq_eq_iff fun c d => Nat.compare_eq_eq.trans Char.toNat_inj]
  exact String.toList_inj

theorem compareBytes_eq_eq_iff (s t : List UInt8) :
    compareLists (fun c d : UInt8 => Ord.compare c.toNat d.toNat) s t = .eq ↔ s = t :=
  compareLists_eq_eq_iff (fun _ _ => Nat.compare_eq_eq.trans UInt8.toNat_inj) s t

/-- Unless both are numbers, a value equals itself alone. -/
theorem beq_iff_eq_of_not_numeric {a b : Value} (h : (a.isNumeric && b.isNumeric) = false) :
    (a == b) = true ↔ a = b := by
  show a.beq b = true ↔ _
  cases a with
  | null => cases b <;> simp [beq]
  | boolean a => cases b <;> simp [beq, compare, isNumeric]
  | charArray s => cases b <;> simp [beq, compare, isNumeric, compareChars_eq_eq_iff]
  | byteArray s => cases b <;> simp [beq, compare, isNumeric, compareBytes_eq_eq_iff]
  | _ =>
      cases b with
      | int n => cases h
      | long n => cases h
      | double x => cases h
      | _ => simp [beq, compare, isNumeric]

/-! ## Numbers -/

theorem compareDoubles_eq_some_eq_iff {x y : Float} :
    compareDoubles x y = some .eq ↔ (x == y) = true := by
  have hlt : ∀ {x y : Float}, (x == y) = true → ¬ x < y := by
    intro x y heq hlt
    have hequal : (x.toModel.unpack.compare y.toModel.unpack == some .eq) = true := heq
    have hless : (x.toModel.unpack.compare y.toModel.unpack == some .lt) = true :=
      of_decide_eq_true hlt
    rw [beq_iff_eq.mp hequal] at hless
    cases hless
  unfold compareDoubles
  constructor
  · intro h
    split_ifs at h with hless hgreater heq
    · cases h
    · cases h
    · exact heq
  · intro heq
    rw [if_neg (hlt heq), if_neg (hlt (BEq.symm heq)), if_pos heq]

/-- Both are equal when they are taken for doubles. -/
def SameDouble (a b : Value) : Prop :=
  ∃ x y, a.toDouble? = some x ∧ b.toDouble? = some y ∧ (x == y) = true

def BothLong (a b : Value) : Prop :=
  ∃ m n, a = .long m ∧ b = .long n

theorem natAbs_int_lt (n : Int32) : n.toInt.natAbs < 2 ^ 53 := by
  have hlow := n.le_toInt
  have hhigh := n.toInt_lt
  omega

theorem natAbs_long_lt (n : Int64) : n.toInt.natAbs < 2 ^ 64 := by
  have hlow := n.le_toInt
  have hhigh := n.toInt_lt
  omega

theorem int_beq_int {m n : Int32} : (int m == int n) = true ↔ m = n := by
  show (some (Ord.compare m.toInt n.toInt) == some .eq) = true ↔ _
  rw [beq_iff_eq, Option.some.injEq, Int.compare_eq_eq, Int32.toInt_inj]

theorem long_beq_long {m n : Int64} : (long m == long n) = true ↔ m = n := by
  show (some (Ord.compare m.toInt n.toInt) == some .eq) = true ↔ _
  rw [beq_iff_eq, Option.some.injEq, Int.compare_eq_eq, Int64.toInt_inj]

section Numbers
variable {a b c : Value}

theorem SameDouble.symm (h : SameDouble a b) : SameDouble b a := by
  obtain ⟨x, y, hx, hy, heq⟩ := h
  exact ⟨y, x, hy, hx, BEq.symm heq⟩

theorem SameDouble.trans (h : SameDouble a b) (h' : SameDouble b c) : SameDouble a c := by
  obtain ⟨x, y, hx, hy, heq⟩ := h
  obtain ⟨y', z, hy', hz, heq'⟩ := h'
  obtain rfl : y = y' := Option.some.inj (hy.symm.trans hy')
  exact ⟨x, z, hx, hz, BEq.trans heq heq'⟩

theorem SameDouble.eq_of_lt {i j : Int} (h : SameDouble a b)
    (ha : a.toDouble? = some (Float.ofInt i)) (hb : b.toDouble? = some (Float.ofInt j))
    (hi : i.natAbs < 2 ^ 53) (hj : j.natAbs < 2 ^ 64) : i = j := by
  obtain ⟨x, y, hx, hy, heq⟩ := h
  obtain rfl : x = Float.ofInt i := Option.some.inj (hx.symm.trans ha)
  obtain rfl : y = Float.ofInt j := Option.some.inj (hy.symm.trans hb)
  exact Decimal.eq_of_ofInt_beq hi hj heq

theorem sameDouble_self {i : Int} (ha : a.toDouble? = some (Float.ofInt i))
    (hi : i.natAbs < 2 ^ 64) : SameDouble a a :=
  ⟨_, _, ha, ha, Decimal.ofInt_beq_self hi⟩

/-- Numbers are compared as doubles, unless both have 64 bits.  Two of 32 bits are compared as
integers, which comes to the same. -/
theorem beq_iff_sameDouble (ha : a.isNumeric = true) (hb : b.isNumeric = true)
    (hlong : ¬ BothLong a b) : (a == b) = true ↔ SameDouble a b := by
  have hdoubles : ∀ {a b : Value} {x y : Float}, a.toDouble? = some x → b.toDouble? = some y →
      ((compareDoubles x y == some .eq) = true ↔ SameDouble a b) := by
    intro a b x y hx hy
    rw [beq_iff_eq, compareDoubles_eq_some_eq_iff]
    constructor
    · intro heq
      exact ⟨x, y, hx, hy, heq⟩
    · rintro ⟨x', y', hx', hy', heq⟩
      rwa [Option.some.inj (hx.symm.trans hx'), Option.some.inj (hy.symm.trans hy')]
  cases a with
  | int m =>
      cases b with
      | int n =>
          rw [int_beq_int]
          have hm := natAbs_int_lt m
          have hn := natAbs_int_lt n
          constructor
          · rintro rfl
            exact sameDouble_self rfl (by omega)
          · intro h
            exact Int32.toInt_inj.mp (h.eq_of_lt rfl rfl hm (by omega))
      | long n => exact hdoubles rfl rfl
      | double y => exact hdoubles rfl rfl
      | _ => cases hb
  | long m =>
      cases b with
      | long n => exact absurd ⟨m, n, rfl, rfl⟩ hlong
      | int n => exact hdoubles rfl rfl
      | double y => exact hdoubles rfl rfl
      | _ => cases hb
  | double x =>
      cases b with
      | int n => exact hdoubles rfl rfl
      | long n => exact hdoubles rfl rfl
      | double y => exact hdoubles rfl rfl
      | _ => cases hb
  | _ => cases ha

theorem sameDouble_of_beq (ha : a.isNumeric = true) (hb : b.isNumeric = true)
    (h : (a == b) = true) : SameDouble a b := by
  by_cases hlong : BothLong a b
  · obtain ⟨m, n, rfl, rfl⟩ := hlong
    obtain rfl : m = n := long_beq_long.mp h
    exact sameDouble_self rfl (natAbs_long_lt m)
  · exact (beq_iff_sameDouble ha hb hlong).mp h

end Numbers

/-! ## The laws -/

section Laws
variable {a b c : Value}

theorem beq_self_iff : (a == a) = true ↔ ∀ x, a = .double x → x.isNaN = false := by
  cases a with
  | double x =>
      have hshort : ¬ BothLong (double x) (double x) := by
        rintro ⟨m, n, h, -⟩
        cases h
      have hsame : SameDouble (double x) (double x) ↔ (x == x) = true := by
        simp [SameDouble, toDouble?]
      rw [beq_iff_sameDouble rfl rfl hshort, hsame, Float.beq_self_iff]
      simp
  | int n => exact iff_of_true (int_beq_int.mpr rfl) fun _ h => nomatch h
  | long n => exact iff_of_true (long_beq_long.mpr rfl) fun _ h => nomatch h
  | _ => exact iff_of_true ((beq_iff_eq_of_not_numeric rfl).mpr rfl) fun _ h => nomatch h

theorem beq_symm (h : (a == b) = true) : (b == a) = true := by
  cases hnumeric : a.isNumeric && b.isNumeric with
  | false =>
      obtain rfl : a = b := (beq_iff_eq_of_not_numeric hnumeric).mp h
      exact h
  | true =>
      obtain ⟨ha, hb⟩ := Bool.and_eq_true_iff.mp hnumeric
      by_cases hlong : BothLong b a
      · obtain ⟨n, m, rfl, rfl⟩ := hlong
        exact long_beq_long.mpr (long_beq_long.mp h).symm
      · exact (beq_iff_sameDouble hb ha hlong).mpr (sameDouble_of_beq ha hb h).symm

/-- Two numbers of 64 bits that are equal as doubles, and different, are too large for doubles. -/
theorem large_of_sameDouble {m n : Int64} (h : SameDouble (long m) (long n)) (hmn : m ≠ n) :
    2 ^ 53 ≤ m.toInt.natAbs := by
  by_contra hlt
  exact hmn (Int64.toInt_inj.mp (h.eq_of_lt rfl rfl (Nat.lt_of_not_le hlt) (natAbs_long_lt n)))

/-- The only way to miss transitivity: two numbers of 64 bits that are too large for doubles, and a
double between them. -/
theorem beq_trans_or (hab : (a == b) = true) (hbc : (b == c) = true) : (a == c) = true ∨
    ∃ m x n, a = .long m ∧ b = .double x ∧ c = .long n ∧ m ≠ n ∧
      2 ^ 53 ≤ m.toInt.natAbs ∧ 2 ^ 53 ≤ n.toInt.natAbs := by
  cases hleft : a.isNumeric && b.isNumeric with
  | false =>
      obtain rfl : a = b := (beq_iff_eq_of_not_numeric hleft).mp hab
      exact .inl hbc
  | true =>
      cases hright : b.isNumeric && c.isNumeric with
      | false =>
          obtain rfl : b = c := (beq_iff_eq_of_not_numeric hright).mp hbc
          exact .inl hab
      | true =>
          obtain ⟨ha, hb⟩ := Bool.and_eq_true_iff.mp hleft
          obtain ⟨-, hc⟩ := Bool.and_eq_true_iff.mp hright
          have hfirst : SameDouble a b := sameDouble_of_beq ha hb hab
          have hboth : SameDouble a c := hfirst.trans (sameDouble_of_beq hb hc hbc)
          by_cases hlong : BothLong a c
          · obtain ⟨m, n, rfl, rfl⟩ := hlong
            by_cases hmn : m = n
            · exact .inl (long_beq_long.mpr hmn)
            · have hm := large_of_sameDouble hboth hmn
              have hn := large_of_sameDouble hboth.symm (Ne.symm hmn)
              cases b with
              | double x => exact .inr ⟨m, x, n, rfl, rfl, rfl, hmn, hm, hn⟩
              | long k => exact absurd ((long_beq_long.mp hab).trans (long_beq_long.mp hbc)) hmn
              | int k =>
                  -- a number of 32 bits equals no other integer
                  have hsmall := natAbs_int_lt k
                  have hkm : k.toInt = m.toInt :=
                    hfirst.symm.eq_of_lt rfl rfl hsmall (natAbs_long_lt m)
                  omega
              | _ => cases hb
          · exact .inl ((beq_iff_sameDouble ha hc hlong).mpr hboth)

end Laws

/-- Equality is reflexive but for what is not a number, symmetric, and transitive but for two different
numbers of 64 bits that both equal one double, which are at least `2 ^ 53` in size. -/
theorem beq_laws (a b c : Value) :
    ((a == a) = true ↔ ∀ x, a = .double x → x.isNaN = false) ∧
    (a == b) = (b == a) ∧
    ((a == b) = true → (b == c) = true →
      ((a == c) = false ↔ ∃ m x n, a = .long m ∧ b = .double x ∧ c = .long n ∧ m ≠ n ∧
        2 ^ 53 ≤ m.toInt.natAbs ∧ 2 ^ 53 ≤ n.toInt.natAbs)) := by
  refine ⟨beq_self_iff, Bool.eq_iff_iff.mpr ⟨beq_symm, beq_symm⟩, ?_⟩
  intro hab hbc
  constructor
  · intro hac
    exact (beq_trans_or hab hbc).resolve_left (Bool.eq_false_iff.mp hac)
  · rintro ⟨m, x, n, rfl, -, rfl, hmn, -⟩
    exact Bool.eq_false_iff.mpr fun h => hmn (long_beq_long.mp h)

def largeDouble : Float := Float.ofBits 0x4340000000000000

theorem beq_largeDouble : (long 9007199254740993 == double largeDouble) = true ∧
    (double largeDouble == long 9007199254740992) = true := by
  decide

theorem beq_ten_and_large :
    ((int 10 == double 10) = true ∧ (double 10 == long 10) = true ∧ (int 10 == long 10) = true) ∧
    (long 9007199254740993 == double largeDouble) = true ∧
    (double largeDouble == long 9007199254740992) = true ∧
    (long 9007199254740993 == long 9007199254740992) = false := by
  obtain ⟨hodd, heven⟩ := beq_largeDouble
  have hint : (int 10 == double 10) = true := by decide
  have hlong : (double 10 == long 10) = true := by decide
  have hten : ¬ (int 10 == long 10) = false := by
    rw [(beq_laws (int 10) (double 10) (long 10)).2.2 hint hlong]
    rintro ⟨m, x, n, h, -⟩
    cases h
  have hlarge : (long 9007199254740993 == long 9007199254740992) = false :=
    ((beq_laws _ _ _).2.2 hodd heven).mpr ⟨_, _, _, rfl, rfl, rfl, by decide, by decide, by decide⟩
  exact ⟨⟨hint, hlong, Bool.of_not_eq_false hten⟩, hodd, heven, hlarge⟩

/-- Zero by zero does not equal itself, and an odd number does not equal its even neighbour. -/
theorem beq_not_reflexive_not_transitive :
    (¬ ∀ a : Value, (a == a) = true) ∧
    ¬ ∀ a b c : Value, (a == b) = true → (b == c) = true → (a == c) = true := by
  constructor
  · intro hrefl
    have hnan : (double (0 / 0) == double (0 / 0)) = false := by decide
    exact Bool.false_ne_true (hnan.symm.trans (hrefl (double (0 / 0))))
  · intro htrans
    obtain ⟨hodd, heven⟩ := beq_largeDouble
    have hequal : (9007199254740993 : Int64) = 9007199254740992 :=
      long_beq_long.mp (htrans _ _ _ hodd heven)
    exact absurd hequal (by decide)

end Dataflow.Value
