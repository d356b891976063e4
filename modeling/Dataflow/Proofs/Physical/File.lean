import Dataflow.Physical.File
import Dataflow.Proofs.Json.Layout
/-!
# Plan files are read back

The text of a plan file is read back as the plan description that it was printed from.  Two things
can stand in the way: a double, whose digits are not followed through here, and brackets that nest
deeper than the reader goes.  Numbers are bounded by the words that hold them.

A printed record gives its tag first and then every field under its name.  What its reader makes of
it, before it looks into the fields, is one equation for each form of expression and each kind of
operator; the induction for expressions is on the fuel, which covers the nesting of the form.

**Proved here.**

    a list whose items are read back                    (`Json.list?_ofList`)
    constants, types, comparisons and expressions        (`ExprSpec.decode_toJson`)
    kinds, operators and plans                           (`PlanSpec.ofJson?_toJson`)
    what is printed has whole numbers only               (`ExprSpec.exact_toJson`, …)
    plan files                                           (`PlanSpec.parse?_print`)
-/
namespace Dataflow

/-! ## Records -/

namespace Json

theorem mapM_of_forall {α β : Type} {f : α → Option β} {g : α → β} {xs : List α}
    (h : ∀ x ∈ xs, f x = some (g x)) : xs.mapM f = some (xs.map g) := by
  induction xs with
  | nil => rfl
  | cons x xs ih =>
      rw [List.mapM_cons, h x List.mem_cons_self, ih fun y hy => h y (List.mem_cons_of_mem x hy)]
      rfl

theorem list?_ofList {α : Type} {f : α → Json} {item : Json → Option α} {xs : List α}
    (h : ∀ x ∈ xs, item (f x) = some x) : list? item (ofList f xs) = some xs := by
  have hall : xs.mapM (item ∘ f) = some (xs.map id) := mapM_of_forall h
  rw [ofList, list?, List.mapM_map, hall, List.map_id]

end Json

/-! ## Words and constants -/

/-- Numbers that fit words of 64 bits. -/
def Words (ns : List Nat) : Prop := ∀ n ∈ ns, n ≤ Word.largest 64

instance : DecidablePred Words := fun ns => inferInstanceAs (Decidable (∀ n ∈ ns, _))

theorem words_append {ms ns : List Nat} : Words (ms ++ ns) ↔ Words ms ∧ Words ns :=
  List.forall_mem_append

theorem words_flatten {lists : List (List Nat)} :
    Words lists.flatten ↔ ∀ ns ∈ lists, Words ns := by
  constructor
  · intro h ns hns n hn
    exact h n (List.mem_flatten.mpr ⟨ns, hns, hn⟩)
  · intro h n hn
    obtain ⟨ns, hns, hmem⟩ := List.mem_flatten.mp hn
    exact h ns hns n hmem

theorem DataType.ofJson?_toJson (nested : Bool) (t : DataType) :
    ofJson? nested t.toJson = some t := by
  cases t <;> rfl

theorem CompareOp.ofJson?_toJson (nested : Bool) (op : CompareOp) :
    ofJson? nested op.toJson = some op := by
  cases op <;> rfl

theorem Json.int64?_ofInt (n : Int64) : (Json.ofInt n.toInt).int64? = some n := by
  have hback := Int64.ofInt_toInt n
  have hhigh := n.toInt_lt
  cases hn : n.toInt with
  | ofNat m =>
      have hm : m < Word.count 63 := by
        have hpow : Word.count 63 = 2 ^ 63 := rfl
        have hcast : n.toInt = (m : Int) := hn
        omega
      rw [hn] at hback
      show (if m < Word.count 63 then some (Int64.ofNat m) else none) = _
      rw [if_pos hm, ← hback]
      rfl
  | negSucc m =>
      rw [hn] at hback
      exact congrArg some hback

/-- The constants that are no doubles. -/
def Literal.Exact : Literal → Prop
  | .double _ => False
  | _ => True

instance : DecidablePred Literal.Exact
  | .double _ => isFalse id
  | .null => isTrue trivial
  | .boolean _ => isTrue trivial
  | .int _ => isTrue trivial
  | .charArray _ => isTrue trivial

theorem Literal.ofJson?_toJson (nested : Bool) {v : Literal} (h : v.Exact) :
    ofJson? nested v.toJson = some v := by
  cases v with
  | null => rfl
  | boolean b => rfl
  | int n =>
      show (Json.ofInt n.toInt).int64?.map Literal.int = _
      rw [Json.int64?_ofInt]
      rfl
  | double x => exact h.elim
  | charArray s => rfl

theorem Json.exact_ofNat {n : Nat} (h : n ≤ Word.largest 64) : (Json.ofNat n).Exact :=
  .number h

theorem Json.exact_ofList {α : Type} {f : α → Json} {xs : List α} (h : ∀ x ∈ xs, (f x).Exact) :
    (Json.ofList f xs).Exact := by
  refine .array ?_
  intro j hj
  obtain ⟨x, hx, rfl⟩ := List.mem_map.mp hj
  exact h x hx

theorem Json.exact_ofInt (n : Int64) : (Json.ofInt n.toInt).Exact := by
  have hlow := n.le_toInt
  have hhigh := n.toInt_lt
  have hword : Word.largest 64 = 2 ^ 64 - 1 := rfl
  have hhalf : Word.count 63 = 2 ^ 63 := rfl
  cases hn : n.toInt with
  | ofNat m =>
      have hcast : n.toInt = (m : Int) := hn
      have hm : m ≤ Word.largest 64 := by omega
      exact .number hm
  | negSucc m =>
      have hcast : n.toInt = -((m : Int) + 1) := by rw [hn, Int.negSucc_eq]
      have hm : 1 ≤ m + 1 ∧ m + 1 ≤ Word.count 63 := by omega
      exact .number hm

theorem Literal.exact_toJson {v : Literal} (h : v.Exact) : v.toJson.Exact := by
  cases v with
  | null => exact .text
  | boolean b => exact .object (by simpa using .bool)
  | int n => exact .object (by simpa using Json.exact_ofInt n)
  | double x => exact h.elim
  | charArray s => exact .object (by simpa using .text)

/-! ## Expressions -/

namespace ExprSpec

/-- The expressions without doubles whose column numbers fit a word. -/
def Exact : ExprSpec → Prop
  | .const v => v.Exact
  | .column i _ => Words [i]
  | .or a b => a.Exact ∧ b.Exact
  | .and a b => a.Exact ∧ b.Exact
  | .not a => a.Exact
  | .compare _ a b => a.Exact ∧ b.Exact
  | .isNull a => a.Exact
  | .binCond c a b => c.Exact ∧ a.Exact ∧ b.Exact
  | .cast a _ => a.Exact

instance decidableExact : DecidablePred Exact
  | .const v => inferInstanceAs (Decidable v.Exact)
  | .column i _ => inferInstanceAs (Decidable (Words [i]))
  | .or a b => @instDecidableAnd _ _ (decidableExact a) (decidableExact b)
  | .and a b => @instDecidableAnd _ _ (decidableExact a) (decidableExact b)
  | .not a => decidableExact a
  | .compare _ a b => @instDecidableAnd _ _ (decidableExact a) (decidableExact b)
  | .isNull a => decidableExact a
  | .binCond c a b => @instDecidableAnd _ _ (decidableExact c)
      (@instDecidableAnd _ _ (decidableExact a) (decidableExact b))
  | .cast a _ => decidableExact a

/-! What the reader makes of each form before it looks into the operands. -/

section Steps
variable (nested : Bool) (fuel : Nat) (a b c : ExprSpec)

theorem decode_const (v : Literal) :
    decode nested (fuel + 1) (const v).toJson = (Literal.ofJson? true v.toJson).map .const := rfl

theorem decode_column (i : Nat) (t : DataType) :
    decode nested (fuel + 1) (column i t).toJson = do
      let t ← DataType.ofJson? true t.toJson
      return .column i t := rfl

theorem decode_or :
    decode nested (fuel + 1) (or a b).toJson = do
      let a ← decode true fuel a.toJson
      let b ← decode true fuel b.toJson
      return .or a b := rfl

theorem decode_and :
    decode nested (fuel + 1) (and a b).toJson = do
      let a ← decode true fuel a.toJson
      let b ← decode true fuel b.toJson
      return .and a b := rfl

theorem decode_not :
    decode nested (fuel + 1) (not a).toJson = (decode true fuel a.toJson).map .not := rfl

theorem decode_compare (op : CompareOp) :
    decode nested (fuel + 1) (compare op a b).toJson = do
      let op ← CompareOp.ofJson? true op.toJson
      let a ← decode true fuel a.toJson
      let b ← decode true fuel b.toJson
      return .compare op a b := rfl

theorem decode_isNull :
    decode nested (fuel + 1) (isNull a).toJson = (decode true fuel a.toJson).map .isNull := rfl

theorem decode_binCond :
    decode nested (fuel + 1) (binCond a b c).toJson = do
      let a ← decode true fuel a.toJson
      let b ← decode true fuel b.toJson
      let c ← decode true fuel c.toJson
      return .binCond a b c := rfl

theorem decode_cast (t : DataType) :
    decode nested (fuel + 1) (cast a t).toJson = do
      let a ← decode true fuel a.toJson
      let t ← DataType.ofJson? true t.toJson
      return .cast a t := rfl

end Steps

/-- An expression is read back when the fuel covers the nesting of its form. -/
theorem decode_toJson {e : ExprSpec} (h : e.Exact) {nested : Bool} {fuel : Nat}
    (hfuel : e.toJson.height < fuel) : decode nested fuel e.toJson = some e := by
  induction fuel generalizing e nested with
  | zero => exact absurd hfuel (Nat.not_lt_zero _)
  | succ fuel ih =>
      cases e with
      | const v =>
          rw [decode_const, Literal.ofJson?_toJson true h]
          rfl
      | column i t =>
          rw [decode_column, DataType.ofJson?_toJson]
          rfl
      | or a b =>
          simp only [toJson, Json.height, Json.heightMembers] at hfuel
          rw [decode_or, ih h.1 (by omega), ih h.2 (by omega)]
          rfl
      | and a b =>
          simp only [toJson, Json.height, Json.heightMembers] at hfuel
          rw [decode_and, ih h.1 (by omega), ih h.2 (by omega)]
          rfl
      | not a =>
          simp only [toJson, Json.height, Json.heightMembers] at hfuel
          rw [decode_not, ih (e := a) h (by omega)]
          rfl
      | compare op a b =>
          simp only [toJson, Json.height, Json.heightMembers] at hfuel
          rw [decode_compare, CompareOp.ofJson?_toJson, ih h.1 (by omega), ih h.2 (by omega)]
          rfl
      | isNull a =>
          simp only [toJson, Json.height, Json.heightMembers] at hfuel
          rw [decode_isNull, ih (e := a) h (by omega)]
          rfl
      | binCond c a b =>
          simp only [toJson, Json.height, Json.heightMembers] at hfuel
          rw [decode_binCond, ih h.1 (by omega), ih h.2.1 (by omega), ih h.2.2 (by omega)]
          rfl
      | cast a t =>
          simp only [toJson, Json.height, Json.heightMembers] at hfuel
          rw [decode_cast, ih (e := a) h (by omega), DataType.ofJson?_toJson]
          rfl

theorem ofNestedJson?_toJson {e : ExprSpec} (h : e.Exact) : ofNestedJson? e.toJson = some e :=
  decode_toJson h (Nat.lt_succ_self _)

/-- The form of an expression holds whole numbers only. -/
theorem exact_toJson {e : ExprSpec} (h : e.Exact) : e.toJson.Exact := by
  induction e with
  | const v => exact .object (by simpa using ⟨.text, v.exact_toJson h⟩)
  | column i t =>
      exact .object (by simpa using ⟨.text, Json.exact_ofNat (h i List.mem_cons_self), .text⟩)
  | or a b iha ihb => exact .object (by simpa using ⟨.text, iha h.1, ihb h.2⟩)
  | and a b iha ihb => exact .object (by simpa using ⟨.text, iha h.1, ihb h.2⟩)
  | not a ih => exact .object (by simpa using ⟨.text, ih h⟩)
  | compare op a b iha ihb => exact .object (by simpa using ⟨.text, .text, iha h.1, ihb h.2⟩)
  | isNull a ih => exact .object (by simpa using ⟨.text, ih h⟩)
  | binCond c a b ihc iha ihb =>
      exact .object (by simpa using ⟨.text, ihc h.1, iha h.2.1, ihb h.2.2⟩)
  | cast a t ih => exact .object (by simpa using ⟨.text, ih h, .text⟩)

end ExprSpec

/-! ## Operators and plans -/

namespace PhysicalKind

/-- The kinds without doubles whose numbers fit words. -/
def Exact : PhysicalKind → Prop
  | .filter condition => condition.Exact
  | .forEach generate => ∀ e ∈ generate, e.Exact
  | .limit count => Words [count]
  | .group keys n => Words (keys ++ n.toList)
  | .cogroup keys n => Words (keys.flatten ++ n.toList)
  | .join keys n => Words (keys.flatten ++ n.toList)
  | .distinct n => Words n.toList
  | .sort keys _ n => Words (keys ++ n.toList)
  | _ => True

instance : DecidablePred Exact
  | .load _ => isTrue trivial
  | .store _ => isTrue trivial
  | .filter condition => inferInstanceAs (Decidable condition.Exact)
  | .forEach generate => inferInstanceAs (Decidable (∀ e ∈ generate, e.Exact))
  | .limit count => inferInstanceAs (Decidable (Words [count]))
  | .union => isTrue trivial
  | .split => isTrue trivial
  | .group keys n => inferInstanceAs (Decidable (Words (keys ++ n.toList)))
  | .cogroup keys n => inferInstanceAs (Decidable (Words (keys.flatten ++ n.toList)))
  | .join keys n => inferInstanceAs (Decidable (Words (keys.flatten ++ n.toList)))
  | .distinct n => inferInstanceAs (Decidable (Words n.toList))
  | .sort keys _ n => inferInstanceAs (Decidable (Words (keys ++ n.toList)))

theorem columns?_columnsJson (columns : List Nat) : columns? (columnsJson columns) = some columns :=
  Json.list?_ofList fun _ _ => rfl

theorem parallelism?_member (n : Option Nat) :
    parallelism? (some (parallelismMember n).2) = some n := by
  cases n with
  | none => rfl
  | some n => rfl

section Steps
variable (keys : List Nat) (lists : List (List Nat)) (n : Option Nat)

theorem decode_filter (condition : ExprSpec) :
    decode true (.object (filter condition).members) =
      (ExprSpec.ofNestedJson? condition.toJson).map .filter := rfl

theorem decode_forEach (generate : List ExprSpec) :
    decode true (.object (forEach generate).members) =
      (Json.list? ExprSpec.ofNestedJson? (Json.ofList ExprSpec.toJson generate)).map .forEach := rfl

theorem decode_group :
    decode true (.object (group keys n).members) = do
      let keys ← columns? (columnsJson keys)
      let n ← parallelism? (some (parallelismMember n).2)
      return .group keys n := rfl

theorem decode_cogroup :
    decode true (.object (cogroup lists n).members) = do
      let lists ← Json.list? columns? (Json.ofList columnsJson lists)
      let n ← parallelism? (some (parallelismMember n).2)
      return .cogroup lists n := rfl

theorem decode_join :
    decode true (.object (join lists n).members) = do
      let lists ← Json.list? columns? (Json.ofList columnsJson lists)
      let n ← parallelism? (some (parallelismMember n).2)
      return .join lists n := rfl

theorem decode_distinct :
    decode true (.object (distinct n).members) =
      (parallelism? (some (parallelismMember n).2)).map .distinct := rfl

theorem decode_sort (ascending : List Bool) :
    decode true (.object (sort keys ascending n).members) = do
      let keys ← columns? (columnsJson keys)
      let ascending ← Json.list? Json.bool? (Json.ofList .bool ascending)
      let n ← parallelism? (some (parallelismMember n).2)
      return .sort keys ascending n := rfl

end Steps

theorem decode_members {k : PhysicalKind} (h : k.Exact) :
    decode true (.object k.members) = some k := by
  have hlists : ∀ keys, Json.list? columns? (Json.ofList columnsJson keys) = some keys :=
    fun keys => Json.list?_ofList fun columns _ => columns?_columnsJson columns
  cases k with
  | load location => rfl
  | store location => rfl
  | filter condition =>
      rw [decode_filter, ExprSpec.ofNestedJson?_toJson h]
      rfl
  | forEach generate =>
      rw [decode_forEach, Json.list?_ofList fun e he => ExprSpec.ofNestedJson?_toJson (h e he)]
      rfl
  | limit count => rfl
  | union => rfl
  | split => rfl
  | group keys n =>
      rw [decode_group, columns?_columnsJson, parallelism?_member]
      rfl
  | cogroup keys n =>
      rw [decode_cogroup, hlists, parallelism?_member]
      rfl
  | join keys n =>
      rw [decode_join, hlists, parallelism?_member]
      rfl
  | distinct n =>
      rw [decode_distinct, parallelism?_member]
      rfl
  | sort keys ascending n =>
      have hascending : Json.list? Json.bool? (Json.ofList .bool ascending) = some ascending :=
        Json.list?_ofList fun _ _ => rfl
      rw [decode_sort, columns?_columnsJson, hascending, parallelism?_member]
      rfl

theorem exact_columnsJson {columns : List Nat} (h : Words columns) :
    (columnsJson columns).Exact :=
  Json.exact_ofList fun n hn => Json.exact_ofNat (h n hn)

theorem exact_listsJson {lists : List (List Nat)} (h : Words lists.flatten) :
    (Json.ofList columnsJson lists).Exact :=
  Json.exact_ofList fun columns hcolumns => exact_columnsJson (words_flatten.mp h columns hcolumns)

theorem exact_parallelismMember {n : Option Nat} (h : Words n.toList) :
    (parallelismMember n).2.Exact := by
  cases n with
  | none => exact .null
  | some n => exact Json.exact_ofNat (h n List.mem_cons_self)

theorem exact_members {k : PhysicalKind} (h : k.Exact) : ∀ m ∈ k.members, m.2.Exact := by
  cases k with
  | load location => simpa [members] using ⟨.text, .text⟩
  | store location => simpa [members] using ⟨.text, .text⟩
  | filter condition => simpa [members] using ⟨.text, ExprSpec.exact_toJson h⟩
  | forEach generate =>
      simpa [members] using ⟨.text, Json.exact_ofList fun e he => ExprSpec.exact_toJson (h e he)⟩
  | limit count => simpa [members] using ⟨.text, Json.exact_ofNat (h count List.mem_cons_self)⟩
  | union => simpa [members] using .text
  | split => simpa [members] using .text
  | group keys n =>
      obtain ⟨hkeys, hn⟩ := words_append.mp h
      simpa [members] using ⟨.text, exact_columnsJson hkeys, exact_parallelismMember hn⟩
  | cogroup keys n =>
      obtain ⟨hkeys, hn⟩ := words_append.mp h
      simpa [members] using ⟨.text, exact_listsJson hkeys, exact_parallelismMember hn⟩
  | join keys n =>
      obtain ⟨hkeys, hn⟩ := words_append.mp h
      simpa [members] using ⟨.text, exact_listsJson hkeys, exact_parallelismMember hn⟩
  | distinct n => simpa [members] using ⟨.text, exact_parallelismMember h⟩
  | sort keys ascending n =>
      obtain ⟨hkeys, hn⟩ := words_append.mp h
      simpa [members] using ⟨.text, exact_columnsJson hkeys, Json.exact_ofList fun _ _ => .bool,
        exact_parallelismMember hn⟩

end PhysicalKind

namespace OperatorSpec

/-- The operators without doubles whose numbers fit words. -/
structure Exact (op : OperatorSpec) : Prop where
  words : Words (op.id :: op.inputs)
  kind : op.kind.Exact

instance : DecidablePred Exact := fun op =>
  decidable_of_iff (Words (op.id :: op.inputs) ∧ op.kind.Exact)
    ⟨fun h => ⟨h.1, h.2⟩, fun h => ⟨h.words, h.kind⟩⟩

/-- An operator is read back: what is left without its number and its inputs is its kind. -/
theorem ofJson?_toJson {op : OperatorSpec} (h : op.Exact) : ofJson? op.toJson = some op := by
  obtain ⟨id, inputs, kind⟩ := op
  have hfields : (Json.object (("id", Json.ofNat id) :: ("inputs", Json.ofList Json.ofNat inputs) ::
      kind.members)).fields? ["id", "inputs"] =
      some [some (Json.ofNat id), some (Json.ofList Json.ofNat inputs)] := by
    cases kind <;> rfl
  have hrest : (("id", Json.ofNat id) :: ("inputs", Json.ofList Json.ofNat inputs) ::
      kind.members).filter (fun m => !(m.1 = "id" || m.1 = "inputs")) = kind.members := by
    cases kind <;> rfl
  have hinputs : Json.list? Json.nat? (Json.ofList Json.ofNat inputs) = some inputs :=
    Json.list?_ofList fun _ _ => rfl
  rw [toJson, ofJson?, hfields]
  simp only [Option.bind_eq_bind, Option.bind_some, Json.required?, Json.withDefault?, hinputs, hrest,
    PhysicalKind.decode_members h.kind]
  rfl

theorem exact_toJson {op : OperatorSpec} (h : op.Exact) : op.toJson.Exact := by
  refine .object ?_
  intro m hm
  rcases List.mem_cons.mp hm with rfl | hm
  · exact Json.exact_ofNat (h.words op.id List.mem_cons_self)
  rcases List.mem_cons.mp hm with rfl | hm
  · exact Json.exact_ofList fun n hn => Json.exact_ofNat (h.words n (List.mem_cons_of_mem _ hn))
  · exact PhysicalKind.exact_members h.kind m hm

end OperatorSpec

namespace PlanSpec

/-- The plans without doubles whose numbers fit words. -/
def Exact (s : PlanSpec) : Prop := ∀ op ∈ s.operators, op.Exact

instance : DecidablePred Exact := fun s =>
  inferInstanceAs (Decidable (∀ op ∈ s.operators, op.Exact))

theorem ofJson?_toJson {s : PlanSpec} (h : s.Exact) : ofJson? s.toJson = some s := by
  have hoperators : Json.list? OperatorSpec.ofJson?
      (Json.ofList OperatorSpec.toJson s.operators) = some s.operators :=
    Json.list?_ofList fun op hop => OperatorSpec.ofJson?_toJson (h op hop)
  have hfields : s.toJson.fields? ["scope", "operators"] =
      some [some (.text s.scope), some (Json.ofList OperatorSpec.toJson s.operators)] := rfl
  rw [ofJson?, hfields]
  simp only [Option.bind_eq_bind, Option.bind_some, Json.required?, Json.withDefault?, hoperators]
  rfl

/-- A plan file is read back as the plan that it was printed from, when the plan holds no double and
its brackets nest at most as deep as the reader goes. -/
theorem parse?_print {s : PlanSpec} (h : s.Exact) (hdepth : s.toJson.height ≤ 127) :
    parse? s.print = some s := by
  have hoperators : (Json.ofList OperatorSpec.toJson s.operators).Exact :=
    Json.exact_ofList fun op hop => OperatorSpec.exact_toJson (h op hop)
  have hmembers : ∀ m ∈ [("scope", Json.text s.scope),
      ("operators", Json.ofList OperatorSpec.toJson s.operators)], m.2.Exact := by
    simpa using ⟨.text, hoperators⟩
  have hread : Json.parseFor? ["scope", "operators"] s.print = some s.toJson :=
    Json.parseFor?_pretty hmembers (by simp) hdepth
  rw [parse?, hread]
  exact ofJson?_toJson h

/-- A plan with extreme numbers, and with texts that hold quotes, backslashes, control characters
and characters outside of ASCII. -/
def intricate : PlanSpec :=
  ⟨"\"quoted\" \\ \x00\x1f\x7f\t",
    [⟨18446744073709551615, [], .load "dépôt\r\n/😀"⟩,
      ⟨0, [18446744073709551615], .filter (.binCond
        (.compare .le (.column 18446744073709551615 .charArray) (.const (.charArray "\x08\x0c")))
        (.isNull (.const .null))
        (.or (.const (.boolean false)) (.not (.const (.int Int64.minValue)))))⟩,
      ⟨1, [0], .forEach [.cast (.column 0 .unknown) .long, .const (.int Int64.maxValue)]⟩,
      ⟨2, [1], .sort [0, 1] [true, false] none⟩,
      ⟨3, [2, 0], .cogroup [[0], []] (some 18446744073709551615)⟩]⟩

theorem parse?_print_intricate :
    intricate.Exact ∧ intricate.toJson.height ≤ 127 ∧ parse? intricate.print = some intricate := by
  have hexact : intricate.Exact := by decide
  have hdepth : intricate.toJson.height ≤ 127 := by decide
  exact ⟨hexact, hdepth, parse?_print hexact hdepth⟩

end PlanSpec
end Dataflow
