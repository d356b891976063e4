import Dataflow.Proofs.Eval.Denotation
import Dataflow.Proofs.Eval.Laziness
/-!
# Declared types

An expression declares the type of its values without being pulled.  All forms but one declare what
they produce, provided that columns do; a conditional declares the type of its first branch, whichever
branch its condition selects.  So a value has the type that is declared by the branch from which it
came, and this is the declared type of the whole expression if the branches agree.  A branch of the
unknown type, such as a null, has no say in this, because no value comes from it.

The induction is on expressions and not on their descriptions: which branch is selected is decided by
a pull, and that knows of nothing else.

**Proved here.**

    values that get through a step of a pull           (`Next.Gives.andThen`, `Next.Gives.withBoolean`)
    the type that the selected branch declares         (`Expr.gives_declared`)
    columns of what is built                           (`ExprSpec.ColumnsHold.build`)
    declared types and branches                        (`ExprSpec.build_declares`)
-/
namespace Dataflow

/-! ## Steps of a pull -/

/-- The value, if there is one, is in `P`. -/
def Next.Gives {α : Type} (P : α → Prop) (r : Next α) : Prop := ∀ a, r = .ok a → P a

section Steps
variable {α β : Type} {P : β → Prop}

theorem Next.Gives.endOfData : (Next.endOfData : Next β).Gives P := by
  rintro _ ⟨⟩

theorem Next.Gives.error (e : EvalError) : (Next.error e : Next β).Gives P := by
  rintro _ ⟨⟩

theorem Next.Gives.andThen {first : Next α} {next : α → Next β}
    (h : ∀ a, first = .ok a → (next a).Gives P) :
    Next.Gives P (Next.andThen (m := Id) first next) := by
  cases first with
  | ok a => exact h a rfl
  | _ => exact nofun

theorem Next.Gives.withBoolean {P : Value → Prop} {k : Key} {v : Value} {next : Bool → Next Value}
    (h : ∀ b, v = .boolean b → (next b).Gives P) :
    Next.Gives P (Expr.withBoolean (m := Id) k v next) := by
  cases v with
  | boolean b => exact h b rfl
  | _ => exact nofun

end Steps

namespace Expr

/-! ## Branches -/

/-- The expressions from which a value can come: the branches of a conditional, and those of the
conditionals in its branches. -/
def branches {L : Type} : Expr L → List (Expr L)
  | .cond _ _ yes no => yes.branches ++ no.branches
  | e => [e]

/-- The branch that is selected with a tuple. -/
def selected (t : Tuple) : Expr Empty → Expr Empty
  | .cond _ test yes no =>
    match test.eval t with
    | .ok (.boolean true) => yes.selected t
    | _ => no.selected t
  | e => e

theorem selected_mem_branches (t : Tuple) (e : Expr Empty) : e.selected t ∈ e.branches := by
  induction e with
  | cond k test yes no _ ihyes ihno =>
      simp only [selected, branches, List.mem_append]
      split
      · exact Or.inl ihyes
      · exact Or.inr ihno
  | _ => exact List.mem_singleton_self _

/-! ## The type of a value -/

/-- Every column refers to a field, and unless the field is null, it has the declared type. -/
def ColumnsHold {L : Type} (t : Tuple) (e : Expr L) : Prop :=
  ∀ k i type, .column k i type ∈ e.nodes → ∃ v, t[i]? = some v ∧ (v ≠ .null → v.dataType = type)

theorem ColumnsHold.part {L : Type} {t : Tuple} {e a : Expr L} (h : e.ColumnsHold t)
    (ha : a.nodes ⊆ e.nodes) : a.ColumnsHold t :=
  fun k i type hnode => h k i type (ha hnode)

/-- A value of a type. -/
def HasType (type : DataType) (v : Value) : Prop := v ≠ .null ∧ v.dataType = type

theorem gives_boolean (b : Bool) : (Next.ok (.boolean b)).Gives (HasType .boolean) := by
  rintro _ ⟨⟩
  exact ⟨Value.noConfusion, rfl⟩

theorem gives_nullTest (r : Next Value) : (nullTest r).Gives (HasType .boolean) := by
  cases r with
  | ok v => exact gives_boolean v.isNull
  | null => exact gives_boolean true
  | endOfData => exact .endOfData
  | error e => exact .error e

theorem gives_constantResult (v : Value) : (constantResult v).Gives fun w => w = v ∧ w ≠ .null := by
  intro w h
  cases v <;> cases h <;> exact ⟨rfl, Value.noConfusion⟩

/-- A value is never null, and it has the type that the selected branch declares. -/
theorem gives_declared {t : Tuple} {e : Expr Empty} (hcolumns : e.ColumnsHold t) :
    (e.eval t).Gives (HasType (e.selected t).resultType) := by
  induction e with
  | constant k c =>
      intro v h
      obtain ⟨rfl, hv⟩ := gives_constantResult c v h
      exact ⟨hv, rfl⟩
  | column k i type =>
      obtain ⟨w, hw, htype⟩ := hcolumns k i type (List.mem_singleton_self _)
      intro v h
      have h : columnResult k i t = .ok v := h
      rw [columnResult, hw] at h
      obtain ⟨rfl, hv⟩ := gives_constantResult w v h
      exact ⟨hv, htype hv⟩
  | operand l => exact l.elim
  | or k a b _ _ =>
      refine .andThen fun x _ => .withBoolean fun x _ => ?_
      cases x with
      | true => exact gives_boolean true
      | false => exact .andThen fun y _ => .withBoolean fun y _ => gives_boolean y
  | and k a b _ _ =>
      refine .andThen fun x _ => .withBoolean fun x _ => ?_
      cases x with
      | true => exact .andThen fun y _ => .withBoolean fun y _ => gives_boolean y
      | false => exact gives_boolean false
  | not k a _ => exact .andThen fun x _ => .withBoolean fun x _ => gives_boolean !x
  | compare k op a b _ _ =>
      refine .andThen fun x _ => .andThen fun y _ => ?_
      show (compareResult k op x y).Gives _
      unfold compareResult
      split
      · exact gives_boolean _
      · exact .error _
  | isNull k a _ => exact gives_nullTest (a.eval t)
  | cond k test yes no _ ihyes ihno =>
      refine .andThen fun x htest => .withBoolean fun x hx => ?_
      subst hx
      have htest : test.eval t = .ok (.boolean x) := htest
      rw [selected, htest]
      cases x with
      | true => exact ihyes (hcolumns.part fun _ h => by simp [nodes, h])
      | false => exact ihno (hcolumns.part fun _ h => by simp [nodes, h])
  | cast k a target ih =>
      refine .andThen fun x harg => ?_
      obtain ⟨hx, -⟩ := ih (hcolumns.part fun _ h => by simp [nodes, h]) x harg
      show (castResult k target x).Gives _
      unfold castResult
      split
      next w hw =>
        intro v h
        obtain ⟨rfl, hv⟩ := gives_constantResult w v h
        exact ⟨hv, Value.dataType_of_cast hx hw⟩
      · exact .error _

end Expr

namespace ExprSpec

/-! ## What is built -/

/-- Every column of a description refers to a field, and unless the field is null, it has the declared
type. -/
def ColumnsHold (t : Tuple) (e : ExprSpec) : Prop :=
  ∀ i type, .column i type ∈ e.nodes → ∃ v, t[i]? = some v ∧ (v ≠ .null → v.dataType = type)

theorem column_mem_nodes {L : Type} {k : Key} {i : Nat} {type : DataType} {e : ExprSpec}
    {s : KeySupply} (h : .column k i type ∈ (e.build s : Expr L × KeySupply).1.nodes) :
    .column i type ∈ e.nodes := by
  induction e generalizing s with
  | const v => simp [build, Expr.nodes] at h
  | column j t =>
      obtain ⟨-, rfl, rfl⟩ := Expr.column.inj (List.mem_singleton.mp h)
      exact List.mem_singleton_self _
  | or a b iha ihb =>
      simp only [build_or, Expr.nodes, List.mem_cons, List.mem_append, reduceCtorEq, false_or] at h
      simpa [nodes] using h.imp iha ihb
  | and a b iha ihb =>
      simp only [build_and, Expr.nodes, List.mem_cons, List.mem_append, reduceCtorEq, false_or] at h
      simpa [nodes] using h.imp iha ihb
  | not a ih =>
      simp only [build_not, Expr.nodes, List.mem_cons, reduceCtorEq, false_or] at h
      simpa [nodes] using ih h
  | compare op a b iha ihb =>
      simp only [build_compare, Expr.nodes, List.mem_cons, List.mem_append, reduceCtorEq,
        false_or] at h
      simpa [nodes] using h.imp iha ihb
  | isNull a ih =>
      simp only [build_isNull, Expr.nodes, List.mem_cons, reduceCtorEq, false_or] at h
      simpa [nodes] using ih h
  | binCond c a b ihc iha ihb =>
      simp only [build_binCond, Expr.nodes, List.mem_cons, List.mem_append, reduceCtorEq,
        false_or] at h
      simpa [nodes] using h.imp ihc (Or.imp iha ihb)
  | cast a t ih =>
      simp only [build_cast, Expr.nodes, List.mem_cons, reduceCtorEq, false_or] at h
      simpa [nodes] using ih h

theorem ColumnsHold.build {L : Type} {t : Tuple} {e : ExprSpec} (h : e.ColumnsHold t)
    (s : KeySupply) : (e.build s : Expr L × KeySupply).1.ColumnsHold t :=
  fun _ i type hnode => h i type (column_mem_nodes hnode)

/-- A value that is pulled from what was built has the type that is declared by the branch which was
selected.  That is the type which the whole declares, if all branches declare it or none. -/
theorem build_declares (e : ExprSpec) (s : KeySupply) {t : Tuple} (hcolumns : e.ColumnsHold t)
    {v : Value} :
    let built : Expr Empty := (e.build s).1
    built.eval t = .ok v →
      v.dataType = (built.selected t).resultType ∧
      built.selected t ∈ built.branches ∧
      ((∀ b ∈ built.branches, b.resultType = .unknown ∨ b.resultType = built.resultType) →
        v.dataType = built.resultType) := by
  intro built h
  obtain ⟨hv, htype⟩ := Expr.gives_declared (hcolumns.build s) v h
  have hmem := built.selected_mem_branches t
  refine ⟨htype, hmem, ?_⟩
  intro hagree
  rcases hagree _ hmem with hunknown | hsame
  · rw [hunknown] at htype
    exact absurd (Value.dataType_eq_unknown htype) hv
  · rw [htype, hsame]

/-- A word where the first field is null, a null where the second one is true, and else the first field
as a text. -/
def numeral : ExprSpec :=
  .binCond (.isNull (.column 0 .long)) (.const (.charArray "none"))
    (.binCond (.column 1 .boolean) (.const .null) (.cast (.column 0 .long) .charArray))

theorem numeral_declares : numeral.ColumnsHold [.long 7, .boolean false] ∧
    ((numeral.build ⟨"e", 1⟩).1 : Expr Empty).eval [.long 7, .boolean false] =
      .ok (.charArray "7") ∧
    (Value.charArray "7").dataType =
      ((numeral.build ⟨"e", 1⟩).1 : Expr Empty).resultType := by
  have hcolumns : numeral.ColumnsHold [.long 7, .boolean false] := by
    intro i type h
    have h : (i = 0 ∧ type = .long) ∨ (i = 1 ∧ type = .boolean) ∨ (i = 0 ∧ type = .long) := by
      simpa [numeral, nodes] using h
    rcases h with ⟨rfl, rfl⟩ | ⟨rfl, rfl⟩ | ⟨rfl, rfl⟩ <;> exact ⟨_, rfl, fun _ => rfl⟩
  have heval : ((numeral.build ⟨"e", 1⟩).1 : Expr Empty).eval [.long 7, .boolean false] =
      .ok (.charArray "7") := by cbv
  have hbranches : ((numeral.build ⟨"e", 1⟩).1 : Expr Empty).branches.map Expr.resultType =
      [.charArray, .unknown, .charArray] := rfl
  obtain ⟨-, -, hagree⟩ := build_declares numeral ⟨"e", 1⟩ hcolumns heval
  refine ⟨hcolumns, heval, hagree ?_⟩
  intro b hb
  have hb : b.resultType ∈ [DataType.charArray, .unknown, .charArray] :=
    hbranches ▸ List.mem_map_of_mem hb
  simp only [List.mem_cons, List.not_mem_nil, or_false] at hb
  rcases hb with hb | hb | hb
  · exact Or.inr hb
  · exact Or.inl hb
  · exact Or.inr hb

/-- A null where the first field is true, and else the second field. -/
def unlessFlagged : ExprSpec := .binCond (.column 0 .boolean) (.const .null) (.column 1 .long)

/-- A null as the first branch hides the type of the second one. -/
theorem unlessFlagged_undeclared : unlessFlagged.ColumnsHold [.boolean false, .long 7] ∧
    ((unlessFlagged.build ⟨"e", 1⟩).1 : Expr Empty).eval [.boolean false, .long 7] =
      .ok (.long 7) ∧
    (Value.long 7).dataType ≠ ((unlessFlagged.build ⟨"e", 1⟩).1 : Expr Empty).resultType := by
  refine ⟨?_, by cbv, by decide⟩
  intro i type h
  have h : (i = 0 ∧ type = .boolean) ∨ (i = 1 ∧ type = .long) := by
    simpa [unlessFlagged, nodes] using h
  rcases h with ⟨rfl, rfl⟩ | ⟨rfl, rfl⟩ <;> exact ⟨_, rfl, fun _ => rfl⟩

end ExprSpec
end Dataflow
