import Dataflow.Eval.ExprSpec
import Dataflow.Eval.Script
import Dataflow.Proofs.Value.Casting
import Mathlib.Data.List.Range
import Mathlib.Data.List.Nodup
/-!
# What a description computes

A description has a meaning that knows nothing of operators: a recursion over its syntax that is
given a tuple and the number of the topmost node.  Operators that were built from the description
compute this meaning on every pull, whatever was pulled before and whatever state surrounds them,
because no built operator asks for an operand from outside.

The induction carries two facts along: no value is null, and every error is raised by the node whose
key it names.  Without the first, a null test and a cast would not agree with their meaning.

**Proved here.**

    keys are drawn along the nodes, each before its operands     (`map_key_nodes_build`)
    no null value, and errors of nodes only                      (`denote_meets`)
    a pull gives the meaning                                     (`pull_build`)
    all of it, after any pulls                                   (`ExprSpec.build_denotes`)
-/
namespace Dataflow

/-- How the evaluation of a description ends: with a value, with a null or with an error. -/
inductive Denoted (α : Type) where
  | value (a : α)
  | null
  | error (e : EvalError)

namespace Denoted

variable {α β : Type}

/-- Goes on with a value; anything else is the end. -/
def bind : Denoted α → (α → Denoted β) → Denoted β
  | .value a, next => next a
  | .null, _ => .null
  | .error e, _ => .error e

instance : Monad Denoted where
  pure := .value
  bind := bind

/-- The result of a pull that ends in this way. -/
def toNext : Denoted α → Next α
  | .value a => .ok a
  | .null => .null
  | .error e => .error e

/-- Values are in `P` and errors in `E`. -/
structure Meets (E : EvalError → Prop) (P : α → Prop) (r : Denoted α) : Prop where
  value : ∀ a, r = .value a → P a
  error : ∀ e, r = .error e → E e

section Meets
variable {E : EvalError → Prop} {P : α → Prop} {Q : β → Prop}

theorem Meets.ofValue {a : α} (ha : P a) : Meets E P (.value a) := by
  refine ⟨?_, nofun⟩
  intro _ h
  cases h
  exact ha

theorem Meets.ofNull : Meets E P .null := ⟨nofun, nofun⟩

theorem Meets.ofError {e : EvalError} (he : E e) : Meets E P (.error e) := by
  refine ⟨nofun, ?_⟩
  intro _ h
  cases h
  exact he

theorem Meets.bind {r : Denoted α} {next : α → Denoted β} (hr : Meets E P r)
    (hnext : ∀ a, P a → Meets E Q (next a)) : Meets E Q (r >>= next) := by
  cases r with
  | value a => exact hnext a (hr.value a rfl)
  | null => exact .ofNull
  | error e => exact .ofError (hr.error e rfl)

theorem Meets.mono {E' : EvalError → Prop} {r : Denoted α} (hr : Meets E P r)
    (h : ∀ e, E e → E' e) : Meets E' P r :=
  ⟨hr.value, fun e he => h e (hr.error e he)⟩

theorem Meets.toNext {r : Denoted α} (hr : Meets E P r) :
    r.toNext ≠ .endOfData ∧ (∀ a, r.toNext = .ok a → P a) ∧ ∀ e, r.toNext = .error e → E e := by
  cases r with
  | value a =>
      refine ⟨nofun, ?_, nofun⟩
      rintro _ ⟨⟩
      exact hr.value a rfl
  | null => exact ⟨nofun, nofun, nofun⟩
  | error e =>
      refine ⟨nofun, nofun, ?_⟩
      rintro _ ⟨⟩
      exact hr.error e rfl

end Meets
end Denoted

namespace ExprSpec

/-! ## The meaning -/

/-- The truth value of an operand of the node `k`. -/
def truth (k : Key) : Value → Denoted Bool
  | .boolean b => .value b
  | v => .error (.typeMismatch k .boolean v.dataType)

/-- What a description comes to on a tuple.  Its nodes are numbered from `n` on, a node before its
operands and operands from left to right. -/
def denote (scope : String) (n : Nat) : ExprSpec → Tuple → Denoted Value
  | .const .null, _ => .null
  | .const v, _ => .value (Value.ofLiteral v)
  | .column i _, t =>
    match t[i]? with
    | none => .error (.columnOutOfRange ⟨scope, n⟩ i t.length)
    | some .null => .null
    | some v => .value v
  | .or a b, t => do
    let x ← truth ⟨scope, n⟩ (← a.denote scope (n + 1) t)
    if x then return .boolean true
    else return .boolean (← truth ⟨scope, n⟩ (← b.denote scope (n + 1 + a.size) t))
  | .and a b, t => do
    let x ← truth ⟨scope, n⟩ (← a.denote scope (n + 1) t)
    if x then return .boolean (← truth ⟨scope, n⟩ (← b.denote scope (n + 1 + a.size) t))
    else return .boolean false
  | .not a, t => do return .boolean !(← truth ⟨scope, n⟩ (← a.denote scope (n + 1) t))
  | .compare op a b, t => do
    let x ← a.denote scope (n + 1) t
    let y ← b.denote scope (n + 1 + a.size) t
    match x.compare y with
    | some o => .value (.boolean (op.holds o))
    | none => .error (.incomparable ⟨scope, n⟩ x.dataType y.dataType)
  | .isNull a, t =>
    match a.denote scope (n + 1) t with
    | .value _ => .value (.boolean false)
    | .null => .value (.boolean true)
    | .error e => .error e
  | .binCond c a b, t => do
    let x ← truth ⟨scope, n⟩ (← c.denote scope (n + 1) t)
    if x then a.denote scope (n + 1 + c.size) t
    else b.denote scope (n + 1 + c.size + a.size) t
  | .cast a target, t => do
    match (← a.denote scope (n + 1) t).cast target with
    | .ok v => .value v
    | .error reason => .error (.failed ⟨scope, n⟩ reason)

def nodes : ExprSpec → List ExprSpec
  | .const v => [.const v]
  | .column i t => [.column i t]
  | .or a b => .or a b :: (a.nodes ++ b.nodes)
  | .and a b => .and a b :: (a.nodes ++ b.nodes)
  | .not a => .not a :: a.nodes
  | .compare op a b => .compare op a b :: (a.nodes ++ b.nodes)
  | .isNull a => .isNull a :: a.nodes
  | .binCond c a b => .binCond c a b :: (c.nodes ++ (a.nodes ++ b.nodes))
  | .cast a t => .cast a t :: a.nodes

theorem length_nodes (e : ExprSpec) : e.nodes.length = e.size := by
  induction e with
  | const v => rfl
  | column i t => rfl
  | or a b iha ihb => simp [nodes, size, iha, ihb]
  | and a b iha ihb => simp [nodes, size, iha, ihb]
  | not a ih => simp [nodes, size, ih]
  | compare op a b iha ihb => simp [nodes, size, iha, ihb]
  | isNull a ih => simp [nodes, size, ih]
  | binCond c a b ihc iha ihb => simp [nodes, size, ihc, iha, ihb, Nat.add_assoc]
  | cast a t ih => simp [nodes, size, ih]

/-- The errors that a node raises itself, rather than passing them on from an operand. -/
inductive Raises : ExprSpec → EvalError → Prop
  | column {i : Nat} {type : DataType} {k : Key} {width : Nat} :
      Raises (.column i type) (.columnOutOfRange k i width)
  | or {a b : ExprSpec} {k : Key} {found : DataType} :
      Raises (.or a b) (.typeMismatch k .boolean found)
  | and {a b : ExprSpec} {k : Key} {found : DataType} :
      Raises (.and a b) (.typeMismatch k .boolean found)
  | not {a : ExprSpec} {k : Key} {found : DataType} :
      Raises (.not a) (.typeMismatch k .boolean found)
  | compare {op : CompareOp} {a b : ExprSpec} {k : Key} {lhs rhs : DataType} :
      Raises (.compare op a b) (.incomparable k lhs rhs)
  | binCond {c a b : ExprSpec} {k : Key} {found : DataType} :
      Raises (.binCond c a b) (.typeMismatch k .boolean found)
  | cast {a : ExprSpec} {target : DataType} {k : Key} {reason : String} :
      Raises (.cast a target) (.failed k reason)

/-- The error comes from some node, and it names the key of that node: the first number plus the
position of the node. -/
def RaisedIn (scope : String) (n : Nat) (e : ExprSpec) (err : EvalError) : Prop :=
  ∃ i node, e.nodes[i]? = some node ∧ node.Raises err ∧ err.operator = ⟨scope, n + i⟩

section Raised
variable {scope : String} {n : Nat} {e : ExprSpec} {err : EvalError}

theorem RaisedIn.self {rest : List ExprSpec} (hnodes : e.nodes = e :: rest) (h : e.Raises err)
    (hkey : err.operator = ⟨scope, n⟩) : RaisedIn scope n e err :=
  ⟨0, e, by rw [hnodes]; rfl, h, hkey⟩

/-- The nodes of an operand stand behind those that come before it. -/
theorem RaisedIn.operand {a : ExprSpec} {before after : List ExprSpec}
    (hnodes : e.nodes = before ++ (a.nodes ++ after)) (h : RaisedIn scope (n + before.length) a err) :
    RaisedIn scope n e err := by
  obtain ⟨i, node, hi, hraises, hkey⟩ := h
  refine ⟨before.length + i, node, ?_, hraises, ?_⟩
  · have hlt : i < a.nodes.length := (List.getElem?_eq_some_iff.mp hi).1
    rw [hnodes, List.getElem?_append_right (by omega), Nat.add_sub_cancel_left,
      List.getElem?_append_left hlt, hi]
  · rw [hkey, Nat.add_assoc]

end Raised

section Meaning
variable {scope : String} {n : Nat}

theorem truth_meets {E : EvalError → Prop} {k : Key}
    (h : ∀ found, E (.typeMismatch k .boolean found)) (v : Value) :
    (truth k v).Meets E fun _ => True := by
  cases v with
  | boolean b => exact .ofValue trivial
  | _ => exact .ofError (h _)

theorem meets_boolean {E : EvalError → Prop} {r : Denoted Bool} {f : Bool → Bool}
    (hr : r.Meets E fun _ => True) :
    (r >>= fun x => pure (Value.boolean (f x))).Meets E (· ≠ .null) :=
  hr.bind fun _ _ => .ofValue Value.noConfusion

/-- An operand is numbered behind the nodes before it, and what it raises is raised in the whole. -/
theorem RaisedIn.meets {e a : ExprSpec} (before after : List ExprSpec) {m : Nat}
    {r : Denoted Value} (hnodes : e.nodes = before ++ (a.nodes ++ after))
    (h : r.Meets (RaisedIn scope m a) (· ≠ .null)) (hm : m = n + before.length) :
    r.Meets (RaisedIn scope n e) (· ≠ .null) := by
  subst hm
  exact h.mono fun _ => .operand hnodes

/-- No value is null, and every error names the node that raises it. -/
theorem denote_meets (e : ExprSpec) (scope : String) (n : Nat) (t : Tuple) :
    (e.denote scope n t).Meets (RaisedIn scope n e) (· ≠ .null) := by
  induction e generalizing n with
  | const v =>
      cases v with
      | null => exact .ofNull
      | _ => exact .ofValue Value.noConfusion
  | column i type =>
      simp only [denote]
      split
      · exact .ofError (.self rfl .column rfl)
      · exact .ofNull
      next v hv _ =>
        refine .ofValue ?_
        rintro rfl
        exact hv rfl
  | or a b iha ihb =>
      have ha := RaisedIn.meets (e := .or a b) [.or a b] b.nodes rfl (iha (n + 1)) rfl
      have hb := RaisedIn.meets (n := n) (e := .or a b) (.or a b :: a.nodes) []
        (by simp [nodes]) (ihb (n + 1 + a.size)) (by simp [length_nodes]; omega)
      have htruth := truth_meets (k := ⟨scope, n⟩) fun _ =>
        RaisedIn.self (e := .or a b) rfl .or rfl
      refine ha.bind fun x _ => (htruth x).bind fun x _ => ?_
      cases x with
      | true => exact .ofValue Value.noConfusion
      | false => exact hb.bind fun y _ => meets_boolean (htruth y)
  | and a b iha ihb =>
      have ha := RaisedIn.meets (e := .and a b) [.and a b] b.nodes rfl (iha (n + 1)) rfl
      have hb := RaisedIn.meets (n := n) (e := .and a b) (.and a b :: a.nodes) []
        (by simp [nodes]) (ihb (n + 1 + a.size)) (by simp [length_nodes]; omega)
      have htruth := truth_meets (k := ⟨scope, n⟩) fun _ =>
        RaisedIn.self (e := .and a b) rfl .and rfl
      refine ha.bind fun x _ => (htruth x).bind fun x _ => ?_
      cases x with
      | true => exact hb.bind fun y _ => meets_boolean (htruth y)
      | false => exact .ofValue Value.noConfusion
  | not a ih =>
      have ha := RaisedIn.meets (e := .not a) [.not a] [] (by simp [nodes])
        (ih (n + 1)) rfl
      have htruth := truth_meets (k := ⟨scope, n⟩) fun _ =>
        RaisedIn.self (e := .not a) rfl .not rfl
      exact ha.bind fun x _ => meets_boolean (htruth x)
  | compare op a b iha ihb =>
      have ha := RaisedIn.meets (e := .compare op a b) [.compare op a b] b.nodes rfl
        (iha (n + 1)) rfl
      have hb := RaisedIn.meets (n := n) (e := .compare op a b) (.compare op a b :: a.nodes) []
        (by simp [nodes]) (ihb (n + 1 + a.size)) (by simp [length_nodes]; omega)
      refine ha.bind fun x _ => hb.bind fun y _ => ?_
      split
      · exact .ofValue Value.noConfusion
      · exact .ofError (.self rfl .compare rfl)
  | isNull a ih =>
      have ha := RaisedIn.meets (e := .isNull a) [.isNull a] [] (by simp [nodes])
        (ih (n + 1)) rfl
      simp only [denote]
      split
      · exact .ofValue Value.noConfusion
      · exact .ofValue Value.noConfusion
      next err herr => exact .ofError (ha.error err herr)
  | binCond c a b ihc iha ihb =>
      have hc := RaisedIn.meets (e := .binCond c a b) [.binCond c a b] (a.nodes ++ b.nodes) rfl
        (ihc (n + 1)) rfl
      have ha := RaisedIn.meets (n := n) (e := .binCond c a b) (.binCond c a b :: c.nodes) b.nodes
        rfl (iha (n + 1 + c.size)) (by simp [length_nodes]; omega)
      have hb := RaisedIn.meets (n := n) (e := .binCond c a b)
        (.binCond c a b :: (c.nodes ++ a.nodes)) [] (by simp [nodes])
        (ihb (n + 1 + c.size + a.size)) (by simp [length_nodes]; omega)
      have htruth := truth_meets (k := ⟨scope, n⟩) fun _ =>
        RaisedIn.self (e := .binCond c a b) rfl .binCond rfl
      refine hc.bind fun x _ => (htruth x).bind fun x _ => ?_
      cases x with
      | true => exact ha
      | false => exact hb
  | cast a target ih =>
      have ha := RaisedIn.meets (e := .cast a target) [.cast a target] []
        (by simp [nodes]) (ih (n + 1)) rfl
      refine ha.bind fun x hx => ?_
      split
      next w hw => exact .ofValue (Value.cast_ne_null hx hw)
      · exact .ofError (.self rfl .cast rfl)

end Meaning

/-! ## What is built -/

end ExprSpec

/-- The operators of an expression, each before its operands. -/
def Expr.nodes {L : Type} : Expr L → List (Expr L)
  | .constant k v => [.constant k v]
  | .column k i t => [.column k i t]
  | .operand l => [.operand l]
  | .or k a b => .or k a b :: (a.nodes ++ b.nodes)
  | .and k a b => .and k a b :: (a.nodes ++ b.nodes)
  | .not k a => .not k a :: a.nodes
  | .compare k op a b => .compare k op a b :: (a.nodes ++ b.nodes)
  | .isNull k a => .isNull k a :: a.nodes
  | .cond k c a b => .cond k c a b :: (c.nodes ++ (a.nodes ++ b.nodes))
  | .cast k a t => .cast k a t :: a.nodes

namespace KeySupply

def skip (s : KeySupply) (n : Nat) : KeySupply := { s with next := s.next + n }

theorem skip_skip (s : KeySupply) (m n : Nat) : (s.skip m).skip n = s.skip (m + n) := by
  simp [skip, Nat.add_assoc]

theorem take_succ (n : Nat) (s : KeySupply) :
    take (n + 1) s = ⟨s.scope, s.next⟩ :: take n (s.skip 1) := rfl

theorem take_add (m n : Nat) (s : KeySupply) : take (m + n) s = take m s ++ take n (s.skip m) := by
  induction m generalizing s with
  | zero => simp [take, skip]
  | succ m ih => rw [Nat.succ_add, take_succ, take_succ, ih, skip_skip, Nat.add_comm 1 m,
      List.cons_append]

theorem take_eq_map_range (n : Nat) (s : KeySupply) :
    take n s = (List.range n).map fun i => ⟨s.scope, s.next + i⟩ := by
  induction n generalizing s with
  | zero => rfl
  | succ n ih =>
      simp [take_succ, ih, skip, List.range_succ_eq_map, Function.comp_def, Nat.add_assoc,
        Nat.add_comm 1]

theorem nodup_take (n : Nat) (s : KeySupply) : (take n s).Nodup := by
  rw [take_eq_map_range]
  refine List.nodup_range.map ?_
  intro i j h
  simpa using h

end KeySupply

namespace ExprSpec

section Building
variable {L : Type}

theorem snd_build (e : ExprSpec) (s : KeySupply) :
    (e.build s : Expr L × KeySupply).2 = s.skip e.size := by
  have hone : ∀ (a : ExprSpec) (s : KeySupply),
      (∀ s, (a.build s : Expr L × KeySupply).2 = s.skip a.size) →
      (a.build s.draw.2 : Expr L × KeySupply).2 = s.skip (a.size + 1) := by
    intro a s ha
    rw [ha, Nat.add_comm]
    exact s.skip_skip 1 a.size
  have htwo : ∀ (a b : ExprSpec) (s : KeySupply),
      (∀ s, (a.build s : Expr L × KeySupply).2 = s.skip a.size) →
      (∀ s, (b.build s : Expr L × KeySupply).2 = s.skip b.size) →
      (b.build (a.build s.draw.2 : Expr L × KeySupply).2 : Expr L × KeySupply).2 =
        s.skip (a.size + b.size + 1) := by
    intro a b s ha hb
    rw [hb, hone a s ha, KeySupply.skip_skip, Nat.add_right_comm]
  induction e generalizing s with
  | const v => rfl
  | column i t => rfl
  | or a b iha ihb => exact htwo a b s iha ihb
  | and a b iha ihb => exact htwo a b s iha ihb
  | not a ih => exact hone a s ih
  | compare op a b iha ihb => exact htwo a b s iha ihb
  | isNull a ih => exact hone a s ih
  | binCond c a b ihc iha ihb =>
      show (b.build (a.build (c.build s.draw.2 : Expr L × KeySupply).2 : Expr L × KeySupply).2 :
        Expr L × KeySupply).2 = _
      rw [ihb, htwo c a s ihc iha, KeySupply.skip_skip, Nat.add_right_comm]
      rfl
  | cast a t ih => exact hone a s ih

/-! The operators of a form: the node draws the first key, then the operands theirs. -/

theorem build_or (a b : ExprSpec) (s : KeySupply) :
    ((or a b).build s : Expr L × KeySupply).1 =
      .or ⟨s.scope, s.next⟩ (a.build (s.skip 1)).1 (b.build ((s.skip 1).skip a.size)).1 := by
  rw [← snd_build (L := L)]
  rfl

theorem build_and (a b : ExprSpec) (s : KeySupply) :
    ((and a b).build s : Expr L × KeySupply).1 =
      .and ⟨s.scope, s.next⟩ (a.build (s.skip 1)).1 (b.build ((s.skip 1).skip a.size)).1 := by
  rw [← snd_build (L := L)]
  rfl

theorem build_not (a : ExprSpec) (s : KeySupply) :
    ((not a).build s : Expr L × KeySupply).1 = .not ⟨s.scope, s.next⟩ (a.build (s.skip 1)).1 := rfl

theorem build_compare (op : CompareOp) (a b : ExprSpec) (s : KeySupply) :
    ((compare op a b).build s : Expr L × KeySupply).1 =
      .compare ⟨s.scope, s.next⟩ op (a.build (s.skip 1)).1 (b.build ((s.skip 1).skip a.size)).1 := by
  rw [← snd_build (L := L)]
  rfl

theorem build_isNull (a : ExprSpec) (s : KeySupply) :
    ((isNull a).build s : Expr L × KeySupply).1 =
      .isNull ⟨s.scope, s.next⟩ (a.build (s.skip 1)).1 := rfl

theorem build_binCond (c a b : ExprSpec) (s : KeySupply) :
    ((binCond c a b).build s : Expr L × KeySupply).1 =
      .cond ⟨s.scope, s.next⟩ (c.build (s.skip 1)).1 (a.build ((s.skip 1).skip c.size)).1
        (b.build (((s.skip 1).skip c.size).skip a.size)).1 := by
  rw [← snd_build (L := L) c, ← snd_build (L := L) a]
  rfl

theorem build_cast (a : ExprSpec) (target : DataType) (s : KeySupply) :
    ((cast a target).build s : Expr L × KeySupply).1 =
      .cast ⟨s.scope, s.next⟩ (a.build (s.skip 1)).1 target := rfl

theorem map_key_nodes_build [Operand L] (e : ExprSpec) (s : KeySupply) :
    (e.build s : Expr L × KeySupply).1.nodes.map Expr.key = s.take e.size := by
  have htwo : ∀ (m n : Nat) (s : KeySupply), s.take (m + n + 1) =
      ⟨s.scope, s.next⟩ :: ((s.skip 1).take m ++ ((s.skip 1).skip m).take n) := by
    intro m n s
    rw [KeySupply.take_succ, KeySupply.take_add]
  induction e generalizing s with
  | const v => rfl
  | column i t => rfl
  | or a b iha ihb => simp [build_or, Expr.nodes, Expr.key, iha, ihb, size, htwo]
  | and a b iha ihb => simp [build_and, Expr.nodes, Expr.key, iha, ihb, size, htwo]
  | not a ih => simp [build_not, Expr.nodes, Expr.key, ih, size, KeySupply.take_succ]
  | compare op a b iha ihb => simp [build_compare, Expr.nodes, Expr.key, iha, ihb, size, htwo]
  | isNull a ih => simp [build_isNull, Expr.nodes, Expr.key, ih, size, KeySupply.take_succ]
  | binCond c a b ihc iha ihb =>
      rw [build_binCond, Expr.nodes, size, htwo, KeySupply.take_add, ← KeySupply.skip_skip]
      simp [Expr.key, ihc, iha, ihb]
  | cast a t ih => simp [build_cast, Expr.nodes, Expr.key, ih, size, KeySupply.take_succ]

end Building

/-! ## Pulls -/

section Pulls
variable {L : Type} {m : Type → Type} [Monad m] [LawfulMonad m]

theorem andThen_pure {α β : Type} {r : Denoted α} {next : α → m (Next β)} {f : α → Denoted β}
    (h : ∀ a, r = .value a → next a = pure (f a).toNext) :
    Next.andThen (pure r.toNext) next = pure (r >>= f).toNext := by
  rw [Next.andThen, pure_bind]
  cases r with
  | value a => exact h a rfl
  | null => rfl
  | error e => rfl

omit [LawfulMonad m] in
theorem withBoolean_pure {k : Key} {v : Value} {next : Bool → m (Next Value)}
    {f : Bool → Denoted Value} (h : ∀ b, next b = pure (f b).toNext) :
    Expr.withBoolean k v next = pure (truth k v >>= f).toNext := by
  cases v with
  | boolean b => exact h b
  | _ => rfl

/-- A pull gives what the description means. -/
theorem pull_build (ask : L → Tuple → m (Next Value)) (e : ExprSpec) (s : KeySupply) (t : Tuple) :
    (e.build s).1.pull ask t = pure (e.denote s.scope s.next t).toNext := by
  induction e generalizing s with
  | const v => cases v <;> rfl
  | column i type =>
      show pure (Expr.columnResult ⟨s.scope, s.next⟩ i t) = _
      simp only [Expr.columnResult, denote]
      cases t[i]? with
      | none => rfl
      | some v => cases v <;> rfl
  | or a b iha ihb =>
      rw [build_or, Expr.pull, iha, denote]
      refine andThen_pure fun x _ => withBoolean_pure fun x => ?_
      cases x with
      | true => rfl
      | false =>
          show Next.andThen ((b.build ((s.skip 1).skip a.size)).1.pull ask t) _ = _
          rw [ihb]
          refine andThen_pure fun y _ => withBoolean_pure fun z => ?_
          rfl
  | and a b iha ihb =>
      rw [build_and, Expr.pull, iha, denote]
      refine andThen_pure fun x _ => withBoolean_pure fun x => ?_
      cases x with
      | true =>
          show Next.andThen ((b.build ((s.skip 1).skip a.size)).1.pull ask t) _ = _
          rw [ihb]
          exact andThen_pure fun y _ => withBoolean_pure fun _ => rfl
      | false => rfl
  | not a ih =>
      rw [build_not, Expr.pull, ih, denote]
      exact andThen_pure fun x _ => withBoolean_pure fun _ => rfl
  | compare op a b iha ihb =>
      rw [build_compare, Expr.pull, iha, denote]
      refine andThen_pure fun x _ => ?_
      rw [ihb]
      refine andThen_pure fun y _ => ?_
      simp only [Expr.compareResult]
      cases x.compare y <;> rfl
  | isNull a ih =>
      have hnull := (denote_meets a s.scope (s.next + 1) t).value
      rw [build_isNull, Expr.pull, ih, pure_bind, denote]
      cases h : a.denote s.scope (s.next + 1) t with
      | value v =>
          cases v with
          | null => exact absurd rfl (hnull _ h)
          | _ => simp [KeySupply.skip, h, Denoted.toNext, Value.isNull]
      | null => simp [KeySupply.skip, h, Denoted.toNext]
      | error err => simp [KeySupply.skip, h, Denoted.toNext]
  | binCond c a b ihc iha ihb =>
      rw [build_binCond, Expr.pull, ihc, denote]
      refine andThen_pure fun x _ => withBoolean_pure fun x => ?_
      cases x with
      | true => exact iha _
      | false => exact ihb _
  | cast a target ih =>
      rw [build_cast, Expr.pull, ih, denote]
      refine andThen_pure fun x hx => ?_
      have hnull := (denote_meets a s.scope (s.next + 1) t).value x hx
      simp only [Expr.castResult]
      cases hcast : x.cast target with
      | ok w =>
          have hw := Value.cast_ne_null hnull hcast
          cases w with
          | null => exact absurd rfl hw
          | _ => rfl
      | error reason => rfl

end Pulls

/-- The keys of what is built are fresh and numbered along the nodes, and the supply goes on behind
them.  After any pulls, in any surroundings, a pull gives what the description means; it never ends
the data, never gives a null as a value, and an error names the node that raises it. -/
theorem build_denotes {L : Type} [Operand L] {m : Type → Type} [Monad m] [LawfulMonad m]
    (ask : L → Tuple → m (Next Value)) (e : ExprSpec) (s : KeySupply) :
    let built : Expr L × KeySupply := e.build s
    let meaning (t : Tuple) : Next Value := (e.denote s.scope s.next t).toNext
    built.2 = ⟨s.scope, s.next + e.size⟩ ∧
    built.1.nodes.map Expr.key = (List.range e.size).map (fun i => ⟨s.scope, s.next + i⟩) ∧
    (built.1.nodes.map Expr.key).Nodup ∧
    (∀ (earlier : List Tuple) (t : Tuple),
      (do
        let before ← earlier.mapM (built.1.pull ask)
        let now ← built.1.pull ask t
        return (before, now)) = pure (earlier.map meaning, meaning t)) ∧
    ∀ t, meaning t ≠ .endOfData ∧ meaning t ≠ .ok .null ∧
      ∀ err, meaning t = .error err → RaisedIn s.scope s.next e err := by
  refine ⟨snd_build e s, ?_, ?_, ?_, ?_⟩
  · rw [map_key_nodes_build, KeySupply.take_eq_map_range]
  · rw [map_key_nodes_build]
    exact KeySupply.nodup_take e.size s
  · intro earlier t
    have hpull : (e.build s).1.pull ask = fun t => pure (e.denote s.scope s.next t).toNext :=
      funext (pull_build ask e s)
    simp [hpull, List.mapM_pure]
  · intro t
    obtain ⟨hend, hvalue, herror⟩ := (denote_meets e s.scope s.next t).toNext
    refine ⟨hend, ?_, herror⟩
    intro h
    exact hvalue _ h rfl

/-- The first field where the second one is null, and else the negation of the first field. -/
def guarded : ExprSpec :=
  .binCond (.isNull (.column 1 .unknown)) (.column 0 .unknown) (.not (.column 0 .unknown))

/-- A whole number can be given back, but not be negated. -/
theorem guarded_denotes :
    (do
      let before ← [[.long 7, .null]].mapM ((guarded.build ⟨"e", 5⟩).1.pull Script.ask)
      let now ← (guarded.build ⟨"e", 5⟩).1.pull Script.ask [.long 7, .long 1]
      return (before, now) : StateM (List Script) (List (Next Value) × Next Value)) =
      pure ([.ok (.long 7)], .error (.typeMismatch ⟨"e", 9⟩ .boolean .long)) ∧
    RaisedIn "e" 5 guarded (.typeMismatch ⟨"e", 9⟩ .boolean .long) := by
  obtain ⟨-, -, -, hpull, hmeets⟩ := build_denotes Script.ask guarded ⟨"e", 5⟩
  exact ⟨hpull [[.long 7, .null]] [.long 7, .long 1], (hmeets [.long 7, .long 1]).2.2 _ rfl⟩

end ExprSpec

end Dataflow
