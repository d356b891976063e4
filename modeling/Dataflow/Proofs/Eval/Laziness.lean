import Mathlib.Data.List.Range
import Dataflow.Eval.Expr
import Dataflow.Proofs.Plan.Building
/-!
# Which leaves a pull asks

A pull of a tree asks its leaves, the constants, columns and operands from outside, from left to
right.  The tree is taken with its leaves numbered in this order (`Expr.posed`), so that each pull of a
leaf can be put on record.

What is on record is compared with two recursions over the tree that know of no states and pull
nothing: if each leaf would answer by its number, then these leaves are asked (`Expr.asked`) and this
is the result (`Expr.given`).  A record has no number twice, so it says itself how each leaf has answered, and the
comparison applies to it (`Expr.traces_posed`).  The laws are then laws of the recursion.  In each of
them a node asks its first operand, and behind that operand the ones that its value calls for; a signal
of the first operand leaves nothing behind it.

**Proved here.**

    a pull on record asks and gives what the recursion says   (`Expr.traces_posed`)
    what ends a pull is its last leaf and its result          (`Expr.halting_asked`)
    a node asks only the operands that it needs               (`Expr.needed_asked`)
    all of it, of the record of a pull                        (`Expr.pull_failFast`)
-/
namespace Dataflow

/-- The end of the data and an error, which no expression absorbs. -/
def Next.stops {α : Type} : Next α → Bool
  | .endOfData => true
  | .error _ => true
  | .ok _ => false
  | .null => false

/-- The pull of a leaf: its number, and what it gave. -/
structure LeafPull where
  leaf : Nat
  result : Next Value

/-- A state, and the pulls of leaves on the way to it. -/
structure Traced (S : Type) where
  state : S
  pulls : List LeafPull

/-- How the leaves have answered, by their numbers. -/
def answers (pulls : List LeafPull) (i : Nat) : Next Value :=
  ((pulls.find? fun p => p.leaf = i).map LeafPull.result).getD .null

namespace Expr

variable {L S : Type}

/-! ## Trees with numbered leaves -/

def width : Expr L → Nat
  | .constant _ _ => 1
  | .column _ _ _ => 1
  | .operand _ => 1
  | .or _ a b => a.width + b.width
  | .and _ a b => a.width + b.width
  | .not _ a => a.width
  | .compare _ _ a b => a.width + b.width
  | .isNull _ a => a.width
  | .cond _ c a b => c.width + (a.width + b.width)
  | .cast _ a _ => a.width

theorem width_pos (e : Expr L) : 0 < e.width := by
  induction e with
  | constant | column | operand => exact Nat.one_pos
  | or k a b iha _ | and k a b iha _ | compare k op a b iha _ => exact Nat.add_pos_left iha _
  | cond k c a b ihc _ _ => exact Nat.add_pos_left ihc _
  | not k a ih | isNull k a ih | cast k a target ih => exact ih

/-- The tree over its leaves, which are numbered from `n` on. -/
def posed : Expr L → Nat → Expr (Nat × Expr L)
  | .constant k v, n => .operand (n, .constant k v)
  | .column k i type, n => .operand (n, .column k i type)
  | .operand l, n => .operand (n, .operand l)
  | .or k a b, n => .or k (a.posed n) (b.posed (n + a.width))
  | .and k a b, n => .and k (a.posed n) (b.posed (n + a.width))
  | .not k a, n => .not k (a.posed n)
  | .compare k op a b, n => .compare k op (a.posed n) (b.posed (n + a.width))
  | .isNull k a, n => .isNull k (a.posed n)
  | .cond k c a b, n =>
    .cond k (c.posed n) (a.posed (n + c.width)) (b.posed (n + c.width + a.width))
  | .cast k a target, n => .cast k (a.posed n) target

/-- Pulls a leaf and puts it on record. -/
def askLeaf (ask : L → Tuple → StateM S (Next Value)) (leaf : Nat × Expr L) (t : Tuple) :
    StateM (Traced S) (Next Value) := fun s =>
  let (r, state) := leaf.2.pull ask t s.state
  (r, ⟨state, s.pulls ++ [⟨leaf.1, r⟩]⟩)

/-- What is asked behind a truth value. -/
def onBoolean (r : Next Value) (later : Bool → List Nat) : List Nat :=
  match r with
  | .ok (.boolean b) => later b
  | _ => []

/-- What is asked behind a value. -/
def onValue (r : Next Value) (later : List Nat) : List Nat :=
  match r with
  | .ok _ => later
  | _ => []

/-- The result behind a truth value, which the node `k` needs. -/
def whenBoolean (k : Key) (r : Next Value) (result : Bool → Next Value) : Next Value :=
  match r with
  | .ok (.boolean b) => result b
  | .ok v => .error (.typeMismatch k .boolean v.dataType)
  | .endOfData => .endOfData
  | .null => .null
  | .error e => .error e

/-- The result behind a value. -/
def whenValue (r : Next Value) (result : Value → Next Value) : Next Value :=
  match r with
  | .ok v => result v
  | .endOfData => .endOfData
  | .null => .null
  | .error e => .error e

def nullTest : Next Value → Next Value
  | .null => .ok (.boolean true)
  | .ok v => .ok (.boolean v.isNull)
  | .endOfData => .endOfData
  | .error e => .error e

/-- What the tree comes to, if each leaf answers by its number. -/
def given (answer : Nat → Next Value) : Expr L → Nat → Next Value
  | .constant _ _, n => answer n
  | .column _ _ _, n => answer n
  | .operand _, n => answer n
  | .or k a b, n => whenBoolean k (a.given answer n) fun x =>
    if x then .ok (.boolean true)
    else whenBoolean k (b.given answer (n + a.width)) fun y => .ok (.boolean y)
  | .and k a b, n => whenBoolean k (a.given answer n) fun x =>
    if x then whenBoolean k (b.given answer (n + a.width)) fun y => .ok (.boolean y)
    else .ok (.boolean false)
  | .not k a, n => whenBoolean k (a.given answer n) fun x => .ok (.boolean !x)
  | .compare k op a b, n => whenValue (a.given answer n) fun x =>
    whenValue (b.given answer (n + a.width)) fun y => compareResult k op x y
  | .isNull _ a, n => nullTest (a.given answer n)
  | .cond k c a b, n => whenBoolean k (c.given answer n) fun x =>
    if x then a.given answer (n + c.width) else b.given answer (n + c.width + a.width)
  | .cast k a target, n => whenValue (a.given answer n) fun v => castResult k target v

/-- The leaves that are asked, if each leaf answers by its number. -/
def asked (answer : Nat → Next Value) : Expr L → Nat → List Nat
  | .constant _ _, n => [n]
  | .column _ _ _, n => [n]
  | .operand _, n => [n]
  | .or _ a b, n => a.asked answer n ++ onBoolean (a.given answer n) fun x =>
    if x then [] else b.asked answer (n + a.width)
  | .and _ a b, n => a.asked answer n ++ onBoolean (a.given answer n) fun x =>
    if x then b.asked answer (n + a.width) else []
  | .not _ a, n => a.asked answer n
  | .compare _ _ a b, n =>
    a.asked answer n ++ onValue (a.given answer n) (b.asked answer (n + a.width))
  | .isNull _ a, n => a.asked answer n
  | .cond _ c a b, n => c.asked answer n ++ onBoolean (c.given answer n) fun x =>
    if x then a.asked answer (n + c.width) else b.asked answer (n + c.width + a.width)
  | .cast _ a _, n => a.asked answer n

/-- The leaves below a null test. -/
def guarded : Expr L → Nat → List Nat
  | .constant _ _, _ => []
  | .column _ _ _, _ => []
  | .operand _, _ => []
  | .or _ a b, n => a.guarded n ++ b.guarded (n + a.width)
  | .and _ a b, n => a.guarded n ++ b.guarded (n + a.width)
  | .not _ a, n => a.guarded n
  | .compare _ _ a b, n => a.guarded n ++ b.guarded (n + a.width)
  | .isNull _ a, n => List.range' n a.width
  | .cond _ c a b, n =>
    c.guarded n ++ (a.guarded (n + c.width) ++ b.guarded (n + c.width + a.width))
  | .cast _ a _, n => a.guarded n

/-- The nodes of the tree, each with the number of its first leaf. -/
def placed : Expr L → Nat → List (Nat × Expr L)
  | .constant k v, n => [(n, .constant k v)]
  | .column k i type, n => [(n, .column k i type)]
  | .operand l, n => [(n, .operand l)]
  | .or k a b, n => (n, .or k a b) :: (a.placed n ++ b.placed (n + a.width))
  | .and k a b, n => (n, .and k a b) :: (a.placed n ++ b.placed (n + a.width))
  | .not k a, n => (n, .not k a) :: a.placed n
  | .compare k op a b, n => (n, .compare k op a b) :: (a.placed n ++ b.placed (n + a.width))
  | .isNull k a, n => (n, .isNull k a) :: a.placed n
  | .cond k c a b, n => (n, .cond k c a b) ::
    (c.placed n ++ (a.placed (n + c.width) ++ b.placed (n + c.width + a.width)))
  | .cast k a target, n => (n, .cast k a target) :: a.placed n

/-- What a node asks: behind its first operand only the operand that the value of the first one calls
for.  An operand is asked when its first leaf is. -/
def Needed (answer : Nat → Next Value) (pulled : Nat → Prop) : Nat × Expr L → Prop
  | (i, .or _ a _) => pulled (i + a.width) ↔ pulled i ∧ a.given answer i = .ok (.boolean false)
  | (i, .and _ a _) => pulled (i + a.width) ↔ pulled i ∧ a.given answer i = .ok (.boolean true)
  | (i, .compare _ _ a _) => pulled (i + a.width) ↔ pulled i ∧ ∃ v, a.given answer i = .ok v
  | (i, .cond _ c a _) =>
    (pulled (i + c.width) ↔ pulled i ∧ c.given answer i = .ok (.boolean true)) ∧
    (pulled (i + c.width + a.width) ↔ pulled i ∧ c.given answer i = .ok (.boolean false))
  | _ => True

/-- What the record of a pull says of a tree that has given `r`. -/
structure FailFast (e : Expr L) (pulls : List LeafPull) (r : Next Value) : Prop where
  /-- The first leaf is asked whatever happens. -/
  first : 0 ∈ pulls.map LeafPull.leaf
  /-- Each leaf is asked at most once, and leaves are asked from left to right. -/
  inOrder : (pulls.map LeafPull.leaf).Sublist (List.range e.width)
  /-- The result is what the answers come to. -/
  result : r = e.given (answers pulls) 0
  /-- The end of the data or an error is the last answer, and the result. -/
  stop : ∀ p ∈ pulls, p.result.stops = true → pulls.getLast? = some p ∧ r = p.result
  /-- So is a null, unless it is below a null test. -/
  null : ∀ p ∈ pulls, p.result = .null → p.leaf ∉ e.guarded 0 →
    pulls.getLast? = some p ∧ r = .null
  /-- Every node asks only the operands that it needs, -/
  needed : ∀ node ∈ e.placed 0, Needed (answers pulls) (· ∈ pulls.map LeafPull.leaf) node
  /-- and what is not asked asks none of its leaves. -/
  entered : ∀ node ∈ e.placed 0, ∀ j < node.2.width,
    node.1 + j ∈ pulls.map LeafPull.leaf → node.1 ∈ pulls.map LeafPull.leaf

/-! ## Pulls on record -/

/-- The action `x` is `y` on record: it asks leaves among `w` ones from `n` on, and if a table of
answers agrees with what is put on record, then these leaves and the result are those of the table. -/
def Traces (n w : Nat) (x : StateM (Traced S) (Next Value)) (y : StateM S (Next Value))
    (leaves : (Nat → Next Value) → List Nat) (result : (Nat → Next Value) → Next Value) : Prop :=
  ∀ s, ∃ pulls, x s = ((y s.state).1, ⟨(y s.state).2, s.pulls ++ pulls⟩) ∧
    (pulls.map LeafPull.leaf).Sublist (List.range' n w) ∧
    ∀ answer, (∀ p ∈ pulls, answer p.leaf = p.result) →
      pulls.map LeafPull.leaf = leaves answer ∧ (y s.state).1 = result answer

section Rules
variable {n w : Nat} {x : StateM (Traced S) (Next Value)} {y : StateM S (Next Value)}
  {A : (Nat → Next Value) → List Nat} {G : (Nat → Next Value) → Next Value}

theorem Traces.pure (n w : Nat) (r : Next Value) : Traces n w
    (Pure.pure r : StateM (Traced S) (Next Value)) (Pure.pure r : StateM S (Next Value))
    (fun _ => []) fun _ => r :=
  fun s => ⟨[], by rw [List.append_nil]; rfl, List.nil_sublist _, fun _ _ => ⟨rfl, rfl⟩⟩

theorem Traces.leaf (ask : L → Tuple → StateM S (Next Value)) (n : Nat) (e : Expr L) (t : Tuple) :
    Traces n 1 (askLeaf ask (n, e) t) (e.pull ask t) (fun _ => [n]) fun answer => answer n := by
  intro s
  refine ⟨[⟨n, (e.pull ask t s.state).1⟩], rfl, List.Sublist.refl _, ?_⟩
  intro answer hagrees
  exact ⟨rfl, (hagrees _ List.mem_cons_self).symm⟩

theorem Traces.among {m v : Nat} (h : Traces n w x y A G) (hm : m ≤ n) (hv : n + w ≤ m + v) :
    Traces m v x y A G := by
  have hsub : (List.range' n w).Sublist (List.range' m v) := by
    obtain ⟨d, rfl⟩ := Nat.exists_eq_add_of_le hm
    obtain ⟨u, rfl⟩ : ∃ u, v = d + (w + u) := ⟨v - d - w, by omega⟩
    rw [← List.range'_append_1, ← List.range'_append_1]
    exact (List.sublist_append_left _ _).trans (List.sublist_append_right _ _)
  intro s
  obtain ⟨pulls, heq, hleaves, htable⟩ := h s
  exact ⟨pulls, heq, hleaves.trans hsub, htable⟩

theorem Traces.bind {v : Nat} {f : Next Value → StateM (Traced S) (Next Value)}
    {g : Next Value → StateM S (Next Value)} {B : Next Value → (Nat → Next Value) → List Nat}
    {H : Next Value → (Nat → Next Value) → Next Value} (h : Traces n w x y A G)
    (hf : ∀ r, Traces (n + w) v (f r) (g r) (B r) (H r)) :
    Traces n (w + v) (x >>= f) (y >>= g) (fun answer => A answer ++ B (G answer) answer)
      fun answer => H (G answer) answer := by
  intro s
  obtain ⟨first, hx, hfirst, htable⟩ := h s
  obtain ⟨later, hy, hlater, htable'⟩ :=
    hf (y s.state).1 ⟨(y s.state).2, s.pulls ++ first⟩
  refine ⟨first ++ later, ?_, ?_, ?_⟩
  · show f (x s).1 (x s).2 = _
    rw [hx, hy, List.append_assoc]
    rfl
  · rw [List.map_append, ← List.range'_append_1]
    exact hfirst.append hlater
  · intro answer hagrees
    obtain ⟨hleaves, hresult⟩ := htable answer fun p hp => hagrees p (List.mem_append_left _ hp)
    obtain ⟨hleaves', hresult'⟩ := htable' answer fun p hp => hagrees p (List.mem_append_right _ hp)
    refine ⟨?_, ?_⟩
    · rw [List.map_append, hleaves, hleaves', hresult]
    · exact hresult'.trans (by rw [hresult])

theorem Traces.map {f : Next Value → StateM (Traced S) (Next Value)}
    {g : Next Value → StateM S (Next Value)} {H : Next Value → Next Value}
    (h : Traces n w x y A G) (hf : ∀ r, f r = Pure.pure (H r)) (hg : ∀ r, g r = Pure.pure (H r)) :
    Traces n w (x >>= f) (y >>= g) A fun answer => H (G answer) := by
  have hbind := h.bind (B := fun _ _ => []) (H := fun r _ => H r) (v := 0) (f := f) (g := g) <| by
    intro r
    rw [hf, hg]
    exact .pure _ _ _
  simpa only [List.append_nil, Nat.add_zero] using hbind

theorem Traces.boolean {v : Nat} {k : Key} {f : Bool → StateM (Traced S) (Next Value)}
    {g : Bool → StateM S (Next Value)} {B : Bool → (Nat → Next Value) → List Nat}
    {H : Bool → (Nat → Next Value) → Next Value} (h : Traces n w x y A G)
    (hf : ∀ b, Traces (n + w) v (f b) (g b) (B b) (H b)) :
    Traces n (w + v) (Next.andThen x fun a => withBoolean k a f)
      (Next.andThen y fun a => withBoolean k a g)
      (fun answer => A answer ++ onBoolean (G answer) fun b => B b answer)
      fun answer => whenBoolean k (G answer) fun b => H b answer := by
  refine h.bind (B := fun r answer => onBoolean r fun b => B b answer)
    (H := fun r answer => whenBoolean k r fun b => H b answer) ?_
  intro r
  cases r with
  | ok a =>
      cases a with
      | boolean b => exact hf b
      | _ => exact .pure _ _ _
  | endOfData => exact .pure _ _ _
  | null => exact .pure _ _ _
  | error e => exact .pure _ _ _

theorem Traces.ofBoolean {k : Key} {f : Bool → Bool} (h : Traces n w x y A G) :
    Traces n w (Next.andThen x fun a => withBoolean k a fun b => Pure.pure (.ok (.boolean (f b))))
      (Next.andThen y fun a => withBoolean k a fun b => Pure.pure (.ok (.boolean (f b)))) A
      fun answer => whenBoolean k (G answer) fun b => .ok (.boolean (f b)) := by
  have hboolean := h.boolean (k := k) (v := 0) (B := fun _ _ => [])
    (H := fun b _ => .ok (.boolean (f b))) fun _ => .pure _ _ _
  have hnothing : ∀ r, onBoolean r (fun _ => []) = [] := by
    intro r
    simp only [onBoolean]
    split <;> rfl
  simpa only [hnothing, List.append_nil, Nat.add_zero] using hboolean

end Rules

/-- A pull on record is the pull, and what is on record is what the recursion says. -/
theorem traces_posed (ask : L → Tuple → StateM S (Next Value)) (e : Expr L) (n : Nat) (t : Tuple) :
    Traces n e.width ((e.posed n).pull (askLeaf ask) t) (e.pull ask t)
      (fun answer => e.asked answer n) fun answer => e.given answer n := by
  induction e generalizing n with
  | constant k v => exact .leaf ask n (.constant k v) t
  | column k i type => exact .leaf ask n (.column k i type) t
  | operand l => exact .leaf ask n (.operand l) t
  | or k a b iha ihb =>
      refine (iha n).boolean (B := fun x answer => if x then [] else b.asked answer (n + a.width))
        (H := fun x answer => if x then .ok (.boolean true) else
          whenBoolean k (b.given answer (n + a.width)) fun y => .ok (.boolean y)) ?_
      intro x
      cases x with
      | true => exact .pure _ _ _
      | false => exact (ihb (n + a.width)).ofBoolean
  | and k a b iha ihb =>
      refine (iha n).boolean (B := fun x answer => if x then b.asked answer (n + a.width) else [])
        (H := fun x answer => if x then
          whenBoolean k (b.given answer (n + a.width)) fun y => .ok (.boolean y)
          else .ok (.boolean false)) ?_
      intro x
      cases x with
      | true => exact (ihb (n + a.width)).ofBoolean
      | false => exact .pure _ _ _
  | not k a ih => exact (ih n).ofBoolean
  | compare k op a b iha ihb =>
      refine (iha n).bind (B := fun r answer => onValue r (b.asked answer (n + a.width)))
        (H := fun r answer => whenValue r fun x =>
          whenValue (b.given answer (n + a.width)) fun y => compareResult k op x y) ?_
      intro r
      cases r with
      | ok x =>
          refine (ihb (n + a.width)).map
            (H := fun r => whenValue r fun y => compareResult k op x y) ?_ ?_
          · rintro (y | _ | _ | _) <;> rfl
          · rintro (y | _ | _ | _) <;> rfl
      | endOfData => exact .pure _ _ _
      | null => exact .pure _ _ _
      | error e => exact .pure _ _ _
  | isNull k a ih =>
      refine (ih n).map (H := nullTest) ?_ ?_
      · rintro (v | _ | _ | _) <;> rfl
      · rintro (v | _ | _ | _) <;> rfl
  | cond k c a b ihc iha ihb =>
      refine (ihc n).boolean (B := fun x answer =>
          if x then a.asked answer (n + c.width) else b.asked answer (n + c.width + a.width))
        (H := fun x answer =>
          if x then a.given answer (n + c.width) else b.given answer (n + c.width + a.width)) ?_
      intro x
      cases x with
      | true => exact (iha _).among (by omega) (by omega)
      | false => exact (ihb _).among (by omega) (by omega)
  | cast k a target ih =>
      refine (ih n).map (H := fun r => whenValue r fun v => castResult k target v) ?_ ?_
      · rintro (v | _ | _ | _) <;> rfl
      · rintro (v | _ | _ | _) <;> rfl

/-! ## What ends a pull -/

section Tables
variable {A : Nat → Next Value}

theorem mem_onBoolean {r : Next Value} {later : Bool → List Nat} {p : Nat} :
    p ∈ onBoolean r later ↔ ∃ b, r = .ok (.boolean b) ∧ p ∈ later b := by
  simp only [onBoolean]
  split
  next b => simp
  next hr =>
    refine ⟨nofun, ?_⟩
    rintro ⟨b, rfl, -⟩
    exact absurd rfl (hr b)

theorem mem_onValue {r : Next Value} {later : List Nat} {p : Nat} :
    p ∈ onValue r later ↔ (∃ v, r = .ok v) ∧ p ∈ later := by
  cases r <;> simp [onValue]

section Nodes
variable {k : Key} {a b c : Expr L} {n p : Nat}

theorem mem_asked_or : p ∈ (or k a b).asked A n ↔ p ∈ a.asked A n ∨
    a.given A n = .ok (.boolean false) ∧ p ∈ b.asked A (n + a.width) := by
  simp [asked, mem_onBoolean]

theorem mem_asked_and : p ∈ (and k a b).asked A n ↔ p ∈ a.asked A n ∨
    a.given A n = .ok (.boolean true) ∧ p ∈ b.asked A (n + a.width) := by
  simp [asked, mem_onBoolean]

theorem mem_asked_compare {op : CompareOp} : p ∈ (compare k op a b).asked A n ↔
    p ∈ a.asked A n ∨
      (∃ v, a.given A n = .ok v) ∧ p ∈ b.asked A (n + a.width) := by
  simp [asked, mem_onValue]

theorem mem_asked_cond : p ∈ (cond k c a b).asked A n ↔ p ∈ c.asked A n ∨
    (c.given A n = .ok (.boolean true) ∧ p ∈ a.asked A (n + c.width) ∨
      c.given A n = .ok (.boolean false) ∧ p ∈ b.asked A (n + c.width + a.width)) := by
  simp [asked, mem_onBoolean, or_comm]

end Nodes

/-- The leaves that are asked are leaves of the tree, and the first one always is. -/
theorem mem_asked (e : Expr L) (n : Nat) :
    n ∈ e.asked A n ∧ ∀ p ∈ e.asked A n, n ≤ p ∧ p < n + e.width := by
  induction e generalizing n with
  | constant | column | operand => simp [asked, width]
  | or k a b iha ihb => grind [mem_asked_or, width]
  | and k a b iha ihb => grind [mem_asked_and, width]
  | not k a ih => exact ih n
  | compare k op a b iha ihb => grind [mem_asked_compare, width]
  | isNull k a ih => exact ih n
  | cond k c a b ihc iha ihb => grind [mem_asked_cond, width]
  | cast k a target ih => exact ih n

/-- Of leaves that are asked in this order, one that ends the pull is the last one, and `r` is its
answer.  The end of the data and an error end a pull, and so does a null, but for the leaves `E`. -/
def Halting (A : Nat → Next Value) (E leaves : List Nat) (r : Next Value) : Prop :=
  ∀ p ∈ leaves, (A p).stops = true ∨ A p = .null ∧ p ∉ E →
    leaves.getLast? = some p ∧ r = A p

section Halting
variable {D E leaves : List Nat} {r : Next Value}

theorem Halting.none : Halting A E [] r := nofun

theorem Halting.leaf (n : Nat) : Halting A [] [n] (A n) := by
  intro p hp _
  obtain rfl := List.mem_singleton.mp hp
  exact ⟨rfl, rfl⟩

theorem Halting.mono (h : Halting A D leaves r) (hsub : ∀ p ∈ D, p ∈ E) :
    Halting A E leaves r := by
  intro p hp hends
  exact h p hp (hends.imp_right fun hnull => ⟨hnull.1, fun hp => hnull.2 (hsub p hp)⟩)

theorem Halting.left (h : Halting A D leaves r) : Halting A (D ++ E) leaves r :=
  h.mono fun _ hp => List.mem_append_left E hp

theorem Halting.right (h : Halting A E leaves r) : Halting A (D ++ E) leaves r :=
  h.mono fun _ hp => List.mem_append_right D hp

/-- Behind a signal nothing is asked, and it is passed on. -/
theorem Halting.followed {f : Next Value → List Nat} {g : Next Value → Next Value}
    (h : Halting A E leaves r) (hsignal : ∀ r, r.isOk = false → f r = [] ∧ g r = r)
    (hvalue : ∀ v, Halting A E (f (.ok v)) (g (.ok v))) :
    Halting A E (leaves ++ f r) (g r) := by
  intro p hp hends
  rcases List.mem_append.mp hp with hp | hp
  · obtain ⟨hlast, hr⟩ := h p hp hends
    have hok : r.isOk = false := by
      rw [hr]
      rcases hends with hstops | ⟨hnull, -⟩
      · cases hanswer : A p with
        | ok v => rw [hanswer] at hstops; cases hstops
        | endOfData | null | error e => rfl
      · rw [hnull]
        rfl
    obtain ⟨hnil, hresult⟩ := hsignal r hok
    rw [hnil, List.append_nil, hresult]
    exact ⟨hlast, hr⟩
  · cases r with
    | ok v =>
        obtain ⟨hlast, hr⟩ := hvalue v p hp hends
        exact ⟨by rw [List.getLast?_append, hlast]; rfl, hr⟩
    | endOfData | null | error e =>
        rw [(hsignal _ rfl).1] at hp
        cases hp

theorem whenBoolean_of_signal {k : Key} (h : r.isOk = false) (result : Bool → Next Value) :
    whenBoolean k r result = r := by
  cases r with
  | ok v => cases h
  | endOfData | null | error e => rfl

theorem whenValue_of_signal (h : r.isOk = false) (result : Value → Next Value) :
    whenValue r result = r := by
  cases r with
  | ok v => cases h
  | endOfData | null | error e => rfl

theorem onValue_of_signal (h : r.isOk = false) (later : List Nat) : onValue r later = [] := by
  cases r with
  | ok v => cases h
  | endOfData | null | error e => rfl

theorem onBoolean_of_signal (h : r.isOk = false) (later : Bool → List Nat) :
    onBoolean r later = [] := by
  cases r with
  | ok v => cases h
  | endOfData | null | error e => rfl

theorem Halting.map {g : Next Value → Next Value} (h : Halting A E leaves r)
    (hsignal : ∀ r, r.isOk = false → g r = r) : Halting A E leaves (g r) := by
  have hfollowed := h.followed (f := fun _ => []) (fun r hr => ⟨rfl, hsignal r hr⟩) fun _ => .none
  simpa only [List.append_nil] using hfollowed

theorem Halting.value (h : Halting A E leaves r) (result : Value → Next Value) :
    Halting A E leaves (whenValue r result) :=
  h.map fun _ hr => whenValue_of_signal hr result

theorem Halting.boolean {k : Key} {f : Bool → List Nat} {g : Bool → Next Value}
    (h : Halting A E leaves r) (hvalue : ∀ b, Halting A E (f b) (g b)) :
    Halting A E (leaves ++ onBoolean r f) (whenBoolean k r g) := by
  refine h.followed (f := fun r => onBoolean r f) (g := fun r => whenBoolean k r g) ?_ ?_
  · intro r hr
    exact ⟨onBoolean_of_signal hr _, whenBoolean_of_signal hr _⟩
  · intro v
    cases v with
    | boolean b => exact hvalue b
    | _ => exact .none

theorem Halting.ofBoolean {k : Key} {f : Bool → Bool} (h : Halting A E leaves r) :
    Halting A E leaves (whenBoolean k r fun b => .ok (.boolean (f b))) :=
  h.map fun _ hr => whenBoolean_of_signal hr _

end Halting

/-- The end of the data or an error ends the pull and is its result, and so does a null that no null
test is above. -/
theorem halting_asked (e : Expr L) (n : Nat) :
    Halting A (e.guarded n) (e.asked A n) (e.given A n) := by
  induction e generalizing n with
  | constant | column | operand => exact .leaf n
  | or k a b iha ihb =>
      refine (iha n).left.boolean (g := fun x => if x then .ok (.boolean true) else
        whenBoolean k (b.given A (n + a.width)) fun y => .ok (.boolean y)) ?_
      rintro (_ | _)
      · exact (ihb (n + a.width)).right.ofBoolean
      · exact .none
  | and k a b iha ihb =>
      refine (iha n).left.boolean (g := fun x => if x then
        whenBoolean k (b.given A (n + a.width)) fun y => .ok (.boolean y)
        else .ok (.boolean false)) ?_
      rintro (_ | _)
      · exact .none
      · exact (ihb (n + a.width)).right.ofBoolean
  | not k a ih => exact (ih n).ofBoolean
  | compare k op a b iha ihb =>
      refine (iha n).left.followed (f := fun r => onValue r (b.asked A (n + a.width)))
        (g := fun r => whenValue r fun x =>
          whenValue (b.given A (n + a.width)) fun y => compareResult k op x y) ?_ ?_
      · intro r hr
        exact ⟨onValue_of_signal hr _, whenValue_of_signal hr _⟩
      · intro x
        exact (ihb (n + a.width)).right.value fun y => compareResult k op x y
  | isNull k a ih =>
      -- a null below is not passed on, and it is one of the leaves for which nothing is said
      intro p hp hends
      obtain ⟨hle, hlt⟩ := (mem_asked a n).2 p hp
      have hp' : p ∈ List.range' n a.width := List.mem_range'_1.mpr ⟨hle, hlt⟩
      rcases hends with hstops | ⟨-, hexempt⟩
      · obtain ⟨hlast, hr⟩ := ih n p hp (.inl hstops)
        refine ⟨hlast, ?_⟩
        show nullTest (a.given A n) = _
        rw [hr]
        cases hanswer : A p with
        | ok v | null => rw [hanswer] at hstops; cases hstops
        | endOfData | error e => rfl
      · exact absurd hp' hexempt
  | cond k c a b ihc iha ihb =>
      refine (ihc n).left.boolean (g := fun x =>
        if x then a.given A (n + c.width) else b.given A (n + c.width + a.width)) ?_
      rintro (_ | _)
      · exact (ihb (n + c.width + a.width)).right.right
      · exact (iha (n + c.width)).left.right
  | cast k a target ih => exact (ih n).value fun v => castResult k target v

/-! ## What is needed -/

theorem mem_placed (e : Expr L) (n : Nat) :
    ∀ x ∈ e.placed n, n ≤ x.1 ∧ x.1 + x.2.width ≤ n + e.width := by
  induction e generalizing n with
  | constant | column | operand => simp [placed]
  | or | and | compare | cond => grind [placed, width]
  | not | isNull | cast => grind [placed, width]

theorem Needed.part {P P' : Nat → Prop} {C : Prop} {x : Nat × Expr L} (h : Needed A P x)
    (hP : ∀ p, x.1 ≤ p → p < x.1 + x.2.width → (P' p ↔ C ∧ P p)) : Needed A P' x := by
  obtain ⟨i, e⟩ := x
  have hfirst := hP i (Nat.le_refl i) (Nat.lt_add_of_pos_right e.width_pos)
  cases e with
  | or k a b | and k a b | compare k op a b =>
      have hlater := hP (i + a.width) (by omega) (by have := b.width_pos; simp only [width]; omega)
      simp only [Needed] at h ⊢
      rw [hlater, hfirst, h, and_assoc]
  | cond k c a b =>
      have hyes := hP (i + c.width) (by omega) (by have := a.width_pos; simp only [width]; omega)
      have hno := hP (i + c.width + a.width) (by omega)
        (by have := b.width_pos; simp only [width]; omega)
      simp only [Needed] at h ⊢
      rw [hyes, hno, hfirst, h.1, h.2, and_assoc, and_assoc]
      exact ⟨Iff.rfl, Iff.rfl⟩
  | _ => trivial

/-- Every node asks only what it needs, and a part of the tree that is not asked asks no leaf. -/
def NeededAll (A : Nat → Next Value) (pulled : Nat → Prop) (nodes : List (Nat × Expr L)) : Prop :=
  ∀ x ∈ nodes, Needed A pulled x ∧ ∀ j < x.2.width, pulled (x.1 + j) → pulled x.1

section Parts
variable {a b e : Expr L} {m n : Nat} {C D : Prop}

theorem NeededAll.part (h : NeededAll A (· ∈ a.asked A m) (a.placed m))
    (hmem : ∀ p, m ≤ p → p < m + a.width → (p ∈ e.asked A n ↔ C ∧ p ∈ a.asked A m)) :
    NeededAll A (· ∈ e.asked A n) (a.placed m) := by
  intro x hx
  obtain ⟨hneeded, hentered⟩ := h x hx
  obtain ⟨hle, hlt⟩ := mem_placed a m x hx
  refine ⟨hneeded.part fun p hp hp' => hmem p (by omega) (by omega), ?_⟩
  intro j hj hp
  have hp := (hmem _ (by omega) (by omega)).mp hp
  exact (hmem x.1 hle (by omega)).mpr ⟨hp.1, hentered j hj hp.2⟩

theorem NeededAll.cons {nodes : List (Nat × Expr L)} (hself : Needed A (· ∈ e.asked A n) (n, e))
    (h : NeededAll A (· ∈ e.asked A n) nodes) : NeededAll A (· ∈ e.asked A n) ((n, e) :: nodes) :=
  List.forall_mem_cons.mpr ⟨⟨hself, fun _ _ _ => (mem_asked e n).1⟩, h⟩

theorem NeededAll.parts (ha : NeededAll A (· ∈ a.asked A m) (a.placed m))
    (hb : NeededAll A (· ∈ b.asked A (m + a.width)) (b.placed (m + a.width)))
    (hmem : ∀ p, m ≤ p → (p ∈ e.asked A n ↔
      C ∧ p ∈ a.asked A m ∨ D ∧ p ∈ b.asked A (m + a.width))) :
    NeededAll A (· ∈ e.asked A n) (a.placed m ++ b.placed (m + a.width)) := by
  have hasked := (mem_asked (A := A) a m).2
  have hasked' := (mem_asked (A := A) b (m + a.width)).2
  refine List.forall_mem_append.mpr ⟨ha.part (C := C) ?_, hb.part (C := D) ?_⟩
  · intro p hp hlt
    have hnot : p ∉ b.asked A (m + a.width) := fun hmem => by
      have := hasked' p hmem
      omega
    simp [hmem p hp, hnot]
  · intro p hp _
    have hnot : p ∉ a.asked A m := fun hmem => by
      have := hasked p hmem
      omega
    simp [hmem p (by omega), hnot]

end Parts

theorem needed_asked (e : Expr L) (n : Nat) :
    NeededAll A (· ∈ e.asked A n) (e.placed n) := by
  induction e generalizing n with
  | constant | column | operand => exact .cons trivial (List.forall_mem_nil _)
  | or k a b iha ihb =>
      refine .cons ?_ (NeededAll.parts (C := True) (D := a.given A n = .ok (.boolean false))
        (iha n) (ihb _) ?_)
      · have ha := (mem_asked (A := A) a n).2
        grind [Needed, mem_asked_or, mem_asked]
      · simp [mem_asked_or]
  | and k a b iha ihb =>
      refine .cons ?_ (NeededAll.parts (C := True) (D := a.given A n = .ok (.boolean true))
        (iha n) (ihb _) ?_)
      · have ha := (mem_asked (A := A) a n).2
        grind [Needed, mem_asked_and, mem_asked]
      · simp [mem_asked_and]
  | compare k op a b iha ihb =>
      refine .cons ?_ (NeededAll.parts (C := True) (D := ∃ v, a.given A n = .ok v)
        (iha n) (ihb _) ?_)
      · have ha := (mem_asked (A := A) a n).2
        grind [Needed, mem_asked_compare, mem_asked]
      · simp [mem_asked_compare]
  | cond k c a b ihc iha ihb =>
      have hc := (mem_asked (A := A) c n).2
      refine .cons ?_ (List.forall_mem_append.mpr ⟨?_, ?_⟩)
      · have := a.width_pos
        have ha := (mem_asked (A := A) a (n + c.width)).2
        grind [Needed, mem_asked_cond, mem_asked]
      · -- no branch asks a leaf of the condition
        have hbranches : ∀ p, p ∈ a.asked A (n + c.width) ∨
            p ∈ b.asked A (n + c.width + a.width) → n + c.width ≤ p := by
          grind [mem_asked]
        refine (ihc n).part (C := True) fun p hp hlt => ?_
        grind [mem_asked_cond]
      · refine NeededAll.parts (C := c.given A n = .ok (.boolean true))
          (D := c.given A n = .ok (.boolean false)) (iha _) (ihb _) fun p hp => ?_
        grind [mem_asked_cond]
  | not k a ih | isNull k a ih | cast k a target ih =>
      exact .cons trivial ((ih n).part (C := True) fun p _ _ => by simp [asked])

end Tables

/-! ## The record of a pull -/

/-- A record in which no leaf has two numbers says how each leaf has answered. -/
theorem answers_of_nodup {pulls : List LeafPull} (h : (pulls.map LeafPull.leaf).Nodup)
    {p : LeafPull} (hp : p ∈ pulls) : answers pulls p.leaf = p.result := by
  rw [answers, find?_eq_some_of_nodup_map h hp]
  rfl

/-- A pull of a tree on record comes to the same result and the same state as without the record, and
the record is that of a pull which fails fast and asks nothing that it does not need. -/
theorem pull_failFast (ask : L → Tuple → StateM S (Next Value)) (e : Expr L) (t : Tuple) (s : S) :
    ∃ pulls, (e.posed 0).pull (askLeaf ask) t ⟨s, []⟩ =
        ((e.pull ask t s).1, ⟨(e.pull ask t s).2, pulls⟩) ∧
      e.FailFast pulls (e.pull ask t s).1 := by
  obtain ⟨pulls, heq, hsub, htable⟩ := traces_posed ask e 0 t ⟨s, []⟩
  have hnodup : (pulls.map LeafPull.leaf).Nodup := hsub.nodup List.nodup_range'
  have hagrees : ∀ p ∈ pulls, answers pulls p.leaf = p.result := fun p hp =>
    answers_of_nodup hnodup hp
  have hleaves : pulls.map LeafPull.leaf = e.asked (answers pulls) 0 := (htable _ hagrees).1
  have hresult : (e.pull ask t s).1 = e.given (answers pulls) 0 := (htable _ hagrees).2
  -- what ends the pull is the last leaf on record, and no other pull is of this leaf
  have hends : ∀ p ∈ pulls, p.result.stops = true ∨ p.result = .null ∧ p.leaf ∉ e.guarded 0 →
      pulls.getLast? = some p ∧ (e.pull ask t s).1 = p.result := by
    intro p hp hends
    rw [← hagrees p hp] at hends ⊢
    obtain ⟨hlast, hr⟩ := halting_asked e 0 p.leaf (hleaves ▸ List.mem_map_of_mem hp) hends
    rw [← hleaves, List.getLast?_map] at hlast
    obtain ⟨q, hq, hleaf⟩ := Option.map_eq_some_iff.mp hlast
    have hpq : q = p := List.inj_on_of_nodup_map hnodup (List.mem_of_getLast? hq) hp hleaf
    exact ⟨hpq ▸ hq, hresult.trans hr⟩
  refine ⟨pulls, heq, ?_, ?_, hresult, ?_, ?_, ?_, ?_⟩
  · rw [hleaves]
    exact (mem_asked e 0).1
  · rw [List.range_eq_range']
    exact hsub
  · intro p hp hstops
    exact hends p hp (.inl hstops)
  · intro p hp hnull hguarded
    exact hnull ▸ hends p hp (.inr ⟨hnull, hguarded⟩)
  · rw [hleaves]
    exact fun node hnode => (needed_asked e 0 node hnode).1
  · rw [hleaves]
    exact fun node hnode => (needed_asked e 0 node hnode).2

/-! A conjunction whose operands give what they are labelled with.  The null test absorbs the null of
leaf 0, so leaf 1 is not asked; the null of leaf 3 ends the pull. -/

def nullish : Expr (Next Value) :=
  .and ⟨"p", 1⟩ (.or ⟨"p", 2⟩ (.isNull ⟨"p", 3⟩ (.operand .null)) (.operand .endOfData))
    (.compare ⟨"p", 4⟩ .lt (.operand (.ok (.int 1))) (.operand .null))

/-- An operand that gives its label, and counts how often it was asked. -/
def giveLabel (label : Next Value) (_ : Tuple) : StateM Nat (Next Value) := fun n => (label, n + 1)

theorem nullish_failFast : nullish.pull giveLabel [] 0 = (.null, 3) ∧
    nullish.FailFast [⟨0, .null⟩, ⟨2, .ok (.int 1)⟩, ⟨3, .null⟩] .null := by
  obtain ⟨pulls, heq, hfast⟩ := pull_failFast giveLabel nullish [] 0
  have hpulls : [⟨0, .null⟩, ⟨2, .ok (.int 1)⟩, ⟨3, .null⟩] = pulls :=
    congrArg (fun x => x.2.pulls) heq
  exact ⟨rfl, hpulls ▸ hfast⟩

end Expr
end Dataflow
