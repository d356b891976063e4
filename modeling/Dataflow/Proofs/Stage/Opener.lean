import Dataflow.Proofs.Stage.Compiling
import Mathlib.Data.List.Induction
import Mathlib.Data.List.Perm.Subperm
/-!
# Openers

The division of a plan into stages, said without stages.  Every operator has an opener: itself if it
reads a location or needs its input redistributed, the opener of its input if it passes tuples on,
and for a union the opener that its inputs have in common, or itself if they have none.  Operators
with the same opener are those that can share a stage.

`Plan.opener` follows the inputs as deep as there are operators.  In a plan without cycles nothing
lies deeper, so it satisfies the recursion just given (`opener_eq`).
-/
namespace Dataflow

/-- The opener of an operator, found from those of its inputs. -/
def PhysicalOperator.openerFrom (opener : Key → Key) (op : PhysicalOperator) : Key :=
  match op.kind.category, op.inputs.map opener with
  | .store, [o] => o
  | .pipeline, [o] => o
  | .union, o :: rest => if ∀ x ∈ rest, x = o then o else op.key
  | _, _ => op.key

namespace Plan

/-- The opener of an operator, looked for only so many inputs deep. -/
def openerWithin (p : PhysicalPlan) : Nat → Key → Key
  | 0, k => k
  | n + 1, k =>
    match p.get? k with
    | some op => op.openerFrom (openerWithin p n)
    | none => k

/-- The operator that opens the stage of an operator. -/
def opener (p : PhysicalPlan) (k : Key) : Key := p.openerWithin p.size k

end Plan

namespace PhysicalOperator

theorem openerFrom_congr {f g : Key → Key} {op : PhysicalOperator}
    (h : ∀ i ∈ op.inputs, f i = g i) : op.openerFrom f = op.openerFrom g := by
  simp only [openerFrom]
  rw [List.map_congr_left h]

theorem openerFrom_cases (f : Key → Key) (op : PhysicalOperator) :
    op.openerFrom f = op.key ∨ ∃ i ∈ op.inputs, op.openerFrom f = f i := by
  have hhead : ∀ {o : Key} {rest : List Key}, op.inputs.map f = o :: rest →
      ∃ i ∈ op.inputs, o = f i := by
    intro o rest h
    have ho : o ∈ op.inputs.map f := h ▸ List.mem_cons_self
    obtain ⟨i, hi, rfl⟩ := List.mem_map.mp ho
    exact ⟨i, hi, rfl⟩
  simp only [openerFrom]
  split
  next h => exact Or.inr (hhead h)
  next h => exact Or.inr (hhead h)
  next h =>
    split
    · exact Or.inr (hhead h)
    · exact Or.inl rfl
  next => exact Or.inl rfl

theorem Wired.inputs_eq_singleton {p : PhysicalPlan} {op : PhysicalOperator} (h : op.Wired p)
    (hcat : op.kind.category = .store ∨ op.kind.category = .pipeline) :
    ∃ i, op.inputs = [i] := by
  have hone : op.kind.arity = (1, some 1) := by
    cases hk : op.kind <;> simp_all [PhysicalKind.category, PhysicalKind.arity]
  have harity := h.arity
  rw [hone] at harity
  simp only [admits, Bool.and_eq_true, decide_eq_true_eq] at harity
  exact List.length_eq_one_iff.mp (by omega)

theorem Wired.inputs_eq_nil {p : PhysicalPlan} {op : PhysicalOperator} (h : op.Wired p)
    (hcat : op.kind.category = .load) : op.inputs = [] := by
  have hnone : op.kind.arity = (0, some 0) := by
    cases hk : op.kind <;> simp_all [PhysicalKind.category, PhysicalKind.arity]
  have harity := h.arity
  rw [hnone] at harity
  simp only [admits, Bool.and_eq_true, decide_eq_true_eq] at harity
  exact List.length_eq_zero_iff.mp (by omega)

theorem Wired.inputs_ne_nil {p : PhysicalPlan} {op : PhysicalOperator} (h : op.Wired p)
    (hcat : op.kind.category ≠ .load) : op.inputs ≠ [] := by
  have hone : op.kind.arity.1 = 1 := by
    cases hk : op.kind <;> simp_all [PhysicalKind.category, PhysicalKind.arity]
  have harity := h.arity
  simp only [admits, Bool.and_eq_true, decide_eq_true_eq, hone] at harity
  exact List.length_pos_iff.mp harity.1

theorem Wired.openerFrom_eq {p : PhysicalPlan} {op : PhysicalOperator} (h : op.Wired p)
    {f : Key → Key} {o : Key}
    (hcat : op.kind.category = .store ∨ op.kind.category = .pipeline ∨ op.kind.category = .union)
    (ho : ∀ i ∈ op.inputs, f i = o) : op.openerFrom f = o := by
  simp only [openerFrom]
  rcases hcat with hcat | hcat | hcat
  · obtain ⟨i, hi⟩ := h.inputs_eq_singleton (Or.inl hcat)
    simp [hcat, hi, ho i (by simp [hi])]
  · obtain ⟨i, hi⟩ := h.inputs_eq_singleton (Or.inr hcat)
    simp [hcat, hi, ho i (by simp [hi])]
  · cases hin : op.inputs with
    | nil => exact absurd hin (h.inputs_ne_nil (by simp [hcat]))
    | cons i rest =>
        rw [hin] at ho
        have hrest : ∀ x ∈ rest.map f, x = f i := by
          intro x hx
          obtain ⟨j, hj, rfl⟩ := List.mem_map.mp hx
          rw [ho j (List.mem_cons_of_mem _ hj), ho i List.mem_cons_self]
        simp only [hcat, List.map_cons, if_pos hrest]
        exact ho i List.mem_cons_self

theorem openerFrom_eq_key {op : PhysicalOperator} {f : Key → Key}
    (hcat : op.kind.category = .load ∨ op.kind.category = .hash ∨ op.kind.category = .sort) :
    op.openerFrom f = op.key := by
  simp only [openerFrom]
  rcases hcat with hcat | hcat | hcat <;> simp [hcat]

theorem openerFrom_union {op : PhysicalOperator} {f : Key → Key} (hcat : op.kind.category = .union)
    (hne : op.openerFrom f ≠ op.key) : ∀ i ∈ op.inputs, f i = op.openerFrom f := by
  simp only [openerFrom] at hne ⊢
  intro i hi
  cases hin : op.inputs with
  | nil => rw [hin] at hi; exact absurd hi List.not_mem_nil
  | cons j rest =>
      simp only [hin, hcat, List.map_cons] at hne ⊢
      split at hne
      next hall =>
        rw [if_pos hall]
        rw [hin] at hi
        rcases List.mem_cons.mp hi with rfl | hi
        · rfl
        · exact hall _ (List.mem_map_of_mem hi)
      next => exact absurd rfl hne

end PhysicalOperator

namespace StageGraph.Arranged
variable {p : PhysicalPlan} {ops : List PhysicalOperator}

theorem mem_keys (h : Arranged p ops) {k : Key} :
    k ∈ p.keys ↔ k ∈ ops.map PhysicalOperator.key := by
  simp only [Plan.mem_keys_iff, List.mem_map, PhysicalOperator.planKey, h.mem_iff]

theorem length_le (h : Arranged p ops) : ops.length ≤ p.size := by
  have hsub : ops.map PhysicalOperator.key ⊆ p.keys := by
    intro k hk
    obtain ⟨op, hop, rfl⟩ := List.mem_map.mp hk
    exact List.mem_map_of_mem ((h.mem_iff op).mp hop)
  simpa [Plan.keys, Plan.size] using (h.nodup.subperm hsub).length_le

theorem openerWithin_eq (hp : p.WellFormed) (h : Arranged p ops) (l₁ : List PhysicalOperator) :
    ∀ l₂, ops = l₁ ++ l₂ → ∀ k ∈ l₁.map PhysicalOperator.key, ∀ n m, l₁.length ≤ n →
      l₁.length ≤ m → p.openerWithin n k = p.openerWithin m k := by
  induction l₁ using List.reverseRecOn with
  | nil => intro _ _ k hk; exact absurd hk List.not_mem_nil
  | append_singleton l op ih =>
      intro l₂ hops k hk n m hn hm
      rw [List.append_assoc, List.singleton_append] at hops
      rw [List.length_append, List.length_singleton] at hn hm
      rw [List.map_append, List.mem_append] at hk
      rcases hk with hk | hk
      · exact ih _ hops k hk n m (by omega) (by omega)
      · obtain rfl : k = op.key := by simpa using hk
        obtain ⟨n, rfl⟩ : ∃ n', n = n' + 1 := ⟨n - 1, by omega⟩
        obtain ⟨m, rfl⟩ : ∃ m', m = m' + 1 := ⟨m - 1, by omega⟩
        have hop : p.get? op.key = some op :=
          hp.get?_key ((h.mem_iff op).mp (by simp [hops]))
        simp only [Plan.openerWithin, hop]
        exact PhysicalOperator.openerFrom_congr fun i hi =>
          ih _ hops i (h.inputs_first l op l₂ hops i hi) n m (by omega) (by omega)

/-- The recursion that openers satisfy. -/
theorem opener_eq (hp : p.WellFormed) (h : Arranged p ops) {op : PhysicalOperator}
    (hop : op ∈ ops) : p.opener op.key = op.openerFrom p.opener := by
  have hget : p.get? op.key = some op := hp.get?_key ((h.mem_iff op).mp hop)
  have hstep : p.openerWithin (p.size + 1) op.key = op.openerFrom p.opener := by
    simp only [Plan.openerWithin, hget]
    rfl
  rw [← hstep]
  exact h.openerWithin_eq hp ops [] (by simp) op.key (List.mem_map_of_mem hop) _ _ h.length_le
    (Nat.le_succ_of_le h.length_le)

/-- The opener of an operator stands no later than the operator, and is its own opener. -/
theorem opener_mem (hp : p.WellFormed) (h : Arranged p ops) (l₁ : List PhysicalOperator) :
    ∀ l₂, ops = l₁ ++ l₂ → ∀ k ∈ l₁.map PhysicalOperator.key,
      p.opener k ∈ l₁.map PhysicalOperator.key ∧ p.opener (p.opener k) = p.opener k := by
  induction l₁ using List.reverseRecOn with
  | nil => intro _ _ k hk; exact absurd hk List.not_mem_nil
  | append_singleton l op ih =>
      intro l₂ hops k hk
      rw [List.append_assoc, List.singleton_append] at hops
      rw [List.map_append, List.mem_append] at hk
      have hearlier : ∀ i ∈ l.map PhysicalOperator.key,
          p.opener i ∈ (l ++ [op]).map PhysicalOperator.key ∧ p.opener (p.opener i) = p.opener i :=
        fun i hi => ⟨by rw [List.map_append]; exact List.mem_append_left _ (ih _ hops i hi).1,
          (ih _ hops i hi).2⟩
      rcases hk with hk | hk
      · exact hearlier k hk
      · obtain rfl : k = op.key := by simpa using hk
        have heq : p.opener op.key = op.openerFrom p.opener := h.opener_eq hp (by simp [hops])
        rcases op.openerFrom_cases p.opener with hself | ⟨i, hi, hinput⟩
        · rw [heq, hself]
          exact ⟨by simp, by rw [heq, hself]⟩
        · rw [heq, hinput]
          exact hearlier i (h.inputs_first l op l₂ hops i hi)

end StageGraph.Arranged

/-- What an operator can count on when the operators before it are placed. -/
structure Upcoming (p : PhysicalPlan) (placed : List PhysicalOperator) (op : PhysicalOperator) :
    Prop where
  nodup : (placed.map PhysicalOperator.key).Nodup
  fresh : op.key ∉ placed.map PhysicalOperator.key
  wired : op.Wired p
  inputs : ∀ i ∈ op.inputs, i ∈ placed.map PhysicalOperator.key
  earlier : ∀ o ∈ placed, ∀ i ∈ o.inputs, i ∈ placed.map PhysicalOperator.key
  opener_eq : p.opener op.key = op.openerFrom p.opener
  opener_mem : ∀ k ∈ placed.map PhysicalOperator.key,
    p.opener k ∈ placed.map PhysicalOperator.key ∧ p.opener (p.opener k) = p.opener k

theorem Upcoming.nodup_append {p : PhysicalPlan} {placed : List PhysicalOperator}
    {op : PhysicalOperator} (h : Upcoming p placed op) :
    ((placed ++ [op]).map PhysicalOperator.key).Nodup := by
  rw [List.map_append, List.map_singleton, ← List.concat_eq_append]
  exact h.nodup.concat h.fresh

theorem StageGraph.Arranged.upcoming {p : PhysicalPlan} {placed rest : List PhysicalOperator}
    {op : PhysicalOperator} (hp : p.WellFormed) (h : Arranged p (placed ++ op :: rest)) :
    Upcoming p placed op := by
  have hop : op ∈ placed ++ op :: rest := by simp
  have hnodup := h.nodup
  rw [List.map_append, List.map_cons, List.nodup_append] at hnodup
  obtain ⟨hplaced, -, hapart⟩ := hnodup
  refine ⟨hplaced, fun hk => hapart _ hk _ List.mem_cons_self rfl, h.wired op hop,
    h.inputs_first placed op rest rfl, ?_, h.opener_eq hp hop,
    h.opener_mem hp placed (op :: rest) rfl⟩
  intro o ho i hi
  obtain ⟨l₁, l₂, rfl⟩ := List.append_of_mem ho
  have hi' := h.inputs_first l₁ o (l₂ ++ op :: rest) (by simp) i hi
  rw [List.map_append]
  exact List.mem_append_left _ hi'

end Dataflow
