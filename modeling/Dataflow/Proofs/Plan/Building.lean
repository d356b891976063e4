import Mathlib.Data.List.Nodup
import Mathlib.Logic.Relation
import Dataflow.Plan.Basic
/-!
# Plans that can be built

A plan is built from the empty one by adding operators and connecting them.  What is refused on the
way leaves a plan that was built before, so nothing else is ever seen.

**Proved here.**

    built  ⟹  the keys are distinct, edges join different operators of the
               plan, and no edge is listed twice                               (`Built.wellFormed`)
    adding an operator with inputs, as far as it gets, stays within these       (`Built.addWithInputs`)
-/
namespace Dataflow

theorem find?_eq_some_of_nodup_map {α β : Type} [DecidableEq β] {f : α → β} {l : List α} {a : α}
    (hnodup : (l.map f).Nodup) (ha : a ∈ l) : l.find? (fun b => decide (f b = f a)) = some a := by
  cases hf : l.find? (fun b => decide (f b = f a)) with
  | none => simpa using List.find?_eq_none.mp hf a ha
  | some b =>
      have hkey : f b = f a := by simpa using List.find?_some hf
      rw [List.inj_on_of_nodup_map hnodup (List.mem_of_find?_eq_some hf) ha hkey]

theorem filter_eq_of_nodup_map {α β : Type} [DecidableEq β] {f : α → β} {l : List α} {a : α}
    (hnodup : (l.map f).Nodup) (ha : a ∈ l) : (l.filter fun b => f b = f a) = [a] := by
  refine List.perm_singleton.mp ((List.perm_ext_iff_of_nodup (hnodup.of_map.filter _)
    (List.nodup_singleton a)).mpr fun b => ?_)
  rw [List.mem_filter, decide_eq_true_eq, List.mem_singleton]
  constructor
  · rintro ⟨hb, hkey⟩
    exact List.inj_on_of_nodup_map hnodup hb ha hkey
  · rintro rfl
    exact ⟨ha, rfl⟩

theorem nodup_map_filter {α β γ : Type} [DecidableEq γ] {l : List α} (hl : l.Nodup) {f : α → γ}
    {f' : α → β} (hapart : ∀ a b, f a = f b → f' a = f' b → a = b) (c : γ) :
    ((l.filter fun a => f a = c).map f').Nodup := by
  refine (hl.filter _).map_on ?_
  intro a ha b hb hab
  rw [List.mem_filter, decide_eq_true_eq] at ha hb
  exact hapart a b (ha.2.trans hb.2.symm) hab

namespace Plan

variable {α : Type}

/-- `a` feeds `b`. -/
def Feeds (p : Plan α) (a b : Key) : Prop := (a, b) ∈ p.edges

theorem mem_predecessors {p : Plan α} {a b : Key} : a ∈ p.predecessors b ↔ p.Feeds a b := by
  simp [predecessors, Feeds]

theorem mem_successors {p : Plan α} {a b : Key} : b ∈ p.successors a ↔ p.Feeds a b := by
  simp [successors, Feeds]

variable [PlanNode α]

/-- The plans that can be built. -/
inductive Built : Plan α → Prop
  | empty : Built .empty
  | add {p q : Plan α} {op : α} : Built p → p.add op = .ok q → Built q
  | connect {p q : Plan α} {a b : Key} : Built p → p.connect a b = .ok q → Built q

/-- What building keeps up. -/
structure WellFormed (p : Plan α) : Prop where
  keys_nodup : p.keys.Nodup
  edges_nodup : p.edges.Nodup
  mem_keys : ∀ {a b : Key}, p.Feeds a b → a ∈ p.keys ∧ b ∈ p.keys
  irrefl : ∀ {a : Key}, ¬ p.Feeds a a

theorem add_eq_ok {p q : Plan α} {op : α} (h : p.add op = .ok q) :
    PlanNode.key op ∉ p.keys ∧ q = { p with operators := p.operators ++ [op] } := by
  simp only [add] at h
  split at h
  · cases h
  next hfree =>
    cases h
    exact ⟨by simpa [contains] using hfree, rfl⟩

theorem add_of_not_mem {p : Plan α} {op : α} (h : PlanNode.key op ∉ p.keys) :
    p.add op = .ok { p with operators := p.operators ++ [op] } := by
  simp [add, contains, h]

theorem connect_eq_ok {p q : Plan α} {a b : Key} (h : p.connect a b = .ok q) :
    a ∈ p.keys ∧ b ∈ p.keys ∧ a ≠ b ∧ ¬ p.Feeds a b ∧
      q = { p with edges := p.edges ++ [(a, b)] } := by
  simp only [connect] at h
  split at h
  · cases h
  next ha =>
    split at h
    · cases h
    next hb =>
      split at h
      · cases h
      next hab =>
        split at h
        · cases h
        next hnew =>
          cases h
          exact ⟨by simpa [contains] using ha, by simpa [contains] using hb, hab, hnew, rfl⟩

theorem connect_of {p : Plan α} {a b : Key} (ha : a ∈ p.keys) (hb : b ∈ p.keys) (hab : a ≠ b)
    (hnew : ¬ p.Feeds a b) : p.connect a b = .ok { p with edges := p.edges ++ [(a, b)] } := by
  have hedge : (a, b) ∉ p.edges := hnew
  simp [connect, contains, ha, hb, hab, hedge]

theorem WellFormed.add {p q : Plan α} {op : α} (hp : p.WellFormed) (h : p.add op = .ok q) :
    q.WellFormed := by
  obtain ⟨hfree, rfl⟩ := add_eq_ok h
  have hkeys : keys { p with operators := p.operators ++ [op] } = p.keys ++ [PlanNode.key op] := by
    simp [keys]
  refine ⟨?_, hp.edges_nodup, ?_, hp.irrefl⟩
  · rw [hkeys, ← List.concat_eq_append]
    exact hp.keys_nodup.concat hfree
  · intro a b hf
    obtain ⟨ha, hb⟩ := hp.mem_keys hf
    rw [hkeys]
    exact ⟨List.mem_append_left _ ha, List.mem_append_left _ hb⟩

theorem WellFormed.connect {p q : Plan α} {a b : Key} (hp : p.WellFormed)
    (h : p.connect a b = .ok q) : q.WellFormed := by
  obtain ⟨ha, hb, hab, hnew, rfl⟩ := connect_eq_ok h
  have hfeeds : ∀ {x y : Key}, Feeds { p with edges := p.edges ++ [(a, b)] } x y →
      p.Feeds x y ∨ (x = a ∧ y = b) := by
    intro x y hf
    rcases List.mem_append.mp hf with hf | hf
    · exact Or.inl hf
    · exact Or.inr (by simpa using hf)
  refine ⟨hp.keys_nodup, ?_, ?_, ?_⟩
  · show (p.edges ++ [(a, b)]).Nodup
    rw [← List.concat_eq_append]
    exact hp.edges_nodup.concat hnew
  · intro x y hf
    rcases hfeeds hf with hf | ⟨rfl, rfl⟩
    · exact hp.mem_keys hf
    · exact ⟨ha, hb⟩
  · intro x hf
    rcases hfeeds hf with hf | ⟨rfl, hb⟩
    · exact hp.irrefl hf
    · exact hab hb

theorem Built.wellFormed {p : Plan α} (h : p.Built) : p.WellFormed := by
  induction h with
  | empty => exact ⟨List.nodup_nil, List.nodup_nil, fun h => absurd h List.not_mem_nil,
      List.not_mem_nil⟩
  | add _ h ih => exact ih.add h
  | connect _ h ih => exact ih.connect h

theorem Built.connectAll {p : Plan α} {target : Key} {sources : List Key} (hp : p.Built) :
    (p.connectAll target sources).1.Built := by
  induction sources generalizing p with
  | nil => exact hp
  | cons source rest ih =>
      simp only [Plan.connectAll]
      split
      next h => exact ih (hp.connect h)
      next => exact hp

/-- Also what is left of an operator whose inputs were refused is a plan that can be built. -/
theorem Built.addWithInputs {p : Plan α} (hp : p.Built) (op : α) (inputs : List Key) :
    (p.addWithInputs op inputs).1.Built := by
  simp only [Plan.addWithInputs]
  split
  next h => exact (hp.add h).connectAll
  next => exact hp

/-- The plan of operators that are added one by one, each with the inputs that it declares. -/
def ofOperators (ops : List α) : Plan α :=
  ops.foldl (fun p op => (p.addWithInputs op ((PlanNode.declaredInputs op).getD [])).1) .empty

theorem built_ofOperators (ops : List α) : (ofOperators ops).Built := by
  have hfold : ∀ (ops : List α) (p : Plan α), p.Built → (ops.foldl (fun p op =>
      (p.addWithInputs op ((PlanNode.declaredInputs op).getD [])).1) p).Built := by
    intro ops
    induction ops with
    | nil =>
        intro p hp
        exact hp
    | cons op ops ih =>
        intro p hp
        exact ih _ (hp.addWithInputs op _)
  exact hfold ops .empty .empty

theorem WellFormed.unconnected {p : Plan α} (hp : p.WellFormed) {k : Key} (hk : k ∉ p.keys) :
    p.predecessors k = [] ∧ p.successors k = [] :=
  ⟨List.eq_nil_iff_forall_not_mem.mpr fun _ ha => hk (hp.mem_keys (mem_predecessors.mp ha)).2,
    List.eq_nil_iff_forall_not_mem.mpr fun _ hb => hk (hp.mem_keys (mem_successors.mp hb)).1⟩

/-! ## Operators by key -/

theorem mem_keys_iff {p : Plan α} {k : Key} :
    k ∈ p.keys ↔ ∃ op ∈ p.operators, PlanNode.key op = k := by
  simp [keys]

theorem WellFormed.get?_key {p : Plan α} (hp : p.WellFormed) {op : α} (h : op ∈ p.operators) :
    p.get? (PlanNode.key op) = some op :=
  find?_eq_some_of_nodup_map hp.keys_nodup h

end Plan
end Dataflow
