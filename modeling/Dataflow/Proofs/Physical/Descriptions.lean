import Dataflow.Proofs.Physical.Wiring
import Dataflow.Proofs.Stage.Compilable
/-!
# Which descriptions can be built

Operators are added before any edge is made, so it does not matter in what order a description lists
them.  What can be refused is a number that is used twice, and an input that is repeated, unknown or
the operator itself.  All of this is said of the description alone, without its plan.

The plan that is built makes the declared edges and no others.  Two checks that come later compare
the edges of a plan with the inputs of its operators, one in each direction; neither can fail here,
and what is left of the validation is the search for a cycle.

**Proved here.**

    which operators have declared edges that make a well-formed plan  (`wellFormed_declared_iff`)
    the producers and the consumers of a key, in order                (`predecessors_declared`)
    what is built, and what can be said of it                         (`PlanSpec.build_sound`)
-/
namespace Dataflow

theorem flatMap_ite_nil {α β : Type} (l : List α) (f : α → Bool) (g : α → List β) :
    (l.flatMap fun a => if f a then g a else []) = (l.filter f).flatMap g := by
  induction l with
  | nil => rfl
  | cons a l ih =>
      cases hf : f a
      all_goals simp [hf, ih]

namespace Plan

/-! ## The plan of the declared edges -/

variable {ops : List PhysicalOperator} {a b k : Key}

theorem feeds_declared :
    (declared ops).Feeds a b ↔ ∃ op ∈ ops, op.key = b ∧ a ∈ op.inputs := by
  simp [Feeds, declared, PhysicalOperator.declaredEdges, and_comm]

/-- Declared edges make a well-formed plan if the keys are different, and if the inputs of every
operator are different operators, and not the operator itself. -/
theorem wellFormed_declared_iff :
    (declared ops).WellFormed ↔ (ops.map PhysicalOperator.key).Nodup ∧
      ∀ op ∈ ops, op.inputs.Nodup ∧ op.key ∉ op.inputs ∧
        ∀ i ∈ op.inputs, i ∈ ops.map PhysicalOperator.key := by
  constructor
  · intro h
    refine ⟨h.keys_nodup, fun op hop => ?_⟩
    have hnodup := (List.nodup_flatMap.mp h.edges_nodup).1 op hop
    have hfeeds : ∀ i ∈ op.inputs, (declared ops).Feeds i op.key :=
      fun i hi => feeds_declared.mpr ⟨op, hop, rfl, hi⟩
    exact ⟨op.nodup_declaredEdges.mp hnodup, fun hself => h.irrefl (hfeeds _ hself),
      fun i hi => (h.mem_keys (hfeeds i hi)).1⟩
  · rintro ⟨hkeys, hops⟩
    refine ⟨hkeys, List.nodup_flatMap.mpr ⟨?_, ?_⟩, ?_, ?_⟩
    · exact fun op hop => op.nodup_declaredEdges.mpr (hops op hop).1
    · -- edges into different operators
      refine (List.pairwise_map.mp hkeys).imp ?_
      intro o o' hne e he he'
      obtain ⟨_, -, rfl⟩ := List.mem_map.mp he
      obtain ⟨_, -, heq⟩ := List.mem_map.mp he'
      exact hne (congrArg Prod.snd heq).symm
    · intro a b hab
      obtain ⟨op, hop, rfl, ha⟩ := feeds_declared.mp hab
      exact ⟨(hops op hop).2.2 a ha, List.mem_map_of_mem hop⟩
    · intro a haa
      obtain ⟨op, hop, rfl, ha⟩ := feeds_declared.mp haa
      exact (hops op hop).2.1 ha

theorem mem_inputs_iff_feeds (hnodup : (ops.map PhysicalOperator.key).Nodup)
    {op : PhysicalOperator} (hop : op ∈ ops) : k ∈ op.inputs ↔ (declared ops).Feeds k op.key := by
  rw [feeds_declared]
  refine ⟨fun hk => ⟨op, hop, rfl, hk⟩, ?_⟩
  rintro ⟨o, ho, hkey, hk⟩
  exact List.inj_on_of_nodup_map hnodup ho hop hkey ▸ hk

/-- The producers of a key are the inputs of its operator, in order. -/
theorem predecessors_declared :
    (declared ops).predecessors k =
      (ops.filter fun op => op.key = k).flatMap PhysicalOperator.inputs := by
  have hfed : ∀ op : PhysicalOperator, (op.declaredEdges.filter fun e => e.2 = k).map Prod.fst =
      if op.key = k then op.inputs else [] := by
    intro op
    by_cases hk : op.key = k
    all_goals simp [PhysicalOperator.declaredEdges, List.filter_map, Function.comp_def, hk]
  simp only [predecessors, declared, List.filter_flatMap, List.map_flatMap, hfed]
  simpa using flatMap_ite_nil ops (fun op => decide (op.key = k)) PhysicalOperator.inputs

theorem successors_declared (hinputs : ∀ op ∈ ops, op.inputs.Nodup) :
    (declared ops).successors k =
      (ops.filter fun op => k ∈ op.inputs).map PhysicalOperator.key := by
  have hfeeds : ∀ op ∈ ops, (op.declaredEdges.filter fun e => e.1 = k).map Prod.snd =
      if decide (k ∈ op.inputs) then [op.key] else [] := by
    intro op hop
    have hedges : (op.declaredEdges.filter fun e => e.1 = k).map Prod.snd =
        (op.inputs.filter fun a => a = k).map fun _ => op.key := by
      simp [PhysicalOperator.declaredEdges, List.filter_map, Function.comp_def]
    rw [hedges, List.filter_eq]
    by_cases hk : k ∈ op.inputs
    · simp [hk, List.count_eq_one_of_mem (hinputs op hop) hk]
    · simp [hk, List.count_eq_zero_of_not_mem hk]
  simp only [successors, declared, List.filter_flatMap, List.map_flatMap]
  rw [List.flatMap_congr hfeeds, flatMap_ite_nil, List.map_eq_flatMap]

end Plan

namespace PlanSpec

/-! ## Descriptions -/

def key (s : PlanSpec) (id : Nat) : Key := ⟨s.scope, id⟩

/-- A description in which every number and every input can be made sense of. -/
structure WellWired (s : PlanSpec) : Prop where
  ids_nodup : (s.operators.map OperatorSpec.id).Nodup
  inputs_nodup : ∀ op ∈ s.operators, op.inputs.Nodup
  irrefl : ∀ op ∈ s.operators, op.id ∉ op.inputs
  /-- Inputs are listed, before or after the operators that they feed. -/
  listed : ∀ op ∈ s.operators, ∀ i ∈ op.inputs, i ∈ s.operators.map OperatorSpec.id

/-- `a` is an input of `b`. -/
def Takes (s : PlanSpec) (a b : Nat) : Prop := ∃ op ∈ s.operators, op.id = b ∧ a ∈ op.inputs

variable {s : PlanSpec} {p : PhysicalPlan}

theorem key_injective (s : PlanSpec) : Function.Injective s.key :=
  fun _ _ h => congrArg Key.id h

theorem map_key_operator (s : PlanSpec) (ops : List OperatorSpec) :
    (ops.map s.operator).map PhysicalOperator.key = (ops.map OperatorSpec.id).map s.key := by
  rw [List.map_map, List.map_map]
  rfl

theorem wellWired_iff :
    s.WellWired ↔ (Plan.declared (s.operators.map s.operator)).WellFormed := by
  rw [Plan.wellFormed_declared_iff, map_key_operator, List.nodup_map_iff s.key_injective,
    List.forall_mem_map]
  have hmem : ∀ {i : Nat} {l : List Nat}, s.key i ∈ l.map s.key ↔ i ∈ l :=
    List.mem_map_of_injective s.key_injective
  have hop : ∀ op : OperatorSpec, ((s.operator op).inputs.Nodup ∧
      (s.operator op).key ∉ (s.operator op).inputs ∧ ∀ i ∈ (s.operator op).inputs,
        i ∈ (s.operators.map OperatorSpec.id).map s.key) ↔
      op.inputs.Nodup ∧ op.id ∉ op.inputs ∧ ∀ i ∈ op.inputs, i ∈ s.operators.map OperatorSpec.id := by
    intro op
    show ((op.inputs.map s.key).Nodup ∧ s.key op.id ∉ op.inputs.map s.key ∧
      ∀ i ∈ op.inputs.map s.key, _) ↔ _
    rw [List.nodup_map_iff s.key_injective, hmem, List.forall_mem_map]
    simp only [hmem]
  simp only [hop]
  constructor
  · intro h
    exact ⟨h.ids_nodup, fun op hop =>
      ⟨h.inputs_nodup op hop, h.irrefl op hop, h.listed op hop⟩⟩
  · rintro ⟨hids, hops⟩
    exact ⟨hids, fun op hop => (hops op hop).1, fun op hop => (hops op hop).2.1,
      fun op hop => (hops op hop).2.2⟩

/-- Building succeeds for the well-wired descriptions. -/
theorem build_isOk_iff : (∃ p, s.build = .ok p) ↔ s.WellWired := by
  rw [wellWired_iff]
  constructor
  · rintro ⟨p, hp⟩
    obtain ⟨hbuilt, rfl⟩ := build_eq_ok hp
    exact hbuilt.wellFormed
  · intro h
    exact ⟨_, build_of_wellFormed h⟩

theorem feeds_declared_iff {a b : Key} :
    (Plan.declared (s.operators.map s.operator)).Feeds a b ↔
      ∃ i j, s.Takes i j ∧ s.key i = a ∧ s.key j = b := by
  rw [Plan.feeds_declared]
  constructor
  · rintro ⟨_, ho, rfl, ha⟩
    obtain ⟨op, hop, rfl⟩ := List.mem_map.mp ho
    obtain ⟨i, hi, rfl⟩ := List.mem_map.mp ha
    exact ⟨i, op.id, ⟨op, hop, rfl, hi⟩, rfl, rfl⟩
  · rintro ⟨i, _, ⟨op, hop, rfl, hi⟩, rfl, rfl⟩
    exact ⟨s.operator op, List.mem_map_of_mem hop, rfl, List.mem_map_of_mem hi⟩

theorem acyclic_declared_iff : (Plan.declared (s.operators.map s.operator)).Acyclic ↔
    ∀ i, ¬ Relation.TransGen s.Takes i i := by
  constructor
  · intro h i hi
    refine h (s.key i) (Relation.TransGen.lift s.key ?_ _ _ hi)
    intro a b hab
    exact feeds_declared_iff.mpr ⟨a, b, hab, rfl, rfl⟩
  · intro h k hk
    refine h k.id (Relation.TransGen.lift Key.id ?_ _ _ hk)
    intro a b hab
    obtain ⟨i, j, hij, rfl, rfl⟩ := feeds_declared_iff.mp hab
    exact hij

/-- What a description says of its plan. -/
structure Describes (s : PlanSpec) (p : PhysicalPlan) : Prop where
  operators : p.operators = s.operators.map s.operator
  predecessors : ∀ op ∈ s.operators, p.predecessors (s.key op.id) = op.inputs.map s.key
  successors : ∀ op ∈ s.operators, p.successors (s.key op.id) =
    (s.operators.filter fun o => op.id ∈ o.inputs).map fun o => s.key o.id
  /-- Nothing is said of any other key. -/
  strangers : ∀ k ∉ p.keys, p.predecessors k = [] ∧ p.successors k = []
  validate_iff : p.validate = .ok () ↔ ∀ i, ¬ Relation.TransGen s.Takes i i
  resolved : ∀ c k i, StageGraph.compile c p ≠ .error (.plan (.unresolvedInput k i))

theorem describes_of_build (h : s.build = .ok p) : s.Describes p := by
  obtain ⟨hbuilt, rfl⟩ := build_eq_ok h
  have hwf := hbuilt.wellFormed
  obtain ⟨hnodup, hops⟩ := Plan.wellFormed_declared_iff.mp hwf
  have hagree : ∀ op ∈ s.operators.map s.operator, ∀ k,
      k ∈ op.inputs ↔ (Plan.declared (s.operators.map s.operator)).Feeds k op.key :=
    fun op hop k => Plan.mem_inputs_iff_feeds hnodup hop
  refine ⟨rfl, ?_, ?_, fun k hk => hwf.unconnected hk, ?_, ?_⟩
  · intro op hop
    have hmem : s.operator op ∈ s.operators.map s.operator := List.mem_map_of_mem hop
    show (Plan.declared _).predecessors (s.operator op).key = (s.operator op).inputs
    rw [Plan.predecessors_declared, filter_eq_of_nodup_map hnodup hmem, List.flatMap_singleton]
  · intro op hop
    have hinput : ∀ o : OperatorSpec, s.key op.id ∈ (s.operator o).inputs ↔ op.id ∈ o.inputs :=
      fun _ => List.mem_map_of_injective s.key_injective
    rw [Plan.successors_declared fun o ho => (hops o ho).1, List.filter_map, List.map_map]
    simp only [Function.comp_def, hinput]
    rfl
  · rw [Plan.validate_eq_ok, Plan.exists_dependencyKeys_iff hwf, acyclic_declared_iff]
    exact and_iff_right (StageGraph.unresolvedInput?_eq_none_iff.mpr fun op hop i =>
      (hagree op hop i).mp)
  · exact fun c => StageGraph.compile_ne_unresolvedInput hwf hagree

/-- The well-wired descriptions are built, and no others.  What is built lists the operators, the
producers and the consumers in the order of the description, its validation only looks for a cycle,
and the compiler finds no input unresolved. -/
theorem build_sound (s : PlanSpec) :
    ((∃ p, s.build = .ok p) ↔ s.WellWired) ∧ ∀ p, s.build = .ok p → s.Describes p :=
  ⟨build_isOk_iff, fun _ => describes_of_build⟩

theorem forward_described : forward.WellWired ∧ ∃ p, forward.build = .ok p ∧ forward.Describes p :=
  have hok : ∃ p, forward.build = .ok p := ⟨_, rfl⟩
  have ⟨p, hp⟩ := hok
  ⟨(build_sound forward).1.mp hok, p, hp, (build_sound forward).2 p hp⟩

end PlanSpec
end Dataflow
