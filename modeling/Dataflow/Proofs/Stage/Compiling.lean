import Dataflow.Proofs.Plan.DependencyOrder
import Dataflow.Stage.Compile
/-!
# What a compiled plan was checked for

Before the first stage is opened a plan has passed three checks: every declared input feeds its
operator, every operator suits its arity and declares all that feeds it, and the plan has a
dependency order.  So from here on the edges of the plan and the inputs of its operators say the
same, and the operators stand in a list in which each comes after its inputs.

**Proved here.**

    compiled  ⟹  every operator is wired, and the stages are those of the
                  operators placed one by one in dependency order              (`compile_eq_ok`)
-/
namespace Dataflow

@[simp] theorem PhysicalOperator.planKey (op : PhysicalOperator) : PlanNode.key op = op.key := rfl

/-- An operator that suits its plan and its arity. -/
structure PhysicalOperator.Wired (p : PhysicalPlan) (op : PhysicalOperator) : Prop where
  parallelism : op.kind.parallelism ≠ some 0
  arity : PhysicalOperator.admits op.kind.arity op.inputs.length = true
  keyLists : ∀ n, op.kind.keyLists = some n → n = op.inputs.length
  inputs_iff : ∀ k, k ∈ op.inputs ↔ p.Feeds k op.key

namespace PhysicalOperator

theorem checkEdges_eq_ok {p : PhysicalPlan} {op : PhysicalOperator} :
    check.checkEdges p op = .ok () ↔ ∀ k, p.Feeds k op.key → k ∈ op.inputs := by
  simp only [check.checkEdges]
  split
  next extra hextra =>
    have hfeeds : p.Feeds extra op.key :=
      Plan.mem_predecessors.mp (List.mem_of_find?_eq_some hextra)
    have hnew : extra ∉ op.inputs := by simpa using List.find?_some hextra
    exact ⟨fun h => (by cases h), fun h => absurd (h extra hfeeds) hnew⟩
  next hnone =>
    refine ⟨?_, fun _ => rfl⟩
    intro _ k hk
    simpa using List.find?_eq_none.mp hnone k (Plan.mem_predecessors.mpr hk)

theorem check_eq_ok {p : PhysicalPlan} {op : PhysicalOperator} :
    op.check p = .ok () ↔
      op.kind.parallelism ≠ some 0 ∧ admits op.kind.arity op.inputs.length = true ∧
        (∀ n, op.kind.keyLists = some n → n = op.inputs.length) ∧
        ∀ k, p.Feeds k op.key → k ∈ op.inputs := by
  simp only [check]
  by_cases hzero : op.kind.parallelism = some 0
  · simp [hzero]
  by_cases harity : admits op.kind.arity op.inputs.length = true
  · cases hlists : op.kind.keyLists with
    | none => simp [hzero, harity, checkEdges_eq_ok]
    | some n =>
        by_cases hn : n = op.inputs.length
        · simp [hzero, harity, hn, checkEdges_eq_ok]
        · simp [hzero, harity, hn]
  · simp [hzero, harity]

theorem checkEdges_eq_error {p : PhysicalPlan} {op : PhysicalOperator} {e : CompileError}
    (h : check.checkEdges p op = .error e) :
    ∃ extra, (p.Feeds extra op.key ∧ extra ∉ op.inputs) ∧
      e = .plan (.unresolvedInput op.key extra) := by
  simp only [check.checkEdges] at h
  split at h
  next extra hextra =>
    cases h
    exact ⟨extra, ⟨Plan.mem_predecessors.mp (List.mem_of_find?_eq_some hextra),
      by simpa using List.find?_some hextra⟩, rfl⟩
  · cases h

theorem check_eq_error {p : PhysicalPlan} {op : PhysicalOperator} {e : CompileError}
    (h : op.check p = .error e) :
    e = .zeroParallelism op.key ∨ (∃ expected found, e = .arity op.key expected found) ∨
      ∃ extra, (p.Feeds extra op.key ∧ extra ∉ op.inputs) ∧
        e = .plan (.unresolvedInput op.key extra) := by
  simp only [check] at h
  split at h
  · cases h
    exact Or.inl rfl
  split at h
  · cases h
    exact Or.inr (Or.inl ⟨_, _, rfl⟩)
  split at h
  · split at h
    · cases h
      exact Or.inr (Or.inl ⟨_, _, rfl⟩)
    · exact Or.inr (Or.inr (checkEdges_eq_error h))
  · exact Or.inr (Or.inr (checkEdges_eq_error h))

end PhysicalOperator

namespace StageGraph

theorem checkAll_eq_ok {p : PhysicalPlan} : ∀ {ops : List PhysicalOperator},
    checkAll p ops = .ok () ↔ ∀ op ∈ ops, op.check p = .ok ()
  | [] => by simp [checkAll]
  | op :: ops => by
      cases hop : op.check p with
      | error e => simp [checkAll, hop]
      | ok u =>
          have ih : checkAll p ops = .ok () ↔ _ := checkAll_eq_ok
          simp [checkAll, hop, ih]

theorem checkAll_eq_error {p : PhysicalPlan} {e : CompileError} : ∀ {ops : List PhysicalOperator},
    checkAll p ops = .error e → ∃ op ∈ ops, op.check p = .error e
  | [], h => by cases h
  | op :: ops, h => by
      simp only [checkAll] at h
      split at h
      next =>
        obtain ⟨o, ho, hcheck⟩ := checkAll_eq_error h
        exact ⟨o, List.mem_cons_of_mem _ ho, hcheck⟩
      next hcheck =>
        cases h
        exact ⟨op, List.mem_cons_self, hcheck⟩

theorem unresolvedInput?_eq_none_iff {p : PhysicalPlan} :
    p.unresolvedInput? = none ↔ ∀ op ∈ p.operators, ∀ i ∈ op.inputs, p.Feeds i op.key := by
  rw [Plan.unresolvedInput?_eq_none]
  refine forall₂_congr fun op _ => ⟨fun h => h op.inputs rfl, ?_⟩
  rintro h _ ⟨⟩
  exact h

theorem wired_iff_checked {p : PhysicalPlan} :
    (∀ op ∈ p.operators, op.Wired p) ↔
      p.unresolvedInput? = none ∧ checkAll p p.operators = .ok () := by
  rw [unresolvedInput?_eq_none_iff, checkAll_eq_ok]
  constructor
  · intro hwired
    refine ⟨?_, ?_⟩
    · exact fun op hop i => ((hwired op hop).inputs_iff i).mp
    · intro op hop
      obtain ⟨hpar, harity, hlists, hiff⟩ := hwired op hop
      exact PhysicalOperator.check_eq_ok.mpr ⟨hpar, harity, hlists, fun k => (hiff k).mpr⟩
  · rintro ⟨hinputs, hcheck⟩ op hop
    obtain ⟨hpar, harity, hlists, hfeeds⟩ := PhysicalOperator.check_eq_ok.mp (hcheck op hop)
    exact ⟨hpar, harity, hlists, fun k => ⟨hinputs op hop k, hfeeds k⟩⟩

/-- The operators of a plan in a row, each after its inputs. -/
structure Arranged (p : PhysicalPlan) (ops : List PhysicalOperator) : Prop where
  mem_iff : ∀ op, op ∈ ops ↔ op ∈ p.operators
  nodup : (ops.map PhysicalOperator.key).Nodup
  wired : ∀ op ∈ ops, op.Wired p
  inputs_first : ∀ l₁ op l₂, ops = l₁ ++ op :: l₂ →
    ∀ i ∈ op.inputs, i ∈ l₁.map PhysicalOperator.key

theorem arranged_resolve {p : PhysicalPlan} (hp : p.WellFormed) {order : List Key}
    (horder : p.IsDependencyOrder order) (hwired : ∀ op ∈ p.operators, op.Wired p) :
    ((p.resolve order).map Subtype.val).map PhysicalOperator.key = order ∧
      Arranged p ((p.resolve order).map Subtype.val) := by
  have hkeys : ((p.resolve order).map Subtype.val).map PhysicalOperator.key = order :=
    Plan.map_key_resolve hp fun k hk => (horder.mem_iff k).mp hk
  have hmem : ∀ op, op ∈ (p.resolve order).map Subtype.val ↔ op ∈ p.operators :=
    fun op => Plan.mem_resolve hp horder.mem_iff
  refine ⟨hkeys, hmem, by rw [hkeys]; exact horder.nodup,
    fun op hop => hwired op ((hmem op).mp hop), ?_⟩
  · intro l₁ op l₂ hsplit i hi
    have hop : op ∈ (p.resolve order).map Subtype.val := by simp [hsplit]
    have hlist : order = l₁.map PhysicalOperator.key ++ op.key :: l₂.map PhysicalOperator.key := by
      rw [← hkeys, hsplit, List.map_append, List.map_cons]
    exact horder.producers_first _ _ _ hlist i
      (((hwired op ((hmem op).mp hop)).inputs_iff i).mp hi)

/-- A compiled plan has passed its checks, and its operators were placed in dependency order. -/
theorem compile_eq_ok {c : CompilerConfig} {p : PhysicalPlan} {g : StageGraph} (hp : p.WellFormed)
    (h : compile c p = .ok g) :
    ∃ order ops, p.dependencyKeys = .ok order ∧ ops.map PhysicalOperator.key = order ∧
      Arranged p ops ∧ placeAll c ops (ofPlan p) = .ok g ∧ g.validate = .ok () := by
  simp only [compile] at h
  split at h
  · cases h
  split at h
  · cases h
  next hvalid =>
    split at h
    · cases h
    next hcheck =>
      split at h
      · cases h
      next order horder =>
        split at h
        · cases h
        next g' hplace =>
          obtain ⟨u, hg, rfl⟩ : ∃ u, g'.validate = .ok u ∧ g' = g := by
            cases hg : g'.validate with
            | error e => rw [hg] at h; cases h
            | ok u => rw [hg] at h; cases h; exact ⟨u, rfl, rfl⟩
          have hwired :=
            wired_iff_checked.mpr ⟨(Plan.validate_eq_ok.mp hvalid).1, hcheck⟩
          obtain ⟨hkeys, harranged⟩ :=
            arranged_resolve hp (Plan.dependencyKeys_eq_ok hp horder) hwired
          exact ⟨order, _, horder, hkeys, harranged, hplace, hg⟩

end StageGraph
end Dataflow
