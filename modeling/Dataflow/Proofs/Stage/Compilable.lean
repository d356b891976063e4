import Dataflow.Proofs.Plan.Acyclic
import Dataflow.Proofs.Stage.Sorting
/-!
# Which plans can be divided into stages

Nothing but the checks can fail.  When an operator is placed, all its inputs have a stage, because
the stages so far are a partition of the operators before it; an operator that passes tuples on has
exactly one input, hence one stage to join.  The links lead from smaller to larger stages, so the
stages have a topological order.  Therefore a plan is compiled as soon as it has passed the checks,
and the two errors that would report a fault of the compiler itself are never returned, whatever the
plan.

**Proved here.**

    an operator whose turn has come is placed          (`Partition.exists_place`)
    the stages of all operators pass their validation  (`Linked.validate`)
    what is compiled, and which errors do not occur    (`compile_isOk_iff`)
-/
namespace Dataflow

/-- A plan that can be divided into stages. -/
structure Plan.Divisible (p : PhysicalPlan) : Prop where
  nonempty : p.operators ≠ []
  acyclic : p.Acyclic
  /-- An operator declares as its inputs those that feed it. -/
  inputs_iff : ∀ op ∈ p.operators, ∀ k, k ∈ op.inputs ↔ p.Feeds k op.key
  arity : ∀ op ∈ p.operators, op.kind.arity.1 ≤ op.inputs.length ∧
    ∀ most, op.kind.arity.2 = some most → op.inputs.length ≤ most
  /-- Who has a list of keys for each input has as many lists as inputs. -/
  keyLists : ∀ op ∈ p.operators, ∀ n, op.kind.keyLists = some n → n = op.inputs.length
  parallelism : ∀ op ∈ p.operators, op.kind.parallelism ≠ some 0

theorem PhysicalOperator.admits_iff {arity : Nat × Option Nat} {n : Nat} :
    admits arity n = true ↔ arity.1 ≤ n ∧ ∀ most, arity.2 = some most → n ≤ most := by
  obtain ⟨least, _ | most⟩ := arity
  · simp [admits]
  · simp [admits]

theorem Plan.divisible_iff {p : PhysicalPlan} :
    p.Divisible ↔ p.operators ≠ [] ∧ p.Acyclic ∧ ∀ op ∈ p.operators, op.Wired p := by
  constructor
  · intro h
    refine ⟨h.nonempty, h.acyclic, fun op hop => ?_⟩
    exact ⟨h.parallelism op hop, PhysicalOperator.admits_iff.mpr (h.arity op hop),
      h.keyLists op hop, h.inputs_iff op hop⟩
  · rintro ⟨hne, hacyclic, hwired⟩
    exact ⟨hne, hacyclic, fun op hop => (hwired op hop).inputs_iff,
      fun op hop => PhysicalOperator.admits_iff.mp (hwired op hop).arity,
      fun op hop => (hwired op hop).keyLists, fun op hop => (hwired op hop).parallelism⟩

namespace StageGraph

/-! ## Placing the operators -/

theorem exists_mapM {α β : Type} {f : α → Option β} {l : List α}
    (h : ∀ a ∈ l, ∃ b, f a = some b) : ∃ l', l.mapM f = some l' := by
  induction l with
  | nil => exact ⟨[], rfl⟩
  | cons a l ih =>
      obtain ⟨b, hb⟩ := h a List.mem_cons_self
      obtain ⟨bs, hbs⟩ := ih fun x hx => h x (List.mem_cons_of_mem _ hx)
      exact ⟨b :: bs, by rw [List.mapM_cons, hb, hbs]; rfl⟩

section Placing
variable {c : CompilerConfig} {p : PhysicalPlan} {ops : List PhysicalOperator} {g : StageGraph}
  {op : PhysicalOperator}

theorem Partition.exists_inputStages (h : Partition c p ops g) (hn : Upcoming p ops op) :
    ∃ ss, g.inputStages op = .ok ss := by
  have hall : ∀ i ∈ op.inputs, ∃ s, g.stageOf? i = some s := by
    intro i hi
    have hplaced := hn.inputs i hi
    obtain ⟨st, hst, hist⟩ := h.exists_stage (hn.opener_mem i hplaced) hplaced
    exact ⟨st.id, (h.assigned _ _).mpr ⟨st, hst, hist, rfl⟩⟩
  obtain ⟨ss, hss⟩ := exists_mapM hall
  exact ⟨ss.eraseDups, by simp only [inputStages, hss]⟩

theorem Partition.inputStages_eq_singleton (h : Partition c p ops g) (hn : Upcoming p ops op)
    (hcat : op.kind.category = .store ∨ op.kind.category = .pipeline) :
    ∃ s, g.inputStages op = .ok [s] := by
  obtain ⟨i, hi⟩ := hn.wired.inputs_eq_singleton hcat
  obtain ⟨ss, hss⟩ := h.exists_inputStages hn
  obtain ⟨hof, -, hall⟩ := inputStages_eq_ok hss
  obtain ⟨s, -, his⟩ := hof i (by simp [hi])
  have hone : ss = [s] := by
    refine hall (by simp [hi]) s ?_
    intro j hj
    rw [hi, List.mem_singleton] at hj
    exact hj ▸ his
  exact ⟨s, hone ▸ hss⟩

/-- An operator whose turn has come is placed. -/
theorem Partition.exists_place (h : Partition c p ops g) (hn : Upcoming p ops op) :
    ∃ g', StageGraph.place c g op = .ok g' := by
  obtain ⟨ss, hss⟩ := h.exists_inputStages hn
  cases hcat : op.kind.category with
  | load =>
      simp only [StageGraph.place, hcat]
      exact ⟨_, rfl⟩
  | store =>
      obtain ⟨s, hs⟩ := h.inputStages_eq_singleton hn (Or.inl hcat)
      simp only [StageGraph.place, hcat, hs]
      exact ⟨_, rfl⟩
  | pipeline =>
      obtain ⟨s, hs⟩ := h.inputStages_eq_singleton hn (Or.inr hcat)
      simp only [StageGraph.place, hcat, hs]
      exact ⟨_, rfl⟩
  | union =>
      simp only [StageGraph.place, hcat, hss]
      split
      · exact ⟨_, rfl⟩
      · exact ⟨_, rfl⟩
      next he => cases he
  | hash =>
      simp only [StageGraph.place, hcat, hss]
      exact ⟨_, rfl⟩
  | sort =>
      simp only [StageGraph.place, hcat, hss]
      split
      · exact ⟨_, rfl⟩
      · exact ⟨_, rfl⟩

theorem Partition.exists_placeAll (hp : p.WellFormed) :
    ∀ {rest placed : List PhysicalOperator} {g : StageGraph}, Arranged p (placed ++ rest) →
      Partition c p placed g → ∃ g', placeAll c rest g = .ok g'
  | [], _, g, _, _ => ⟨g, rfl⟩
  | op :: rest, placed, g, harr, h => by
      have hn := harr.upcoming hp
      obtain ⟨g₁, hg₁⟩ := h.exists_place hn
      rw [List.append_cons] at harr
      obtain ⟨g', hg'⟩ := exists_placeAll hp harr (h.place hn (place_eq_ok hg₁))
      exact ⟨g', by simp only [placeAll, hg₁, hg']⟩

/-! ## Validating the stages -/

/-- The stages of all operators pass their validation. -/
theorem Linked.validate (hp : p.WellFormed) (harr : Arranged p ops) (h : Partition c p ops g)
    (hl : Linked ops g) : g.validate = .ok () := by
  obtain ⟨order, horder⟩ := exists_topologicalOrder (hl.wired h)
    (not_transGen_self StageId.val hl.ascending)
  have hnone : g.plan.keys.find? (fun k => (g.stageOf? k).isNone) = none := by
    rw [List.find?_eq_none, h.plan]
    intro k hk
    obtain ⟨st, -, -, hst⟩ := h.exists_stageOf? hp harr hk
    rw [hst]
    exact Bool.false_ne_true
  simp only [StageGraph.validate, hnone, horder]
  rfl

end Placing

theorem Arranged.exists_stages (c : CompilerConfig) {p : PhysicalPlan} (hp : p.WellFormed)
    {ops : List PhysicalOperator} (harr : Arranged p ops) :
    ∃ g, placeAll c ops (ofPlan p) = .ok g ∧ g.validate = .ok () := by
  have hrow : Arranged p ([] ++ ops) := harr
  obtain ⟨g, hplace⟩ := Partition.exists_placeAll hp hrow (Partition.ofPlan (c := c))
  obtain ⟨hpart, hlinked⟩ := harr.linked hp hplace
  exact ⟨g, hplace, hlinked.validate hp harr hpart⟩

/-! ## What the compiler answers -/

theorem exists_compile {c : CompilerConfig} {p : PhysicalPlan} (hp : p.WellFormed)
    (h : p.Divisible) : ∃ g, compile c p = .ok g := by
  obtain ⟨hne, hacyclic, hwired⟩ := Plan.divisible_iff.mp h
  obtain ⟨order, horder⟩ := (Plan.exists_dependencyKeys_iff hp).mpr hacyclic
  obtain ⟨hinputs, hcheck⟩ := wired_iff_checked.mp hwired
  obtain ⟨-, harr⟩ := arranged_resolve hp (Plan.dependencyKeys_eq_ok hp horder) hwired
  obtain ⟨g, hplace, hvalid⟩ := harr.exists_stages c hp
  have hempty : p.isEmpty = false := by
    rw [Plan.isEmpty, List.isEmpty_eq_false_iff]
    exact hne
  have hplan : p.validate = .ok () := by
    simp only [Plan.validate, hinputs, horder]
    rfl
  simp only [compile, hempty, hplan, hcheck, horder, hplace, hvalid]
  exact ⟨g, rfl⟩

theorem divisible_of_compile {c : CompilerConfig} {p : PhysicalPlan} {g : StageGraph}
    (hp : p.WellFormed) (h : compile c p = .ok g) : p.Divisible := by
  obtain ⟨order, ops, horder, -, harr, -, -⟩ := compile_eq_ok hp h
  refine Plan.divisible_iff.mpr ⟨?_, ?_, ?_⟩
  · intro hnil
    have hempty : compile c p = .error .emptyPlan := by
      simp only [compile, Plan.isEmpty, hnil]
      rfl
    rw [hempty] at h
    cases h
  · exact (Plan.exists_dependencyKeys_iff hp).mp ⟨order, horder⟩
  · intro op hop
    exact harr.wired op ((harr.mem_iff op).mpr hop)

theorem compile_eq_error {c : CompilerConfig} {p : PhysicalPlan} {e : CompileError}
    (hp : p.WellFormed) (h : compile c p = .error e) :
    e = .emptyPlan ∨ (∃ e', e = .plan e' ∧ p.validate = .error e') ∨
      ∃ op ∈ p.operators, op.check p = .error e := by
  simp only [compile] at h
  split at h
  · cases h
    exact Or.inl rfl
  split at h
  next e' hrefused =>
    cases h
    exact Or.inr (Or.inl ⟨e', rfl, hrefused⟩)
  next hvalid =>
    split at h
    next e' hcheck =>
      cases h
      exact Or.inr (Or.inr (checkAll_eq_error hcheck))
    next hcheck =>
      split at h
      next e' hrefused =>
        obtain ⟨-, order, horder⟩ := Plan.validate_eq_ok.mp hvalid
        rw [horder] at hrefused
        cases hrefused
      next order horder =>
        -- everything was checked, so the stages are there
        have hwired := wired_iff_checked.mpr ⟨(Plan.validate_eq_ok.mp hvalid).1, hcheck⟩
        obtain ⟨-, harr⟩ := arranged_resolve hp (Plan.dependencyKeys_eq_ok hp horder) hwired
        obtain ⟨g, hplace, hg⟩ := harr.exists_stages c hp
        rw [hplace] at h
        dsimp only at h
        rw [hg] at h
        cases h

/-- Where operators declare as inputs what feeds them, no input is reported to be unresolved. -/
theorem compile_ne_unresolvedInput {c : CompilerConfig} {p : PhysicalPlan} (hp : p.WellFormed)
    (hinputs : ∀ op ∈ p.operators, ∀ k, k ∈ op.inputs ↔ p.Feeds k op.key) (k i : Key) :
    compile c p ≠ .error (.plan (.unresolvedInput k i)) := by
  have hnone := unresolvedInput?_eq_none_iff.mpr fun op hop i => (hinputs op hop i).mp
  intro h
  obtain he | ⟨e', he, hrefused⟩ | ⟨op, hop, hcheck⟩ := compile_eq_error hp h
  · cases he
  · cases he
    obtain ⟨_, _, hinput, -⟩ | ⟨-, horder⟩ := Plan.validate_eq_error hrefused
    · rw [hnone] at hinput
      cases hinput
    · obtain ⟨_, he⟩ := Plan.keys_eq_error (w := ⟨.dependencyOrder, p⟩) horder
      cases he
  · obtain he | ⟨_, _, he⟩ | ⟨extra, ⟨hfeeds, hnew⟩, -⟩ := PhysicalOperator.check_eq_error hcheck
    · cases he
    · cases he
    · exact hnew ((hinputs op hop extra).mpr hfeeds)

/-- A plan is compiled just when it can be divided, and the compiler is never at fault: no input is
without a stage, and no stages form a cycle. -/
theorem compile_isOk_iff (c : CompilerConfig) {p : PhysicalPlan} (hp : p.Built) :
    ((∃ g, compile c p = .ok g) ↔ p.Divisible) ∧
      (∀ k, compile c p ≠ .error (.missingStage k)) ∧
      ∀ s, compile c p ≠ .error (.cycle s) := by
  have hrefused : ∀ e, compile c p = .error e → (∀ k, e ≠ .missingStage k) ∧ ∀ s, e ≠ .cycle s := by
    intro e he
    obtain rfl | ⟨e', rfl, -⟩ | ⟨op, -, hop⟩ := compile_eq_error hp.wellFormed he
    · simp
    · simp
    · obtain rfl | ⟨_, _, rfl⟩ | ⟨_, -, rfl⟩ := PhysicalOperator.check_eq_error hop
      all_goals simp
  refine ⟨⟨?_, exists_compile hp.wellFormed⟩, ?_, ?_⟩
  · rintro ⟨g, hg⟩
    exact divisible_of_compile hp.wellFormed hg
  · intro k hk
    exact (hrefused _ hk).1 k rfl
  · intro s hs
    exact (hrefused _ hs).2 s rfl

theorem branched_compile_isOk : branched.Built ∧ (∃ g, compile {} branched = .ok g) ∧
    branched.Divisible :=
  have hp : branched.Built := Plan.built_ofOperators _
  have hok : ∃ g, compile {} branched = .ok g := ⟨branchedStages, by cbv⟩
  ⟨hp, hok, (compile_isOk_iff {} hp).1.mp hok⟩

end StageGraph
end Dataflow
