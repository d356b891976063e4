import Dataflow.Proofs.Stage.Partition
/-!
# The links between stages

A link is made for what one stage hands to another, and for nothing else.  What an operator is the
reason of, `Handover`, is said by the stages of its inputs, its own stage and the stage that samples
for it; none of these changes when later operators are placed.  So the invariant `Linked` is an
equivalence, and placing an operator adds to both sides the same links.

**Proved here.**

    what is placed earlier keeps its stages                   (`Handover.congr`)
    placing an operator makes just the links it is a reason of (`Linked.joins`, `.opens`, `.samples`)
    the links of a compiled plan                              (`compile_justifiedEdges`)
-/
namespace Dataflow.StageGraph

/-- `s` is the stage that samples the input of the total order `k`. -/
def Samples (g : StageGraph) (k : Key) (s : StageId) : Prop :=
  ∃ st ∈ g.stages, st.sampledFor? = some k ∧ st.id = s

/-- An operator is a reason for `b` to read from `a`. -/
def Handover (g : StageGraph) (op : PhysicalOperator) (a b : StageId) : Prop :=
  ((∃ i ∈ op.inputs, g.stageOf? i = some a) ∧ (g.stageOf? op.key = some b ∨ g.Samples op.key b)) ∨
    (g.Samples op.key a ∧ g.stageOf? op.key = some b)

/-- The links after some operators were placed. -/
structure Linked (ops : List PhysicalOperator) (g : StageGraph) : Prop where
  mirrored : g.Mirrored
  ascending : ∀ a b, g.Links a b → a.val < b.val
  links_iff : ∀ a b, g.Links a b ↔ a ≠ b ∧ ∃ op ∈ ops, g.Handover op a b

/-! ## What an operator is a reason of -/

section Reasons
variable {c : CompilerConfig} {p : PhysicalPlan} {ops : List PhysicalOperator} {g g' : StageGraph}
  {op : PhysicalOperator} {a b : StageId}

theorem Handover.congr (hkey : g'.stageOf? op.key = g.stageOf? op.key)
    (hin : ∀ i ∈ op.inputs, g'.stageOf? i = g.stageOf? i)
    (hsample : ∀ s, g'.Samples op.key s ↔ g.Samples op.key s) :
    g'.Handover op a b ↔ g.Handover op a b := by
  have hinputs : (∃ i ∈ op.inputs, g'.stageOf? i = some a) ↔
      ∃ i ∈ op.inputs, g.stageOf? i = some a :=
    exists_congr fun i => and_congr_right fun hi => by rw [hin i hi]
  simp only [Handover, hinputs, hkey, hsample]

theorem Partition.sampled (h : Partition c p ops g) {k : Key} {s : StageId} (hs : g.Samples k s) :
    ∃ op ∈ ops, op.key = k ∧ Sampled c op := by
  obtain ⟨st, hst, hfor, -⟩ := hs
  have hmem : k ∈ (ops.filter fun op => Sampled c op).map PhysicalOperator.key := by
    rw [← h.samples]
    exact List.mem_filterMap.mpr ⟨st, hst, hfor⟩
  obtain ⟨op, hop, rfl⟩ := List.mem_map.mp hmem
  obtain ⟨hop, hsamp⟩ := List.mem_filter.mp hop
  exact ⟨op, hop, rfl, of_decide_eq_true hsamp⟩

theorem Partition.not_samples (h : Partition c p ops g) (hnodup : (ops.map PhysicalOperator.key).Nodup)
    (hop : op ∈ ops) (hs : ¬ Sampled c op) : ¬ g.Samples op.key b := by
  intro hsample
  obtain ⟨o, ho, hkey, hsamp⟩ := h.sampled hsample
  obtain rfl := List.inj_on_of_nodup_map hnodup ho hop hkey
  exact hs hsamp

theorem Partition.lt_size_of_stageOf? (h : Partition c p ops g) {k : Key}
    (hk : g.stageOf? k = some a) : a.val < g.size := by
  obtain ⟨st, hst, -, rfl⟩ := (h.assigned k a).mp hk
  exact h.numbered.lt_size hst

theorem Partition.lt_size_of_input (h : Partition c p ops g)
    (ha : ∃ i ∈ op.inputs, g.stageOf? i = some a) : a.val < g.size := by
  obtain ⟨i, -, hia⟩ := ha
  exact h.lt_size_of_stageOf? hia

theorem mem_inputStages {ss : List StageId} (hin : g.inputStages op = .ok ss) :
    a ∈ ss ↔ ∃ i ∈ op.inputs, g.stageOf? i = some a := by
  obtain ⟨hof, hfrom, -⟩ := inputStages_eq_ok hin
  constructor
  · exact hfrom a
  · rintro ⟨i, hi, hia⟩
    obtain ⟨s, hs, his⟩ := hof i hi
    obtain rfl := Option.some.inj (his.symm.trans hia)
    exact hs

theorem Opens.mem_inputs {kind : StageKind} {n : Nat} {bound : Option Key} {ss : List StageId}
    (ho : Opens c g op kind n bound ss) (hw : op.Wired p) :
    a ∈ ss ↔ ∃ i ∈ op.inputs, g.stageOf? i = some a := by
  cases ho with
  | source hcat => simp [hw.inputs_eq_nil hcat]
  | merge _ hin _ => exact mem_inputStages hin
  | shuffle _ hin => exact mem_inputStages hin

end Reasons

/-! ## Placing one more operator -/

/-- What does not change for the operators placed before. -/
structure Extends (ops : List PhysicalOperator) (g g' : StageGraph) : Prop where
  stageOf? : ∀ k ∈ ops.map PhysicalOperator.key, g'.stageOf? k = g.stageOf? k
  samples : ∀ k ∈ ops.map PhysicalOperator.key, ∀ s, g'.Samples k s ↔ g.Samples k s

section Steps
variable {c : CompilerConfig} {p : PhysicalPlan} {ops : List PhysicalOperator} {g g' : StageGraph}
  {op : PhysicalOperator} {a b : StageId}

/-- The inputs of the next operator were placed before. -/
theorem Extends.inputs (hext : Extends ops g g') (hn : Upcoming p ops op) :
    (∃ i ∈ op.inputs, g'.stageOf? i = some a) ↔ ∃ i ∈ op.inputs, g.stageOf? i = some a :=
  exists_congr fun i => and_congr_right fun hi => by rw [hext.stageOf? i (hn.inputs i hi)]

/-- The links after a step are right if the new ones are those that the new operator is a reason of. -/
theorem Linked.extend (hn : Upcoming p ops op) (hl : Linked ops g) (hext : Extends ops g g')
    (hmirrored : g'.Mirrored)
    (hnew : ∀ a b, g'.Links a b ↔ g.Links a b ∨ (a ≠ b ∧ g'.Handover op a b))
    (hasc : ∀ a b, a ≠ b → g'.Handover op a b → a.val < b.val) : Linked (ops ++ [op]) g' := by
  have hold : ∀ o ∈ ops, ∀ a b, g'.Handover o a b ↔ g.Handover o a b := fun o ho a b =>
    Handover.congr (hext.stageOf? o.key (List.mem_map_of_mem ho))
      (fun i hi => hext.stageOf? i (hn.earlier o ho i hi))
      (hext.samples o.key (List.mem_map_of_mem ho))
  refine ⟨hmirrored, ?_, ?_⟩
  · intro a b hab
    rcases (hnew a b).mp hab with hab | ⟨hne, ho⟩
    · exact hl.ascending a b hab
    · exact hasc a b hne ho
  · intro a b
    rw [hnew, hl.links_iff]
    constructor
    · rintro (⟨hne, o, ho, hover⟩ | ⟨hne, hover⟩)
      · exact ⟨hne, o, List.mem_append_left _ ho, (hold o ho a b).mpr hover⟩
      · exact ⟨hne, op, by simp, hover⟩
    · rintro ⟨hne, o, ho, hover⟩
      rcases List.mem_append.mp ho with ho | ho
      · exact Or.inl ⟨hne, o, ho, (hold o ho a b).mp hover⟩
      · obtain rfl := List.mem_singleton.mp ho
        exact Or.inr ⟨hne, hover⟩

theorem samples_assign {k k' : Key} {s t : StageId} :
    (g.assign k s).Samples k' t ↔ g.Samples k' t := by
  simp [Samples, stages_assign, Stage.sampledFor?_receive]

theorem extends_append {new : List Stage} (hn : Upcoming p ops op)
    (hstageOf : ∀ k, k ≠ op.key → g'.stageOf? k = g.stageOf? k)
    (hstages : g'.stages = g.stages ++ new)
    (hfor : ∀ st ∈ new, ∀ k, st.sampledFor? = some k → k = op.key) : Extends ops g g' := by
  have hne : ∀ k ∈ ops.map PhysicalOperator.key, k ≠ op.key := fun k hk he => hn.fresh (he ▸ hk)
  refine ⟨fun k hk => hstageOf k (hne k hk), ?_⟩
  intro k hk s
  constructor
  · rintro ⟨st, hst, hst_for, hid⟩
    rw [hstages] at hst
    rcases List.mem_append.mp hst with hst | hst
    · exact ⟨st, hst, hst_for, hid⟩
    · exact absurd (hfor st hst k hst_for) (hne k hk)
  · rintro ⟨st, hst, hst_for, hid⟩
    exact ⟨st, hstages ▸ List.mem_append_left _ hst, hst_for, hid⟩

theorem samples_opened {s : StageId} {n : Nat} {st : Stage} (h : Partition c p ops g)
    (hn : Upcoming p ops op)
    (hstages : g'.stages = g.stages ++ [⟨s, .sample, n, some op.key, []⟩] ++ [st])
    (hst : st.sampledFor? ≠ some op.key) : g'.Samples op.key b ↔ b = s := by
  rw [Samples, hstages]
  constructor
  · rintro ⟨st', hst', hfor, rfl⟩
    rcases List.mem_append.mp hst' with hst' | hst'
    · rcases List.mem_append.mp hst' with hst' | hst'
      · obtain ⟨o, ho, hok, -⟩ := h.sampled ⟨st', hst', hfor, rfl⟩
        exact absurd (hok ▸ List.mem_map_of_mem ho) hn.fresh
      · obtain rfl := List.mem_singleton.mp hst'
        rfl
    · obtain rfl := List.mem_singleton.mp hst'
      exact absurd hfor hst
  · rintro rfl
    exact ⟨⟨b, .sample, n, some op.key, []⟩, by simp, rfl, rfl⟩

/-- An operator that joins the stage of its inputs needs no link. -/
theorem Linked.joins {s : StageId} (h : Partition c p ops g) (hn : Upcoming p ops op)
    (hl : Linked ops g)
    (hcat : op.kind.category = .store ∨ op.kind.category = .pipeline ∨ op.kind.category = .union)
    (hin : g.inputStages op = .ok [s]) : Linked (ops ++ [op]) (g.assign op.key s) := by
  have h' := h.joins hn hcat hin
  have hext : Extends ops g (g.assign op.key s) :=
    ⟨fun k hk => stageOf?_assign_of_ne fun he => hn.fresh (he ▸ hk), fun k _ t => samples_assign⟩
  have hnone : ∀ a b, a ≠ b → ¬ (g.assign op.key s).Handover op a b := by
    have hno : ∀ t, ¬ (g.assign op.key s).Samples op.key t :=
      fun t => h'.not_samples hn.nodup_append (by simp) (not_sampled hcat)
    rintro a b hne (⟨hinput, hb | hb⟩ | ⟨ha, -⟩)
    · have ha : a ∈ [s] := (mem_inputStages hin).mpr ((hext.inputs hn).mp hinput)
      rw [stageOf?_assign, if_pos rfl] at hb
      exact hne ((List.mem_singleton.mp ha).trans (Option.some.inj hb))
    · exact hno b hb
    · exact hno a ha
  exact hl.extend hn hext hl.mirrored.assign
    (fun a b => ⟨Or.inl, fun hab => hab.elim id fun hab => absurd hab.2 (hnone a b hab.1)⟩)
    fun a b hne hab => absurd hab (hnone a b hne)

/-- An operator that opens a stage has it read from the stages of its inputs. -/
theorem Linked.opens {kind : StageKind} {n : Nat} {bound : Option Key} {ss : List StageId}
    (h : Partition c p ops g) (hn : Upcoming p ops op) (hl : Linked ops g)
    (ho : Opens c g op kind n bound ss) (hsort : ¬ Sampled c op) :
    Linked (ops ++ [op]) (g.openFor op kind n bound ss) := by
  have h' := h.opens hn ho hsort
  have hno : ∀ t, ¬ (g.openFor op kind n bound ss).Samples op.key t :=
    fun t => h'.not_samples hn.nodup_append (by simp) hsort
  have hkind : kind ≠ .sample := by cases ho <;> simp
  have hext : Extends ops g (g.openFor op kind n bound ss) :=
    extends_append hn (fun k hk => by rw [stageOf?_openFor, if_neg hk])
      (stages_openFor h.numbered) (by simp [Stage.sampledFor?, hkind])
  have hinputs : ∀ a, (∃ i ∈ op.inputs, (g.openFor op kind n bound ss).stageOf? i = some a) ↔
      a ∈ ss := fun a => (hext.inputs hn).trans (ho.mem_inputs hn.wired).symm
  have hover : ∀ a b, (g.openFor op kind n bound ss).Handover op a b ↔
      a ∈ ss ∧ b = ⟨g.size⟩ := by
    intro a b
    have hkey : (g.openFor op kind n bound ss).stageOf? op.key = some b ↔ b = ⟨g.size⟩ := by
      rw [stageOf?_openFor, if_pos rfl, Option.some.injEq, eq_comm]
    simp only [Handover, hinputs, hkey, hno, or_false, false_and]
  have hlt : ∀ a ∈ ss, a.val < g.size := fun a ha =>
    h.lt_size_of_input ((ho.mem_inputs hn.wired).mp ha)
  obtain ⟨hmirrored, hlinks⟩ := hl.mirrored.openFor op kind n bound hlt
  refine hl.extend hn hext hmirrored ?_ ?_
  · intro a b
    rw [hlinks, hover]
    constructor
    · rintro (hab | ⟨rfl, ha⟩)
      · exact Or.inl hab
      · exact Or.inr ⟨fun he => Nat.lt_irrefl _ (he ▸ hlt a ha), ha, rfl⟩
    · rintro (hab | ⟨-, ha, rfl⟩)
      · exact Or.inl hab
      · exact Or.inr ⟨rfl, ha⟩
  · intro a b _ hab
    obtain ⟨ha, rfl⟩ := (hover a b).mp hab
    exact hlt a ha

/-- A total order whose input is sampled reads from the stages of its inputs and from that which
samples them. -/
theorem Linked.samples {ss : List StageId} (h : Partition c p ops g) (hn : Upcoming p ops op)
    (hl : Linked ops g) (hin : g.inputStages op = .ok ss) :
    Linked (ops ++ [op]) ((g.openSample op ss).openFor op .shuffle (shuffleParallelism c op)
      (some op.key) (⟨g.size⟩ :: ss)) := by
  have hlt : ∀ a ∈ ss, a.val < g.size := fun a ha =>
    h.lt_size_of_input ((mem_inputStages hin).mp ha)
  obtain ⟨hmirrored, hlinks⟩ := hl.mirrored.openSample op hlt
  have hlt' : ∀ a ∈ (⟨g.size⟩ : StageId) :: ss, a.val < (g.openSample op ss).size := by
    rw [size_openSample]
    exact List.forall_mem_cons.mpr ⟨Nat.lt_succ_self _, fun a ha => Nat.lt_succ_of_lt (hlt a ha)⟩
  obtain ⟨hmirrored', hlinks'⟩ :=
    hmirrored.openFor op .shuffle (shuffleParallelism c op) (some op.key) hlt'
  have hstages : ((g.openSample op ss).openFor op .shuffle (shuffleParallelism c op)
      (some op.key) (⟨g.size⟩ :: ss)).stages = _ := stages_openFor h.numbered.openSample
  have hstageOf : ∀ k, ((g.openSample op ss).openFor op .shuffle (shuffleParallelism c op)
      (some op.key) (⟨g.size⟩ :: ss)).stageOf? k =
        if k = op.key then some ⟨g.size + 1⟩ else g.stageOf? k := by
    intro k
    rw [stageOf?_openFor, stageOf?_openSample, size_openSample]
  rw [stages_openSample, size_openSample] at hstages
  -- from here on only the stages and links of the result matter, not how it was built
  generalize (g.openSample op ss).openFor op .shuffle (shuffleParallelism c op) (some op.key)
    (⟨g.size⟩ :: ss) = g' at hmirrored' hlinks' hstages hstageOf ⊢
  have hext : Extends ops g g' :=
    extends_append hn (fun k hk => by rw [hstageOf, if_neg hk])
      (hstages.trans (List.append_assoc _ _ _)) (by simp [Stage.sampledFor?, eq_comm])
  have hsample : ∀ b, g'.Samples op.key b ↔ b = ⟨g.size⟩ :=
    fun b => samples_opened h hn hstages (by simp [Stage.sampledFor?])
  have hinputs : ∀ a, (∃ i ∈ op.inputs, g'.stageOf? i = some a) ↔ a ∈ ss :=
    fun a => (hext.inputs hn).trans (mem_inputStages hin).symm
  have hover : ∀ a b, g'.Handover op a b ↔ (a ∈ ss ∧ (b = ⟨g.size + 1⟩ ∨ b = ⟨g.size⟩)) ∨
      (a = ⟨g.size⟩ ∧ b = ⟨g.size + 1⟩) := by
    intro a b
    have hkey : g'.stageOf? op.key = some b ↔ b = ⟨g.size + 1⟩ := by
      rw [hstageOf, if_pos rfl, Option.some.injEq, eq_comm]
    simp only [Handover, hinputs, hkey, hsample]
  refine hl.extend hn hext hmirrored' ?_ ?_
  · intro a b
    rw [hlinks', hlinks, hover, size_openSample]
    constructor
    · rintro ((hab | ⟨rfl, ha⟩) | ⟨rfl, ha⟩)
      · exact Or.inl hab
      · exact Or.inr ⟨fun he => Nat.lt_irrefl _ (he ▸ hlt a ha), Or.inl ⟨ha, Or.inr rfl⟩⟩
      · rcases List.mem_cons.mp ha with rfl | ha
        · exact Or.inr ⟨fun he => Nat.succ_ne_self _ (congrArg StageId.val he).symm, Or.inr ⟨rfl, rfl⟩⟩
        · exact Or.inr ⟨fun he => Nat.lt_irrefl _ (Nat.lt_of_succ_lt (he ▸ hlt a ha)),
            Or.inl ⟨ha, Or.inl rfl⟩⟩
    · rintro (hab | ⟨-, ⟨ha, rfl | rfl⟩ | ⟨rfl, rfl⟩⟩)
      · exact Or.inl (Or.inl hab)
      · exact Or.inr ⟨rfl, List.mem_cons_of_mem _ ha⟩
      · exact Or.inl (Or.inr ⟨rfl, ha⟩)
      · exact Or.inr ⟨rfl, List.mem_cons_self⟩
  · intro a b _ hab
    rcases (hover a b).mp hab with ⟨ha, rfl | rfl⟩ | ⟨rfl, rfl⟩
    · exact Nat.lt_succ_of_lt (hlt a ha)
    · exact hlt a ha
    · exact Nat.lt_succ_self _

theorem Linked.place (h : Partition c p ops g) (hn : Upcoming p ops op) (hl : Linked ops g)
    (hplace : Placed c g op g') : Linked (ops ++ [op]) g' := by
  cases hplace with
  | joins hcat hin => exact hl.joins h hn hcat hin
  | opens ho hsort => exact hl.opens h hn ho hsort
  | samples _ hin => exact hl.samples h hn hin

theorem Linked.ofPlan : Linked [] (ofPlan p) :=
  ⟨.ofPlan, fun _ _ h => absurd h List.not_mem_nil, fun a b => by
    simp [StageGraph.ofPlan, Links, successors]⟩

end Steps

/-! ## All operators placed -/

theorem Arranged.linked {c : CompilerConfig} {p : PhysicalPlan} {ops : List PhysicalOperator}
    {g : StageGraph} (hp : p.WellFormed) (harr : Arranged p ops)
    (hplace : placeAll c ops (ofPlan p) = .ok g) : Partition c p ops g ∧ Linked ops g := by
  have hrow : Arranged p ([] ++ ops) := harr
  exact placeAll_induction hp (motive := fun ops g => Partition c p ops g ∧ Linked ops g)
    (fun hn hplace hg => ⟨hg.1.place hn hplace, hg.2.place hg.1 hn hplace⟩)
    hrow ⟨Partition.ofPlan, Linked.ofPlan⟩ hplace

theorem compile_linked {c : CompilerConfig} {p : PhysicalPlan} {g : StageGraph}
    (hp : p.WellFormed) (h : compile c p = .ok g) :
    ∃ ops, Arranged p ops ∧ Partition c p ops g ∧ Linked ops g := by
  obtain ⟨-, ops, -, -, harr, hplace, -⟩ := compile_eq_ok hp h
  exact ⟨ops, harr, harr.linked hp hplace⟩

/-! ## The edges of a compiled plan -/

/-- The edges between stages, compared with those of a plan. -/
structure JustifiedEdges (c : CompilerConfig) (p : PhysicalPlan) (g : StageGraph) : Prop where
  /-- An edge joins the stages of two operators that are joined, or leads to a stage that samples, or
  from it to the stage of its total order. -/
  mem_edges_iff : ∀ a b, (a, b) ∈ g.edges ↔ a ≠ b ∧
    ((∃ u v, p.Feeds u v ∧ g.stageOf? u = some a ∧ g.stageOf? v = some b) ∨
      (∃ op ∈ p.operators, Sampled c op ∧ (∃ i ∈ op.inputs, g.stageOf? i = some a) ∧
        g.Samples op.key b) ∨
      ∃ op ∈ p.operators, Sampled c op ∧ g.Samples op.key a ∧ g.stageOf? op.key = some b)
  nodup : g.edges.Nodup
  predecessors : ∀ a b, a ∈ g.predecessors b ↔ (a, b) ∈ g.edges
  successors : ∀ a b, b ∈ g.successors a ↔ (a, b) ∈ g.edges
  /-- An edge stands in the row of its target as often as in the row of its source. -/
  mirrored : ∀ a b, (g.predecessors b).count a = (g.successors a).count b
  ascending : ∀ a b, (a, b) ∈ g.edges → a.val < b.val
  /-- A redistribution comes between an operator and its inputs. -/
  apart : ∀ op ∈ p.operators, op.kind.redistribution.isBoundary = true → ∀ i ∈ op.inputs,
    ∃ a b, g.stageOf? i = some a ∧ g.stageOf? op.key = some b ∧ a ≠ b

section Edges
variable {c : CompilerConfig} {p : PhysicalPlan} {ops : List PhysicalOperator} {g : StageGraph}
  {a b : StageId}

theorem mem_edges : (a, b) ∈ g.edges ↔ a ∈ g.ids ∧ g.Links a b := by
  simp [edges, Links]

theorem Numbered.ids_eq (hg : g.Numbered) : g.ids = (List.range g.size).map StageId.mk :=
  map_eq_of_position hg

theorem Numbered.mem_ids (hg : g.Numbered) : a ∈ g.ids ↔ a.val < g.size := by
  rw [hg.ids_eq, List.mem_map]
  constructor
  · rintro ⟨i, hi, rfl⟩
    exact List.mem_range.mp hi
  · exact fun ha => ⟨a.val, List.mem_range.mpr ha, rfl⟩

theorem Numbered.nodup_ids (hg : g.Numbered) : g.ids.Nodup := by
  rw [hg.ids_eq]
  exact List.nodup_range.map fun i j hij => congrArg StageId.val hij

theorem Wired.mem_edges (hg : g.Wired) : (a, b) ∈ g.edges ↔ g.Links a b := by
  rw [StageGraph.mem_edges]
  exact and_iff_right_of_imp fun hab => hg.numbered.mem_ids.mpr (hg.mirrored.source_lt hab)

theorem Wired.nodup_edges (hg : g.Wired) : g.edges.Nodup := by
  refine List.nodup_flatMap.mpr ⟨?_, hg.numbered.nodup_ids.pairwise_of_forall_ne ?_⟩
  · intro a _
    exact (hg.mirrored.nodup_successors a).map fun b c hbc => congrArg Prod.snd hbc
  · intro a _ b _ hne e ha hb
    obtain ⟨x, -, rfl⟩ := List.mem_map.mp ha
    obtain ⟨y, -, hxy⟩ := List.mem_map.mp hb
    exact hne (congrArg Prod.fst hxy).symm

theorem Linked.wired (h : Partition c p ops g) (hl : Linked ops g) : g.Wired :=
  ⟨h.numbered, hl.mirrored⟩

/-- An operator whose input is redistributed is in none of the stages of its inputs. -/
theorem Partition.apart (hp : p.WellFormed) (harr : Arranged p ops) (h : Partition c p ops g)
    {op : PhysicalOperator} (hop : op ∈ ops)
    (hcat : op.kind.category = .hash ∨ op.kind.category = .sort) {i : Key} (hi : i ∈ op.inputs) :
    ∃ a b, g.stageOf? i = some a ∧ g.stageOf? op.key = some b ∧ a ≠ b := by
  obtain ⟨l₁, l₂, rfl⟩ := List.append_of_mem hop
  have hn := harr.upcoming hp
  have hmem : i ∈ p.keys ∧ op.key ∈ p.keys := hp.mem_keys ((hn.wired.inputs_iff i).mp hi)
  obtain ⟨st, hst, hist, hia⟩ := h.exists_stageOf? hp harr hmem.1
  obtain ⟨st', hst', hkst, hkb⟩ := h.exists_stageOf? hp harr hmem.2
  refine ⟨st.id, st'.id, hia, hkb, fun hid => hn.fresh ?_⟩
  obtain rfl := h.numbered.eq_of_id hst hst' hid
  -- what opens the stage of an input is placed before the operator, which opens its own
  have hself : p.opener op.key = op.key := by
    rw [hn.opener_eq]
    exact PhysicalOperator.openerFrom_eq_key (Or.inr hcat)
  have hopener : p.opener i = op.key := (h.opener_eq hst hist hkst).trans hself
  exact hopener ▸ (hn.opener_mem i (hn.inputs i hi)).1

end Edges

/-- The edges of a compiled plan are those that something is handed over on. -/
theorem compile_justifiedEdges {c : CompilerConfig} {p : PhysicalPlan} {g : StageGraph}
    (hp : p.Built) (h : compile c p = .ok g) : JustifiedEdges c p g := by
  obtain ⟨ops, harr, hpart, hl⟩ := compile_linked hp.wellFormed h
  have hwired := hl.wired hpart
  have hedges : ∀ {a b}, (a, b) ∈ g.edges ↔ g.Links a b := hwired.mem_edges
  have hsort : ∀ {op s}, op ∈ ops → g.Samples op.key s → Sampled c op := by
    intro op s hop hs
    by_contra hno
    exact hpart.not_samples harr.nodup hop hno hs
  refine ⟨?_, hwired.nodup_edges, fun a b => hl.mirrored.mem_predecessors.trans hedges.symm,
    fun a b => hedges.symm, hl.mirrored.count_eq, fun a b hab => hl.ascending a b (hedges.mp hab), ?_⟩
  · intro a b
    rw [hedges, hl.links_iff]
    refine and_congr_right fun _ => ⟨?_, ?_⟩
    · rintro ⟨op, hop, ⟨⟨i, hi, hia⟩, hb | hb⟩ | ⟨ha, hb⟩⟩
      · exact Or.inl ⟨i, op.key, ((harr.wired op hop).inputs_iff i).mp hi, hia, hb⟩
      · exact Or.inr (Or.inl ⟨op, (harr.mem_iff op).mp hop, hsort hop hb, ⟨i, hi, hia⟩, hb⟩)
      · exact Or.inr (Or.inr ⟨op, (harr.mem_iff op).mp hop, hsort hop ha, ha, hb⟩)
    · rintro (⟨u, v, huv, hu, hv⟩ | ⟨op, hop, -, hin, hb⟩ | ⟨op, hop, -, ha, hb⟩)
      · obtain ⟨op, hop, rfl⟩ := List.mem_map.mp (harr.mem_keys.mp (hp.wellFormed.mem_keys huv).2)
        exact ⟨op, hop, Or.inl ⟨⟨u, ((harr.wired op hop).inputs_iff u).mpr huv, hu⟩, Or.inl hv⟩⟩
      · exact ⟨op, (harr.mem_iff op).mpr hop, Or.inl ⟨hin, Or.inr hb⟩⟩
      · exact ⟨op, (harr.mem_iff op).mpr hop, Or.inr ⟨ha, hb⟩⟩
  · intro op hop hbound i hi
    have hcat : op.kind.category = .hash ∨ op.kind.category = .sort := by
      cases hk : op.kind.category <;>
        simp_all [PhysicalKind.redistribution, Redistribution.isBoundary]
    exact hpart.apart hp.wellFormed harr ((harr.mem_iff op).mpr hop) hcat hi

theorem branched_justifiedEdges : branched.Built ∧ compile {} branched = .ok branchedStages ∧
    JustifiedEdges {} branched branchedStages :=
  ⟨Plan.built_ofOperators _, by cbv,
    compile_justifiedEdges (Plan.built_ofOperators _) (by cbv)⟩

end Dataflow.StageGraph
