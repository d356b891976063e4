import Mathlib
import Dataflow.Proofs.Stage.Building
import Dataflow.Proofs.Stage.Opener
/-!
# The division into stages

The stages of a compiled plan are the classes of operators with the same opener, each headed by its
opener, and one empty stage more for each total order whose input is sampled.

The induction is on the operators in dependency order.  What it carries, `Partition`, describes
every stage by the operators placed so far: a stage that was opened by `o` holds just those with the
opener `o`, in the order of their placing.  That no stage was opened twice and none is missing is
said by two equations of lists, `openers` and `samples`, which an operator that joins a stage leaves
alone and an operator that opens one extends by its key.

**Proved here.**

    an operator joins the stage of its opener                (`Partition.joins`)
    its own opener opens one, behind a sampling stage or not (`Partition.opens`, `samples_opens`)
    all operators placed                                     (`placeAll_induction`)
    the stages of a compiled plan                            (`compile_structuralPartition`)
-/
namespace Dataflow

/-- The total order that a stage samples for. -/
def Stage.sampledFor? (st : Stage) : Option Key :=
  if st.kind = .sample then st.boundary else none

theorem Stage.sampledFor?_receive (s : StageId) (k : Key) (st : Stage) :
    (st.receive s k).sampledFor? = st.sampledFor? := by
  simp [Stage.sampledFor?]

namespace StageGraph

instance (c : CompilerConfig) (op : PhysicalOperator) : Decidable (Sampled c op) :=
  inferInstanceAs (Decidable (_ ∧ _))

/-- The stage of an operator has so many partitions. -/
def Wide (g : StageGraph) (k : Key) (n : Nat) : Prop :=
  ∃ st ∈ g.stages, k ∈ st.operators ∧ st.parallelism = n

/-- The kind, the boundary and the partitions that a stage owes to the operator that opened it. -/
def OpenedBy (c : CompilerConfig) (g : StageGraph) (op : PhysicalOperator) (st : Stage) : Prop :=
  match op.kind.category with
  | .load => st.kind = .source ∧ st.boundary = none ∧ st.parallelism = c.defaultParallelism
  | .hash | .sort => st.kind = .shuffle ∧ st.boundary = some op.key ∧
      st.parallelism = op.kind.parallelism.getD c.defaultParallelism
  | .union => st.kind = .merge ∧ st.boundary = none ∧
      IsGreatest {n | ∃ i ∈ op.inputs, g.Wide i n} st.parallelism
  | .store | .pipeline => False

/-- A stage that samples the input of one of some operators. -/
def SamplesFor (c : CompilerConfig) (ops : List PhysicalOperator) (st : Stage) : Prop :=
  st.kind = .sample ∧ st.operators = [] ∧ st.parallelism = 1 ∧
    ∃ op ∈ ops, Sampled c op ∧ st.boundary = some op.key

/-- The stage that an operator has opened, with those of some operators that it is the opener of. -/
structure HeadedBy (c : CompilerConfig) (p : PhysicalPlan) (ks : List Key) (g : StageGraph)
    (op : PhysicalOperator) (st : Stage) : Prop where
  opener : p.opener op.key = op.key
  head : st.operators.head? = some op.key
  operators : st.operators = ks.filter fun k => p.opener k = op.key
  opened : OpenedBy c g op st

/-- The stages after some operators were placed. -/
structure Partition (c : CompilerConfig) (p : PhysicalPlan) (ops : List PhysicalOperator)
    (g : StageGraph) : Prop where
  plan : g.plan = p
  numbered : g.Numbered
  assigned : g.Assigned
  stages : ∀ st ∈ g.stages, SamplesFor c ops st ∨
    ∃ op ∈ ops, HeadedBy c p (ops.map PhysicalOperator.key) g op st
  openers : g.stages.filterMap (fun st => st.operators.head?) =
    (ops.map PhysicalOperator.key).filter fun k => p.opener k = k
  samples : g.stages.filterMap Stage.sampledFor? =
    (ops.filter fun op => Sampled c op).map PhysicalOperator.key

theorem OpenedBy.congr {c : CompilerConfig} {g g' : StageGraph} {op : PhysicalOperator}
    {st st' : Stage} (hwide : ∀ i ∈ op.inputs, ∀ n, g'.Wide i n ↔ g.Wide i n)
    (hkind : st'.kind = st.kind) (hboundary : st'.boundary = st.boundary)
    (hpar : st'.parallelism = st.parallelism) (h : OpenedBy c g op st) : OpenedBy c g' op st' := by
  have hset : {n | ∃ i ∈ op.inputs, g'.Wide i n} = {n | ∃ i ∈ op.inputs, g.Wide i n} := by
    ext n
    exact exists_congr fun i => and_congr_right fun hi => hwide i hi n
  simp only [OpenedBy] at h ⊢
  rw [hkind, hboundary, hpar, hset]
  exact h

theorem SamplesFor.mono {c : CompilerConfig} {ops ops' : List PhysicalOperator} {st : Stage}
    (hsub : ops ⊆ ops') (h : SamplesFor c ops st) : SamplesFor c ops' st := by
  obtain ⟨hkind, hops, hpar, op, hop, hs⟩ := h
  exact ⟨hkind, hops, hpar, op, hsub hop, hs⟩

theorem eq_of_nodup_filterMap {α β : Type} {f : α → Option β} {b : β} : ∀ {l : List α},
    (l.filterMap f).Nodup → ∀ x ∈ l, ∀ y ∈ l, f x = some b → f y = some b → x = y
  | [], _, _, hx, _, _, _, _ => absurd hx List.not_mem_nil
  | a :: l, hl, x, hx, y, hy, hfx, hfy => by
      have hmem : ∀ z ∈ l, f z = some b → b ∈ l.filterMap f :=
        fun z hz hfz => List.mem_filterMap.mpr ⟨z, hz, hfz⟩
      have htail : (l.filterMap f).Nodup := by
        rw [List.filterMap_cons] at hl
        split at hl
        · exact hl
        · exact (List.nodup_cons.mp hl).2
      have hhead : f a = some b → b ∉ l.filterMap f := by
        intro hfa
        rw [List.filterMap_cons_some hfa] at hl
        exact (List.nodup_cons.mp hl).1
      rcases List.mem_cons.mp hx with hxa | hxl
      · rcases List.mem_cons.mp hy with hya | hyl
        · exact hxa.trans hya.symm
        · exact absurd (hmem y hyl hfy) (hhead (hxa ▸ hfx))
      · rcases List.mem_cons.mp hy with hya | hyl
        · exact absurd (hmem x hxl hfx) (hhead (hya ▸ hfy))
        · exact eq_of_nodup_filterMap htail x hxl y hyl hfx hfy

/-! ## Reading off a partition -/

namespace Partition
variable {c : CompilerConfig} {p : PhysicalPlan} {ops : List PhysicalOperator} {g : StageGraph}

theorem headedBy (h : Partition c p ops g) {st : Stage} {k : Key} (hst : st ∈ g.stages)
    (hk : k ∈ st.operators) : ∃ op ∈ ops, op.key = p.opener k ∧
      HeadedBy c p (ops.map PhysicalOperator.key) g op st := by
  rcases h.stages st hst with hs | ⟨op, hop, hhead⟩
  · rw [hs.2.1] at hk
    exact absurd hk List.not_mem_nil
  · have hk' := hk
    rw [hhead.operators, List.mem_filter] at hk'
    exact ⟨op, hop, (of_decide_eq_true hk'.2).symm, hhead⟩

theorem mem_keys (h : Partition c p ops g) {st : Stage} {k : Key} (hst : st ∈ g.stages)
    (hk : k ∈ st.operators) : k ∈ ops.map PhysicalOperator.key := by
  obtain ⟨op, -, -, hhead⟩ := h.headedBy hst hk
  rw [hhead.operators] at hk
  exact List.mem_of_mem_filter hk

theorem eq_of_head (h : Partition c p ops g) (hnodup : (ops.map PhysicalOperator.key).Nodup)
    {st st' : Stage} {k : Key} (hst : st ∈ g.stages) (hst' : st' ∈ g.stages)
    (hk : st.operators.head? = some k) (hk' : st'.operators.head? = some k) : st = st' := by
  have hopeners : (g.stages.filterMap fun st => st.operators.head?).Nodup := by
    rw [h.openers]
    exact hnodup.filter _
  exact eq_of_nodup_filterMap hopeners st hst st' hst' hk hk'

theorem eq_of_opener (h : Partition c p ops g) (hnodup : (ops.map PhysicalOperator.key).Nodup)
    {st st' : Stage} {k k' : Key} (hst : st ∈ g.stages) (hst' : st' ∈ g.stages)
    (hk : k ∈ st.operators) (hk' : k' ∈ st'.operators) (hkk : p.opener k = p.opener k') :
    st = st' := by
  obtain ⟨op, -, hop, hhead⟩ := h.headedBy hst hk
  obtain ⟨op', -, hop', hhead'⟩ := h.headedBy hst' hk'
  refine h.eq_of_head hnodup hst hst' hhead.head ?_
  rw [hhead'.head, hop', ← hkk, hop]

theorem opener_eq (h : Partition c p ops g) {st : Stage} {k k' : Key} (hst : st ∈ g.stages)
    (hk : k ∈ st.operators) (hk' : k' ∈ st.operators) : p.opener k = p.opener k' := by
  obtain ⟨o, -, ho, hhead⟩ := h.headedBy hst hk
  obtain ⟨o', -, ho', hhead'⟩ := h.headedBy hst hk'
  rw [← ho, ← ho']
  exact Option.some.inj (hhead.head.symm.trans hhead'.head)

end Partition

/-! ## Placing one more operator -/

namespace Partition
variable {c : CompilerConfig} {p : PhysicalPlan} {ops : List PhysicalOperator} {g : StageGraph}
  {op : PhysicalOperator}

/-- Of the stages so far, an operator can only enlarge the one of its opener. -/
theorem headedBy_append {g' : StageGraph} {o : PhysicalOperator} {st : Stage}
    (hn : Upcoming p ops op) (ho : o ∈ ops) (hne : p.opener op.key ≠ o.key)
    (hwide : ∀ i ∈ ops.map PhysicalOperator.key, ∀ n, g'.Wide i n ↔ g.Wide i n)
    (h : HeadedBy c p (ops.map PhysicalOperator.key) g o st) :
    HeadedBy c p ((ops ++ [op]).map PhysicalOperator.key) g' o st := by
  refine ⟨h.opener, h.head, ?_, ?_⟩
  · rw [h.operators, List.map_append, List.filter_append]
    simp [hne]
  · exact h.opened.congr (fun i hi => hwide i (hn.earlier o ho i hi)) rfl rfl rfl

/-- The one stage that all inputs of an operator are in was opened by the opener of the operator. -/
theorem headedBy_input {s : StageId} (h : Partition c p ops g) (hn : Upcoming p ops op)
    (hcat : op.kind.category = .store ∨ op.kind.category = .pipeline ∨ op.kind.category = .union)
    (hin : g.inputStages op = .ok [s]) :
    ∃ st ∈ g.stages, st.id = s ∧ ∃ o ∈ ops, p.opener op.key = o.key ∧
      HeadedBy c p (ops.map PhysicalOperator.key) g o st := by
  have hstage : ∀ i ∈ op.inputs, ∃ st ∈ g.stages, i ∈ st.operators ∧ st.id = s := by
    intro i hi
    obtain ⟨s', hs', his⟩ := (inputStages_eq_ok hin).1 i hi
    obtain rfl := List.mem_singleton.mp hs'
    exact (h.assigned _ _).mp his
  have hne : op.inputs ≠ [] := hn.wired.inputs_ne_nil (by
    rcases hcat with hcat | hcat | hcat <;> simp [hcat])
  obtain ⟨i, hi⟩ := List.exists_mem_of_ne_nil _ hne
  obtain ⟨st, hst, hist, rfl⟩ := hstage i hi
  obtain ⟨o, ho, -, hhead⟩ := h.headedBy hst hist
  refine ⟨st, hst, rfl, o, ho, ?_, hhead⟩
  rw [hn.opener_eq]
  refine hn.wired.openerFrom_eq hcat ?_
  intro j hj
  obtain ⟨st', hst', hjst, hid⟩ := hstage j hj
  obtain rfl := h.numbered.eq_of_id hst' hst hid
  rw [hhead.operators, List.mem_filter] at hjst
  exact of_decide_eq_true hjst.2

/-- An operator joins the one stage that its inputs are in. -/
theorem joins {s : StageId} (h : Partition c p ops g) (hn : Upcoming p ops op)
    (hcat : op.kind.category = .store ∨ op.kind.category = .pipeline ∨ op.kind.category = .union)
    (hin : g.inputStages op = .ok [s]) : Partition c p (ops ++ [op]) (g.assign op.key s) := by
  obtain ⟨st₀, hst₀, rfl, o₀, ho₀, hopener, hhead₀⟩ := h.headedBy_input hn hcat hin
  have hfresh : o₀.key ≠ op.key := fun he => hn.fresh (he ▸ List.mem_map_of_mem ho₀)
  have hwide : ∀ i ∈ ops.map PhysicalOperator.key, ∀ n,
      (g.assign op.key st₀.id).Wide i n ↔ g.Wide i n :=
    fun i hi n => exists_stage_assign (fun he => hn.fresh (he ▸ hi)) fun st => by simp
  -- one stage is enlarged, and it still is that of its opener
  have hjoined : HeadedBy c p ((ops ++ [op]).map PhysicalOperator.key) (g.assign op.key st₀.id) o₀
      (st₀.receive st₀.id op.key) := by
    refine ⟨hhead₀.opener, ?_, ?_, ?_⟩
    · rw [Stage.operators_receive rfl, List.head?_append, hhead₀.head]
      rfl
    · rw [Stage.operators_receive rfl, hhead₀.operators, List.map_append, List.filter_append]
      simp [hopener]
    · exact hhead₀.opened.congr (fun i hi => hwide i (hn.earlier o₀ ho₀ i hi)) (by simp) (by simp)
        (by simp)
  have hnowhere : ∀ st ∈ g.stages, op.key ∉ st.operators :=
    fun st hst hk => hn.fresh (h.mem_keys hst hk)
  refine ⟨h.plan, h.numbered.assign, h.assigned.assign hnowhere (List.mem_map_of_mem hst₀), ?_, ?_, ?_⟩
  · intro st' hst'
    rw [stages_assign] at hst'
    obtain ⟨st, hst, rfl⟩ := List.mem_map.mp hst'
    by_cases hid : st.id = st₀.id
    · obtain rfl := h.numbered.eq_of_id hst hst₀ hid
      exact Or.inr ⟨o₀, List.mem_append_left _ ho₀, hjoined⟩
    · rw [Stage.receive_of_ne hid]
      rcases h.stages st hst with hs | ⟨o, ho, hhead⟩
      · exact Or.inl (hs.mono (List.subset_append_left _ _))
      · refine Or.inr ⟨o, List.mem_append_left _ ho, headedBy_append hn ho ?_ hwide hhead⟩
        intro he
        refine hid (congrArg Stage.id (h.eq_of_head hn.nodup hst hst₀ hhead.head ?_))
        rw [hhead₀.head, ← hopener, he]
  · have hsame : ∀ st ∈ g.stages, (st.receive st₀.id op.key).operators.head?
        = st.operators.head? := by
      intro st hst
      by_cases hid : st.id = st₀.id
      · obtain rfl := h.numbered.eq_of_id hst hst₀ hid
        rw [hjoined.head, hhead₀.head]
      · rw [Stage.receive_of_ne hid]
    calc (g.assign op.key st₀.id).stages.filterMap (fun st => st.operators.head?)
        = g.stages.filterMap (fun st => (st.receive st₀.id op.key).operators.head?) :=
          List.filterMap_map
      _ = g.stages.filterMap (fun st => st.operators.head?) := List.filterMap_congr hsame
      _ = ((ops ++ [op]).map PhysicalOperator.key).filter fun k => p.opener k = k := by
          rw [h.openers, List.map_append, List.filter_append]
          simp [hopener, hfresh]
  · calc (g.assign op.key st₀.id).stages.filterMap Stage.sampledFor?
        = g.stages.filterMap (fun st => (st.receive st₀.id op.key).sampledFor?) :=
          List.filterMap_map
      _ = g.stages.filterMap Stage.sampledFor? :=
          List.filterMap_congr fun st _ => st.sampledFor?_receive _ _
      _ = ((ops ++ [op]).filter fun op => Sampled c op).map PhysicalOperator.key := by
          rw [h.samples, List.filter_append]
          simp [not_sampled hcat]

theorem stages_append {g' : StageGraph} (h : Partition c p ops g) (hn : Upcoming p ops op)
    (hself : p.opener op.key = op.key)
    (hwide : ∀ i ∈ ops.map PhysicalOperator.key, ∀ n, g'.Wide i n ↔ g.Wide i n) :
    ∀ st ∈ g.stages, SamplesFor c (ops ++ [op]) st ∨
      ∃ o ∈ ops ++ [op], HeadedBy c p ((ops ++ [op]).map PhysicalOperator.key) g' o st := by
  intro st hst
  rcases h.stages st hst with hs | ⟨o, ho, hhead⟩
  · exact Or.inl (hs.mono (List.subset_append_left _ _))
  · refine Or.inr ⟨o, List.mem_append_left _ ho, headedBy_append hn ho ?_ hwide hhead⟩
    intro he
    exact hn.fresh (hself.symm.trans he ▸ List.mem_map_of_mem ho)

theorem headedBy_new {g' : StageGraph} {kind : StageKind} {n m : Nat} {b : Option Key}
    (hn : Upcoming p ops op) (hself : p.opener op.key = op.key)
    (hopened : OpenedBy c g' op ⟨⟨m⟩, kind, n, b, [op.key]⟩) :
    HeadedBy c p ((ops ++ [op]).map PhysicalOperator.key) g' op ⟨⟨m⟩, kind, n, b, [op.key]⟩ := by
  refine ⟨hself, rfl, ?_, hopened⟩
  have hnone : (ops.map PhysicalOperator.key).filter (fun k => p.opener k = op.key) = [] := by
    rw [List.filter_eq_nil_iff]
    intro k hk hko
    exact hn.fresh (of_decide_eq_true hko ▸ (hn.opener_mem k hk).1)
  rw [List.map_append, List.filter_append, hnone]
  simp [hself]

theorem openers_append {g' : StageGraph} (h : Partition c p ops g)
    (hself : p.opener op.key = op.key)
    (hheads : g'.stages.filterMap (fun st => st.operators.head?) =
      g.stages.filterMap (fun st => st.operators.head?) ++ [op.key]) :
    g'.stages.filterMap (fun st => st.operators.head?) =
      ((ops ++ [op]).map PhysicalOperator.key).filter fun k => p.opener k = k := by
  rw [hheads, h.openers, List.map_append, List.filter_append]
  simp [hself]

theorem isGreatest_largestParallelism {inputs : List StageId} (h : Partition c p ops g)
    (hne : op.inputs ≠ []) (hin : g.inputStages op = .ok inputs) :
    IsGreatest {n | ∃ i ∈ op.inputs, g.Wide i n} (g.largestParallelism c inputs) := by
  obtain ⟨hof, hfrom, -⟩ := inputStages_eq_ok hin
  have hset : ∀ n, (∃ i ∈ op.inputs, g.Wide i n) ↔
      n ∈ (inputs.filterMap g.get?).map Stage.parallelism := by
    intro n
    simp only [List.mem_map, List.mem_filterMap]
    constructor
    · rintro ⟨i, hi, st, hst, hist, hst_n⟩
      obtain ⟨s, hs, his⟩ := hof i hi
      have his' := (h.assigned _ _).mpr ⟨st, hst, hist, rfl⟩
      obtain rfl := Option.some.inj (his.symm.trans his')
      exact ⟨st, ⟨_, hs, h.numbered.get? hst⟩, hst_n⟩
    · rintro ⟨st, ⟨s, hs, hst⟩, hst_n⟩
      obtain ⟨i, hi, his⟩ := hfrom s hs
      obtain ⟨st', hst', hist, rfl⟩ := (h.assigned _ _).mp his
      obtain rfl := Option.some.inj (hst.symm.trans (h.numbered.get? hst'))
      exact ⟨i, hi, st, hst', hist, hst_n⟩
  obtain ⟨i, hi⟩ := List.exists_mem_of_ne_nil _ hne
  obtain ⟨s, -, his⟩ := hof i hi
  obtain ⟨st, hst, hist, rfl⟩ := (h.assigned _ _).mp his
  have hmem := (hset st.parallelism).mp ⟨i, hi, st, hst, hist, rfl⟩
  obtain ⟨m, hm⟩ := Option.isSome_iff_exists.mp (List.isSome_max?_of_mem hmem)
  obtain ⟨hmax, hle⟩ := List.max?_eq_some_iff.mp hm
  simp only [largestParallelism]
  rw [hm, Option.getD_some]
  exact ⟨(hset m).mpr hmax, fun n hnm => hle n ((hset n).mp hnm)⟩

theorem opener_of_opens {kind : StageKind} {n : Nat} {b : Option Key} {inputs : List StageId}
    (h : Partition c p ops g) (hn : Upcoming p ops op) (ho : Opens c g op kind n b inputs) :
    p.opener op.key = op.key := by
  rw [hn.opener_eq]
  cases ho with
  | source hcat => exact PhysicalOperator.openerFrom_eq_key (Or.inl hcat)
  | shuffle hcat => exact PhysicalOperator.openerFrom_eq_key (Or.inr hcat)
  | merge hcat hin hmany =>
      by_contra hne
      -- inputs that agree on their opener are all in its stage, and then the union joins it
      have hagree := PhysicalOperator.openerFrom_union hcat hne
      have hinputs : op.inputs ≠ [] := hn.wired.inputs_ne_nil (by simp [hcat])
      obtain ⟨i, hi⟩ := List.exists_mem_of_ne_nil _ hinputs
      obtain ⟨hof, -, hall⟩ := inputStages_eq_ok hin
      obtain ⟨s, -, his⟩ := hof i hi
      obtain ⟨st, hst, hist, rfl⟩ := (h.assigned _ _).mp his
      refine hmany st.id (hall hinputs st.id ?_)
      intro j hj
      obtain ⟨s', -, hjs⟩ := hof j hj
      obtain ⟨st', hst', hjst, rfl⟩ := (h.assigned _ _).mp hjs
      have hopener : p.opener j = p.opener i := (hagree j hj).trans (hagree i hi).symm
      rw [hjs, h.eq_of_opener hn.nodup hst' hst hjst hist hopener]

theorem openedBy_of_opens {kind : StageKind} {n m : Nat} {b : Option Key} {inputs : List StageId}
    {g' : StageGraph} (h : Partition c p ops g) (hn : Upcoming p ops op)
    (ho : Opens c g op kind n b inputs)
    (hwide : ∀ i ∈ ops.map PhysicalOperator.key, ∀ n, g'.Wide i n ↔ g.Wide i n) :
    OpenedBy c g' op ⟨⟨m⟩, kind, n, b, [op.key]⟩ := by
  have hbefore : OpenedBy c g op ⟨⟨m⟩, kind, n, b, [op.key]⟩ := by
    simp only [OpenedBy]
    cases ho with
    | source hcat => simp [hcat]
    | merge hcat hin =>
        have hgreatest := h.isGreatest_largestParallelism
          (hn.wired.inputs_ne_nil (by simp [hcat])) hin
        simpa [hcat] using hgreatest
    | shuffle hcat hin => rcases hcat with hcat | hcat <;> simp [hcat, shuffleParallelism]
  exact hbefore.congr (fun i hi => hwide i (hn.inputs i hi)) rfl rfl rfl

/-- An operator that is its own opener opens a stage. -/
theorem opens {kind : StageKind} {n : Nat} {b : Option Key} {inputs : List StageId}
    (h : Partition c p ops g) (hn : Upcoming p ops op) (ho : Opens c g op kind n b inputs)
    (hsort : ¬ Sampled c op) : Partition c p (ops ++ [op]) (g.openFor op kind n b inputs) := by
  have hself := h.opener_of_opens hn ho
  have hstages : (g.openFor op kind n b inputs).stages = _ := stages_openFor h.numbered
  have hwide : ∀ i ∈ ops.map PhysicalOperator.key, ∀ m,
      (g.openFor op kind n b inputs).Wide i m ↔ g.Wide i m := by
    intro i hi m
    refine exists_stage_append hstages fun st hst hist => hn.fresh ?_
    obtain rfl := List.mem_singleton.mp hst
    exact List.mem_singleton.mp hist ▸ hi
  refine ⟨plan_openFor.trans h.plan, h.numbered.openFor,
    h.assigned.openFor fun st hst hk => hn.fresh (h.mem_keys hst hk), ?_, ?_, ?_⟩
  · intro st hst
    rw [hstages] at hst
    rcases List.mem_append.mp hst with hst | hst
    · exact h.stages_append hn hself hwide st hst
    · obtain rfl := List.mem_singleton.mp hst
      exact Or.inr ⟨op, by simp, headedBy_new hn hself (h.openedBy_of_opens hn ho hwide)⟩
  · exact h.openers_append hself (by simp [hstages])
  · have hkind : kind ≠ .sample := by cases ho <;> simp
    rw [hstages, List.filterMap_append, h.samples, List.filter_append]
    simp [Stage.sampledFor?, hkind, hsort]

/-- A total order whose input is sampled opens a stage behind another. -/
theorem samples_opens {inputs : List StageId} (h : Partition c p ops g) (hn : Upcoming p ops op)
    (hs : Sampled c op) : Partition c p (ops ++ [op])
      ((g.openSample op inputs).openFor op .shuffle (shuffleParallelism c op) (some op.key)
        (⟨g.size⟩ :: inputs)) := by
  have hself : p.opener op.key = op.key := by
    rw [hn.opener_eq]
    exact PhysicalOperator.openerFrom_eq_key (Or.inr (Or.inr hs.1))
  have hnumbered : (g.openSample op inputs).Numbered := h.numbered.openSample
  have hstages : ((g.openSample op inputs).openFor op .shuffle (shuffleParallelism c op)
      (some op.key) (⟨g.size⟩ :: inputs)).stages = _ := stages_openFor hnumbered
  rw [stages_openSample, size_openSample, List.append_assoc] at hstages
  have hwide : ∀ i ∈ ops.map PhysicalOperator.key, ∀ m,
      ((g.openSample op inputs).openFor op .shuffle (shuffleParallelism c op) (some op.key)
        (⟨g.size⟩ :: inputs)).Wide i m ↔ g.Wide i m := by
    intro i hi m
    refine exists_stage_append hstages fun st hst hist => hn.fresh ?_
    rcases List.mem_cons.mp hst with rfl | hst
    · exact absurd hist List.not_mem_nil
    · obtain rfl := List.mem_singleton.mp hst
      exact List.mem_singleton.mp hist ▸ hi
  have hnowhere : ∀ st ∈ (g.openSample op inputs).stages, op.key ∉ st.operators := by
    intro st hst hk
    rw [stages_openSample] at hst
    rcases List.mem_append.mp hst with hst | hst
    · exact hn.fresh (h.mem_keys hst hk)
    · rw [List.mem_singleton.mp hst] at hk
      exact List.not_mem_nil hk
  refine ⟨by simp [h.plan], hnumbered.openFor, h.assigned.openSample.openFor hnowhere, ?_, ?_, ?_⟩
  · intro st hst
    rw [hstages] at hst
    rcases List.mem_append.mp hst with hst | hst
    · exact h.stages_append hn hself hwide st hst
    · rcases List.mem_cons.mp hst with rfl | hst
      · exact Or.inl ⟨rfl, rfl, rfl, op, by simp, hs, rfl⟩
      · obtain rfl := List.mem_singleton.mp hst
        refine Or.inr ⟨op, by simp, headedBy_new hn hself ?_⟩
        simp [OpenedBy, hs.1, shuffleParallelism]
  · refine h.openers_append hself ?_
    rw [hstages, List.filterMap_append]
    rfl
  · rw [hstages, List.filterMap_append, h.samples, List.filter_append]
    simp [Stage.sampledFor?, hs]

theorem place {g' : StageGraph} (h : Partition c p ops g) (hn : Upcoming p ops op)
    (hplace : Placed c g op g') : Partition c p (ops ++ [op]) g' := by
  cases hplace with
  | joins hcat hin => exact h.joins hn hcat hin
  | opens ho hsort => exact h.opens hn ho hsort
  | samples hs _ => exact h.samples_opens hn hs

theorem ofPlan : Partition c p [] (ofPlan p) :=
  ⟨rfl, fun i st h => by simp [StageGraph.ofPlan] at h,
    fun k s => by simp [StageGraph.ofPlan, stageOf?], fun st h => absurd h List.not_mem_nil, rfl, rfl⟩

end Partition

/-! ## All operators placed -/

/-- What holds of no stages, and is kept by every operator that is placed in its turn, holds in the
end. -/
theorem placeAll_induction {c : CompilerConfig} {p : PhysicalPlan} (hp : p.WellFormed)
    {motive : List PhysicalOperator → StageGraph → Prop}
    (place : ∀ {placed op g g'}, Upcoming p placed op → Placed c g op g' → motive placed g →
      motive (placed ++ [op]) g') :
    ∀ {rest placed : List PhysicalOperator} {g g' : StageGraph}, Arranged p (placed ++ rest) →
      motive placed g → placeAll c rest g = .ok g' → motive (placed ++ rest) g'
  | [], placed, g, g', _, h, hall => by
      cases hall
      rwa [List.append_nil]
  | op :: rest, placed, g, g', harr, h, hall => by
      simp only [placeAll] at hall
      split at hall
      next g₁ hplace =>
        have h₁ := place (harr.upcoming hp) (place_eq_ok hplace) h
        rw [List.append_cons] at harr ⊢
        exact placeAll_induction hp place harr h₁ hall
      · cases hall

/-- What holds of no stages, and is kept by every operator that is placed in its turn, holds of the
stages of a compiled plan. -/
theorem compile_induction {c : CompilerConfig} {p : PhysicalPlan} {g : StageGraph}
    (hp : p.WellFormed) {motive : List PhysicalOperator → StageGraph → Prop}
    (ofPlan : motive [] (ofPlan p))
    (place : ∀ {placed op g g'}, Upcoming p placed op → Placed c g op g' → motive placed g →
      motive (placed ++ [op]) g')
    (h : compile c p = .ok g) : ∃ ops, p.dependencyKeys = .ok (ops.map PhysicalOperator.key) ∧
      Arranged p ops ∧ motive ops g := by
  obtain ⟨order, ops, horder, rfl, harr, hplace, -⟩ := compile_eq_ok hp h
  have hall : motive ([] ++ ops) g := placeAll_induction hp place harr ofPlan hplace
  exact ⟨ops, horder, harr, hall⟩

/-- The division into stages, compared with the openers of a plan. -/
structure StructuralPartition (c : CompilerConfig) (p : PhysicalPlan) (order : List Key)
    (g : StageGraph) : Prop where
  opener_eq : ∀ op ∈ p.operators, p.opener op.key = op.openerFrom p.opener
  /-- Operators share a stage just when they share an opener. -/
  stageOf?_eq_iff : ∀ u ∈ p.keys, ∀ v ∈ p.keys,
    g.stageOf? u = g.stageOf? v ↔ p.opener u = p.opener v
  /-- Every operator stands once, in one stage. -/
  placed_once : ∀ k ∈ p.keys, ∃ st ∈ g.stages, st.operators.count k = 1 ∧
    g.stageOf? k = some st.id ∧ ∀ st' ∈ g.stages, k ∈ st'.operators → st' = st
  numbered : ∀ (i : Nat) (h : i < g.stages.length), g.stages[i].id = ⟨i⟩
  /-- There is no stage beside those that sample and those that were opened. -/
  stages : ∀ st ∈ g.stages, SamplesFor c p.operators st ∨
    ∃ op ∈ p.operators, HeadedBy c p order g op st
  /-- Every opener has opened one stage. -/
  opened_once : ∀ op ∈ p.operators, p.opener op.key = op.key →
    ∃! st, st ∈ g.stages ∧ HeadedBy c p order g op st
  /-- Every total order whose input is sampled has one stage for that. -/
  sampled_once : ∀ op ∈ p.operators, Sampled c op →
    ∃! st, st ∈ g.stages ∧ SamplesFor c [op] st

namespace Partition
variable {c : CompilerConfig} {p : PhysicalPlan} {ops : List PhysicalOperator} {g : StageGraph}

theorem exists_stage (h : Partition c p ops g) {k : Key}
    (hopener : p.opener k ∈ ops.map PhysicalOperator.key ∧ p.opener (p.opener k) = p.opener k)
    (hk : k ∈ ops.map PhysicalOperator.key) : ∃ st ∈ g.stages, k ∈ st.operators := by
  have hmem : p.opener k ∈ g.stages.filterMap fun st => st.operators.head? := by
    rw [h.openers, List.mem_filter]
    exact ⟨hopener.1, decide_eq_true hopener.2⟩
  obtain ⟨st, hst, hhead⟩ := List.mem_filterMap.mp hmem
  obtain ⟨o, -, -, ho⟩ := h.headedBy hst (List.mem_of_mem_head? hhead)
  refine ⟨st, hst, ?_⟩
  rw [ho.operators, List.mem_filter]
  exact ⟨hk, decide_eq_true (Option.some.inj (hhead.symm.trans ho.head))⟩

theorem exists_stageOf? (hp : p.WellFormed) (harr : Arranged p ops) (h : Partition c p ops g)
    {k : Key} (hk : k ∈ p.keys) :
    ∃ st ∈ g.stages, k ∈ st.operators ∧ g.stageOf? k = some st.id := by
  have hk' := harr.mem_keys.mp hk
  obtain ⟨st, hst, hkst⟩ := h.exists_stage (harr.opener_mem hp ops [] (by simp) k hk') hk'
  exact ⟨st, hst, hkst, (h.assigned _ _).mpr ⟨st, hst, hkst, rfl⟩⟩

theorem kind_ne_sample {op : PhysicalOperator} {st : Stage} (h : OpenedBy c g op st) :
    st.kind ≠ .sample := by
  simp only [OpenedBy] at h
  split at h
  · simp [h.1]
  · simp [h.1]
  · simp [h.1]
  · simp [h.1]
  · exact h.elim
  · exact h.elim

theorem sampled_once (h : Partition c p ops g) (hnodup : (ops.map PhysicalOperator.key).Nodup)
    {op : PhysicalOperator} (hop : op ∈ ops) (hs : Sampled c op) :
    ∃! st, st ∈ g.stages ∧ SamplesFor c [op] st := by
  have hsampled : ∀ st, SamplesFor c [op] st → st.sampledFor? = some op.key := by
    rintro st ⟨hkind, -, -, o, ho, -, hb⟩
    obtain rfl := List.mem_singleton.mp ho
    rw [Stage.sampledFor?, if_pos hkind, hb]
  have hmem : op.key ∈ g.stages.filterMap Stage.sampledFor? := by
    rw [h.samples]
    exact List.mem_map_of_mem (List.mem_filter.mpr ⟨hop, decide_eq_true hs⟩)
  obtain ⟨st, hst, hfor⟩ := List.mem_filterMap.mp hmem
  obtain ⟨hkind, hb⟩ : st.kind = .sample ∧ st.boundary = some op.key := by
    simp only [Stage.sampledFor?] at hfor
    split at hfor
    next hkind => exact ⟨hkind, hfor⟩
    next => cases hfor
  refine ⟨st, ⟨hst, ?_⟩, ?_⟩
  · rcases h.stages st hst with ⟨-, hempty, hone, -⟩ | ⟨o, -, ho⟩
    · exact ⟨hkind, hempty, hone, op, by simp, hs, hb⟩
    · exact absurd hkind (kind_ne_sample ho.opened)
  · rintro st' ⟨hst', hs'⟩
    have hsub : (g.stages.filterMap Stage.sampledFor?).Nodup := by
      rw [h.samples]
      exact hnodup.sublist (List.filter_sublist.map _)
    exact eq_of_nodup_filterMap hsub st' hst' st hst (hsampled st' hs') hfor

/-- The partition of all operators, compared with the openers. -/
theorem structural (hp : p.WellFormed) (harr : Arranged p ops) (h : Partition c p ops g) :
    StructuralPartition c p (ops.map PhysicalOperator.key) g := by
  have hhead : ∀ k, ∀ st ∈ g.stages, k ∈ st.operators → ∃ op ∈ p.operators,
      op.key = p.opener k ∧ HeadedBy c p (ops.map PhysicalOperator.key) g op st := by
    intro k st hst hk
    obtain ⟨op, hop, hrest⟩ := h.headedBy hst hk
    exact ⟨op, (harr.mem_iff op).mp hop, hrest⟩
  refine ⟨fun op hop => harr.opener_eq hp ((harr.mem_iff op).mpr hop), ?_, ?_, ?_,
    ?_, ?_, ?_⟩
  · intro u hu v hv
    obtain ⟨st, hst, hust, hu'⟩ := h.exists_stageOf? hp harr hu
    obtain ⟨st', hst', hvst, hv'⟩ := h.exists_stageOf? hp harr hv
    rw [hu', hv', Option.some.injEq]
    constructor
    · intro hid
      obtain rfl := h.numbered.eq_of_id hst hst' hid
      exact h.opener_eq hst hust hvst
    · intro huv
      rw [h.eq_of_opener harr.nodup hst hst' hust hvst huv]
  · intro k hk
    obtain ⟨st, hst, hkst, hk'⟩ := h.exists_stageOf? hp harr hk
    obtain ⟨o, -, -, hheado⟩ := hhead k st hst hkst
    have hnodup : st.operators.Nodup := by
      rw [hheado.operators]
      exact harr.nodup.filter _
    exact ⟨st, hst, List.count_eq_one_of_mem hnodup hkst, hk',
      fun st' hst' hkst' => h.eq_of_opener harr.nodup hst' hst hkst' hkst rfl⟩
  · intro i hi
    exact h.numbered i _ (List.getElem?_eq_getElem hi)
  · intro st hst
    rcases h.stages st hst with hs | ⟨o, ho, hheado⟩
    · exact Or.inl (hs.mono fun o ho => (harr.mem_iff o).mp ho)
    · exact Or.inr ⟨o, (harr.mem_iff o).mp ho, hheado⟩
  · intro op hop hself
    obtain ⟨st, hst, hkst, -⟩ := h.exists_stageOf? hp harr (List.mem_map_of_mem hop)
    obtain ⟨o, ho, hkey, hheado⟩ := hhead op.key st hst hkst
    obtain rfl := List.inj_on_of_nodup_map hp.keys_nodup ho hop (hkey.trans hself)
    exact ⟨st, ⟨hst, hheado⟩, fun st' ⟨hst', hheado'⟩ =>
      h.eq_of_head harr.nodup hst' hst hheado'.head hheado.head⟩
  · intro op hop hs
    exact h.sampled_once harr.nodup ((harr.mem_iff op).mpr hop) hs

end Partition

/-- The stages of a compiled plan are the classes of its openers. -/
theorem compile_structuralPartition {c : CompilerConfig} {p : PhysicalPlan} {g : StageGraph}
    (hp : p.Built) (h : compile c p = .ok g) : ∃ order, p.dependencyKeys = .ok order ∧
      p.IsDependencyOrder order ∧ StructuralPartition c p order g := by
  obtain ⟨ops, horder, harr, hpart⟩ : ∃ ops, p.dependencyKeys = .ok (ops.map PhysicalOperator.key) ∧
      Arranged p ops ∧ Partition c p ops g :=
    compile_induction hp.wellFormed Partition.ofPlan (fun hn hplace h => h.place hn hplace) h
  exact ⟨_, horder, Plan.dependencyKeys_eq_ok hp.wellFormed horder,
    hpart.structural hp.wellFormed harr⟩

/-- A load whose output is taken twice, in order and as it is, and put together again. -/
def branched : PhysicalPlan := .ofOperators
  [⟨⟨"p", 1⟩, .load "in", []⟩, ⟨⟨"p", 2⟩, .split, [⟨"p", 1⟩]⟩,
    ⟨⟨"p", 3⟩, .sort [0] [true] none, [⟨"p", 2⟩]⟩, ⟨⟨"p", 4⟩, .union, [⟨"p", 2⟩, ⟨"p", 3⟩]⟩]

def branchedStages : StageGraph where
  plan := branched
  stages := [⟨⟨0⟩, .source, 1, none, [⟨"p", 1⟩, ⟨"p", 2⟩]⟩, ⟨⟨1⟩, .sample, 1, some ⟨"p", 3⟩, []⟩,
    ⟨⟨2⟩, .shuffle, 1, some ⟨"p", 3⟩, [⟨"p", 3⟩]⟩, ⟨⟨3⟩, .merge, 1, none, [⟨"p", 4⟩]⟩]
  readsFrom := [[], [⟨0⟩], [⟨1⟩, ⟨0⟩], [⟨0⟩, ⟨2⟩]]
  readBy := [[⟨1⟩, ⟨2⟩, ⟨3⟩], [⟨2⟩], [⟨3⟩], []]
  assignment := [(⟨"p", 4⟩, ⟨3⟩), (⟨"p", 3⟩, ⟨2⟩), (⟨"p", 2⟩, ⟨0⟩), (⟨"p", 1⟩, ⟨0⟩)]

theorem branched_structuralPartition : branched.Built ∧ compile {} branched = .ok branchedStages ∧
    ∃ order, branched.dependencyKeys = .ok order ∧ branched.IsDependencyOrder order ∧
      StructuralPartition {} branched order branchedStages :=
  ⟨Plan.built_ofOperators _, by cbv,
    compile_structuralPartition (Plan.built_ofOperators _) (by cbv)⟩

end StageGraph
end Dataflow
