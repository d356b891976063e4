import Mathlib.Data.List.Nodup
import Dataflow.Stage.Compile
/-!
# What building does to a stage graph

Each operation on stage graphs, read off the list of stages and the two tables of links.  A stage that
is opened stands at the end of the list, under its position as a number; assigning an operator extends
one stage; linking writes into a row of either table.  That the tables keep saying the same, `Mirrored`,
is no matter of course: each is written for itself, and only stages that are open have rows in both.
`Placed` collects the ways in which an operator is placed, so that nothing further on has to open
`StageGraph.place`.

**Proved here.**

    openFor     one more stage, which holds just the operator         (`stages_openFor`)
    link        the tables stay mirrors of each other                  (`Mirrored.link`)
    linkAll     the links from the given stages, without loops         (`links_linkAll`)
    place       joins a stage, opens one, or opens two                 (`place_eq_ok`)
-/
namespace Dataflow

/-! ## Lists numbered by position -/

section Positions
variable {α β : Type}

theorem getElem?_concat_cases {l : List α} {a b : α} {i : Nat} (h : (l ++ [a])[i]? = some b) :
    l[i]? = some b ∨ (i = l.length ∧ b = a) := by
  rw [List.getElem?_append] at h
  split at h
  · exact Or.inl h
  next hlt =>
    obtain ⟨hpos, rfl⟩ := List.getElem?_eq_some_iff.mp h
    rw [List.length_singleton] at hpos
    exact Or.inr ⟨by omega, by simp⟩

theorem map_eq_of_position {l : List α} {f : α → β} {g : Nat → β}
    (h : ∀ (i : Nat) (a : α), l[i]? = some a → f a = g i) :
    l.map f = (List.range l.length).map g := by
  refine List.ext_getElem (by simp) ?_
  intro i hi _
  rw [List.getElem_map, List.getElem_map, List.getElem_range]
  rw [List.length_map] at hi
  exact h i _ (List.getElem?_eq_getElem hi)

theorem mem_of_map_eq {f : α → Option β} {l : List α} {l' : List β} (h : l.map f = l'.map some) :
    (∀ a ∈ l, ∃ b ∈ l', f a = some b) ∧ ∀ b ∈ l', ∃ a ∈ l, f a = some b := by
  constructor
  · intro a ha
    have hmem : f a ∈ l'.map some := h ▸ List.mem_map_of_mem ha
    obtain ⟨b, hb, hab⟩ := List.mem_map.mp hmem
    exact ⟨b, hb, hab.symm⟩
  · intro b hb
    have hmem : some b ∈ l.map f := h ▸ List.mem_map_of_mem hb
    exact List.mem_map.mp hmem

end Positions

/-! ## Stages -/

/-- The stage after an operator was assigned to the stage numbered `s`. -/
def Stage.receive (s : StageId) (k : Key) (st : Stage) : Stage :=
  if st.id = s then { st with operators := st.operators ++ [k] } else st

namespace Stage
variable (s : StageId) (k : Key) (st : Stage)

@[simp] theorem id_receive : (st.receive s k).id = st.id := by
  simp only [receive]; split <;> rfl

@[simp] theorem kind_receive : (st.receive s k).kind = st.kind := by
  simp only [receive]; split <;> rfl

@[simp] theorem parallelism_receive : (st.receive s k).parallelism = st.parallelism := by
  simp only [receive]; split <;> rfl

@[simp] theorem boundary_receive : (st.receive s k).boundary = st.boundary := by
  simp only [receive]; split <;> rfl

variable {s k st}

theorem operators_receive (h : st.id = s) :
    (st.receive s k).operators = st.operators ++ [k] := by
  simp [receive, h]

theorem receive_of_ne (h : st.id ≠ s) : st.receive s k = st := by
  simp [receive, h]

end Stage

namespace StageGraph

/-- Stages are numbered by their position. -/
def Numbered (g : StageGraph) : Prop :=
  ∀ (i : Nat) (st : Stage), g.stages[i]? = some st → st.id = ⟨i⟩

section Numbering
variable {g : StageGraph} {st st' : Stage}

theorem Numbered.get? (hg : g.Numbered) (hst : st ∈ g.stages) : g.get? st.id = some st := by
  obtain ⟨i, hi⟩ := List.mem_iff_getElem?.mp hst
  rw [hg i st hi]
  exact hi

theorem Numbered.eq_of_id (hg : g.Numbered) (hst : st ∈ g.stages) (hst' : st' ∈ g.stages)
    (h : st.id = st'.id) : st = st' :=
  Option.some.inj ((hg.get? hst).symm.trans (h ▸ hg.get? hst'))

theorem Numbered.lt_size (hg : g.Numbered) (hst : st ∈ g.stages) : st.id.val < g.size := by
  obtain ⟨i, hi⟩ := List.mem_iff_getElem?.mp hst
  obtain ⟨hlt, -⟩ := List.getElem?_eq_some_iff.mp hi
  rw [hg i st hi]
  exact hlt

theorem Numbered.append (hg : g.Numbered) (hst : st.id = ⟨g.size⟩) {h : StageGraph}
    (hh : h.stages = g.stages ++ [st]) : h.Numbered := by
  intro i s hi
  rw [hh] at hi
  rcases getElem?_concat_cases hi with hi | ⟨rfl, rfl⟩
  · exact hg i s hi
  · exact hst

end Numbering

/-! ## The tables of links -/

/-- `b` reads from `a`. -/
def Links (g : StageGraph) (a b : StageId) : Prop := b ∈ g.successors a

/-- Each stage has a row in both tables, and a link stands as often in the one as in the other, which
is at most once. -/
structure Mirrored (g : StageGraph) : Prop where
  length_readsFrom : g.readsFrom.length = g.size
  length_readBy : g.readBy.length = g.size
  count_eq : ∀ a b, (g.predecessors b).count a = (g.successors a).count b
  nodup_successors : ∀ a, (g.successors a).Nodup

/-- The stages are numbered, and the tables of their links say the same. -/
structure Wired (g : StageGraph) : Prop where
  numbered : g.Numbered
  mirrored : g.Mirrored

section Rows
variable {rows : List (List StageId)} {s t a : StageId}

theorem lt_length_of_mem_row (h : t ∈ rows[a.val]?.getD []) : a.val < rows.length := by
  by_contra hle
  rw [List.getElem?_eq_none (Nat.le_of_not_lt hle)] at h
  exact List.not_mem_nil h

theorem row_append : (rows ++ [[]])[a.val]?.getD [] = rows[a.val]?.getD [] := by
  rw [List.getElem?_append]
  split
  · rfl
  next hle =>
    rw [List.getElem?_eq_none (Nat.le_of_not_lt hle)]
    cases a.val - rows.length <;> rfl

theorem row_modify (hs : s.val < rows.length) : (rows.modify s.val (· ++ [t]))[a.val]?.getD [] =
    rows[a.val]?.getD [] ++ if a = s then [t] else [] := by
  rw [List.getElem?_modify]
  by_cases ha : a = s
  · subst ha
    rw [List.getElem?_eq_getElem hs]
    simp
  · have hval : s.val ≠ a.val := by
      intro hval
      exact ha (by cases a; cases s; exact congrArg StageId.mk hval.symm)
    simp [hval, ha]

end Rows

namespace Mirrored
variable {g : StageGraph} {a b : StageId}

theorem ofPlan {p : PhysicalPlan} : (StageGraph.ofPlan p).Mirrored :=
  ⟨rfl, rfl, fun _ _ => rfl, fun _ => List.nodup_nil⟩

theorem mem_predecessors (h : g.Mirrored) : a ∈ g.predecessors b ↔ g.Links a b := by
  rw [← List.count_pos_iff, h.count_eq, List.count_pos_iff]
  rfl

theorem nodup_predecessors (h : g.Mirrored) (b : StageId) : (g.predecessors b).Nodup := by
  refine List.nodup_iff_count_le_one.mpr fun a => ?_
  rw [h.count_eq]
  exact List.nodup_iff_count_le_one.mp (h.nodup_successors a) b

theorem source_lt (h : g.Mirrored) (hab : g.Links a b) : a.val < g.size :=
  h.length_readBy ▸ lt_length_of_mem_row hab

theorem target_lt (h : g.Mirrored) (hab : g.Links a b) : b.val < g.size :=
  h.length_readsFrom ▸ lt_length_of_mem_row (h.mem_predecessors.mpr hab)

end Mirrored

/-! ## The operations -/

section Operations
variable {g : StageGraph} {a b s t : StageId}

theorem stages_assign (k : Key) (s : StageId) :
    (g.assign k s).stages = g.stages.map (Stage.receive s k) := rfl

@[simp] theorem size_assign (k : Key) (s : StageId) : (g.assign k s).size = g.size :=
  List.length_map _

theorem stageOf?_assign {k k' : Key} :
    (g.assign k s).stageOf? k' = if k' = k then some s else g.stageOf? k' := by
  by_cases hk : k' = k
  · subst hk
    simp [stageOf?, assign]
  · have hne : (k' == k) = false := beq_eq_false_iff_ne.mpr hk
    simp only [stageOf?, assign, List.lookup_cons, hne, if_neg hk]

theorem stageOf?_assign_of_ne {k k' : Key} (hk : k' ≠ k) :
    (g.assign k s).stageOf? k' = g.stageOf? k' := by
  rw [stageOf?_assign, if_neg hk]

@[simp] theorem successors_openStage {kind : StageKind} {n : Nat} {bound : Option Key} :
    (g.openStage kind n bound).2.successors a = g.successors a :=
  row_append

@[simp] theorem predecessors_openStage {kind : StageKind} {n : Nat} {bound : Option Key} :
    (g.openStage kind n bound).2.predecessors a = g.predecessors a :=
  row_append

@[simp] theorem size_openStage {kind : StageKind} {n : Nat} {bound : Option Key} :
    (g.openStage kind n bound).2.size = g.size + 1 := by
  simp [openStage, size]

theorem Mirrored.openStage (h : g.Mirrored) (kind : StageKind) (n : Nat) (bound : Option Key) :
    (g.openStage kind n bound).2.Mirrored := by
  refine ⟨?_, ?_, ?_, ?_⟩
  · simp [StageGraph.openStage, size, h.length_readsFrom]
  · simp [StageGraph.openStage, size, h.length_readBy]
  · intro a b
    rw [predecessors_openStage, successors_openStage]
    exact h.count_eq a b
  · intro a
    rw [successors_openStage]
    exact h.nodup_successors a

theorem Mirrored.assign {k : Key} (h : g.Mirrored) : (g.assign k s).Mirrored :=
  ⟨h.length_readsFrom.trans (size_assign k s).symm, h.length_readBy.trans (size_assign k s).symm,
    h.count_eq, h.nodup_successors⟩

theorem link_of_ne (hst : s ≠ t) (hnew : ¬ g.Links s t) : g.link s t = { g with
    readBy := g.readBy.modify s.val (· ++ [t])
    readsFrom := g.readsFrom.modify t.val (· ++ [s]) } :=
  if_neg fun h => h.elim hst hnew

theorem link_of_links (h : s = t ∨ g.Links s t) : g.link s t = g := if_pos h

/-- Linking is a matter of the tables alone. -/
theorem link_eq (s t : StageId) : g.link s t = { g with
    readBy := (g.link s t).readBy, readsFrom := (g.link s t).readsFrom } := by
  simp only [link]
  split <;> rfl

theorem Mirrored.links_link (h : g.Mirrored) (hs : s.val < g.size) :
    (g.link s t).Links a b ↔ g.Links a b ∨ (a = s ∧ b = t ∧ s ≠ t) := by
  by_cases hold : s = t ∨ g.Links s t
  · rw [link_of_links hold]
    refine ⟨Or.inl, fun hab => hab.elim id ?_⟩
    rintro ⟨rfl, rfl, hne⟩
    exact hold.resolve_left hne
  · obtain ⟨hne, hnew⟩ := not_or.mp hold
    have hrow : (g.link s t).successors a = g.successors a ++ if a = s then [t] else [] := by
      rw [link_of_ne hne hnew]
      exact row_modify (h.length_readBy ▸ hs)
    rw [Links, Links, hrow, List.mem_append]
    by_cases ha : a = s <;> simp [ha, hne]

/-- A link is written into both tables, so they stay mirrors of each other.  Both stages have to be open:
for a stage without a row, nothing would be written. -/
theorem Mirrored.link (h : g.Mirrored) (hs : s.val < g.size) (ht : t.val < g.size) :
    (g.link s t).Mirrored := by
  by_cases hold : s = t ∨ g.Links s t
  · rwa [link_of_links hold]
  · obtain ⟨hne, hnew⟩ := not_or.mp hold
    rw [link_of_ne hne hnew]
    have hto : ∀ a, (g.readBy.modify s.val (· ++ [t]))[a.val]?.getD [] =
        g.successors a ++ if a = s then [t] else [] :=
      fun a => row_modify (h.length_readBy ▸ hs)
    have hfrom : ∀ b, (g.readsFrom.modify t.val (· ++ [s]))[b.val]?.getD [] =
        g.predecessors b ++ if b = t then [s] else [] :=
      fun b => row_modify (h.length_readsFrom ▸ ht)
    refine ⟨(List.length_modify _ _ _).trans h.length_readsFrom,
      (List.length_modify _ _ _).trans h.length_readBy, ?_, ?_⟩
    · intro a b
      -- the link counts once more in the row of its target and in the row of its source
      show ((g.readsFrom.modify t.val (· ++ [s]))[b.val]?.getD []).count a =
        ((g.readBy.modify s.val (· ++ [t]))[a.val]?.getD []).count b
      rw [hto, hfrom, List.count_append, List.count_append, h.count_eq]
      have hsame : List.count a (if b = t then [s] else []) =
          List.count b (if a = s then [t] else []) := by
        by_cases ha : a = s <;> by_cases hb : b = t <;> simp [ha, hb, Ne.symm]
      rw [hsame]
    · intro a
      show ((g.readBy.modify s.val (· ++ [t]))[a.val]?.getD []).Nodup
      rw [hto]
      by_cases ha : a = s
      · subst ha
        rw [if_pos rfl, ← List.concat_eq_append]
        exact (h.nodup_successors a).concat hnew
      · simpa [ha] using h.nodup_successors a

theorem linkAll_cons (g : StageGraph) (s t : StageId) (ss : List StageId) :
    g.linkAll (s :: ss) t = (g.link s t).linkAll ss t := rfl

theorem linkAll_eq (t : StageId) (ss : List StageId) (g : StageGraph) : g.linkAll ss t = { g with
    readBy := (g.linkAll ss t).readBy, readsFrom := (g.linkAll ss t).readsFrom } := by
  induction ss generalizing g with
  | nil => rfl
  | cons s ss ih => rw [linkAll_cons, ih, g.link_eq s t]

@[simp] theorem stages_linkAll (ss : List StageId) (t : StageId) :
    (g.linkAll ss t).stages = g.stages := by
  rw [linkAll_eq]

@[simp] theorem plan_linkAll (ss : List StageId) (t : StageId) :
    (g.linkAll ss t).plan = g.plan := by
  rw [linkAll_eq]

@[simp] theorem size_link : (g.link s t).size = g.size := by
  rw [link_eq]
  rfl

@[simp] theorem stageOf?_linkAll (ss : List StageId) (t : StageId) :
    (g.linkAll ss t).stageOf? = g.stageOf? := by
  rw [linkAll_eq]
  rfl

/-- All links lead to the one target, and none from the target itself. -/
theorem Mirrored.links_linkAll {ss : List StageId} (h : g.Mirrored) (ht : t.val < g.size)
    (hss : ∀ s ∈ ss, s.val < g.size) : (g.linkAll ss t).Mirrored ∧ ∀ a b,
      (g.linkAll ss t).Links a b ↔ g.Links a b ∨ (b = t ∧ a ∈ ss ∧ a ≠ t) := by
  induction ss generalizing g with
  | nil => exact ⟨h, fun a b => by simp [linkAll]⟩
  | cons s ss ih =>
      obtain ⟨hs, hss⟩ := List.forall_mem_cons.mp hss
      have hsize : (g.link s t).size = g.size := size_link
      obtain ⟨hmirrored, hlinks⟩ := ih (h.link hs ht) (hsize ▸ ht) (hsize ▸ hss)
      refine ⟨hmirrored, ?_⟩
      intro a b
      rw [linkAll_cons, hlinks, h.links_link hs]
      simp only [List.mem_cons]
      constructor
      · rintro ((hab | ⟨rfl, rfl, hne⟩) | ⟨rfl, ha, hne⟩)
        · exact Or.inl hab
        · exact Or.inr ⟨rfl, Or.inl rfl, hne⟩
        · exact Or.inr ⟨rfl, Or.inr ha, hne⟩
      · rintro (hab | ⟨rfl, rfl | ha, hne⟩)
        · exact Or.inl (Or.inl hab)
        · exact Or.inl (Or.inr ⟨rfl, rfl, hne⟩)
        · exact Or.inr ⟨rfl, ha, hne⟩

end Operations

/-! ## Opening a stage for an operator -/

section Opening
variable {g : StageGraph} {op : PhysicalOperator} {kind : StageKind} {n : Nat} {b : Option Key}
  {inputs : List StageId}

theorem Mirrored.open_linkAll (h : g.Mirrored) (kind : StageKind) (n : Nat) (b : Option Key)
    (hinputs : ∀ s ∈ inputs, s.val < g.size) :
    ((g.openStage kind n b).2.linkAll inputs ⟨g.size⟩).Mirrored ∧ ∀ s t,
      ((g.openStage kind n b).2.linkAll inputs ⟨g.size⟩).Links s t ↔
        g.Links s t ∨ (t = ⟨g.size⟩ ∧ s ∈ inputs) := by
  have hsize : (g.openStage kind n b).2.size = g.size + 1 := size_openStage
  obtain ⟨hmirrored, hlinks⟩ := (h.openStage kind n b).links_linkAll (t := ⟨g.size⟩)
    (hsize ▸ Nat.lt_succ_self _) fun s hs => hsize ▸ Nat.lt_succ_of_lt (hinputs s hs)
  refine ⟨hmirrored, ?_⟩
  intro s t
  rw [hlinks, Links, successors_openStage]
  refine or_congr_right (and_congr_right fun _ => and_iff_left_of_imp fun hs hsize => ?_)
  exact Nat.lt_irrefl _ (hsize ▸ hinputs s hs)

@[simp] theorem plan_openFor : (g.openFor op kind n b inputs).plan = g.plan := by
  simp [openFor, openStage, assign]

/-- The new stage holds just the operator, and the others are left alone. -/
theorem stages_openFor (hg : g.Numbered) : (g.openFor op kind n b inputs).stages =
    g.stages ++ [⟨⟨g.size⟩, kind, n, b, [op.key]⟩] := by
  have hold : ∀ st ∈ g.stages, st.id ≠ ⟨g.size⟩ := by
    intro st hst h
    have hlt := hg.lt_size hst
    rw [h] at hlt
    exact Nat.lt_irrefl _ hlt
  have hmap : g.stages.map (Stage.receive ⟨g.size⟩ op.key) = g.stages := by
    calc _ = g.stages.map id := List.map_congr_left fun st hst => Stage.receive_of_ne (hold st hst)
      _ = g.stages := List.map_id _
  simp [openFor, openStage, stages_assign, hmap, Stage.receive]

theorem stageOf?_openFor {k : Key} : (g.openFor op kind n b inputs).stageOf? k =
    if k = op.key then some ⟨g.size⟩ else g.stageOf? k := by
  simp only [openFor]
  rw [stageOf?_assign, stageOf?_linkAll]
  rfl

theorem Mirrored.openFor (h : g.Mirrored) (op : PhysicalOperator) (kind : StageKind) (n : Nat)
    (b : Option Key) (hinputs : ∀ s ∈ inputs, s.val < g.size) :
    (g.openFor op kind n b inputs).Mirrored ∧ ∀ s t,
      (g.openFor op kind n b inputs).Links s t ↔ g.Links s t ∨ (t = ⟨g.size⟩ ∧ s ∈ inputs) := by
  obtain ⟨hmirrored, hlinks⟩ := h.open_linkAll kind n b hinputs
  exact ⟨hmirrored.assign, hlinks⟩

end Opening

/-- The stage that samples the input of a total order. -/
def openSample (g : StageGraph) (op : PhysicalOperator) (inputs : List StageId) : StageGraph :=
  (g.openStage .sample 1 (some op.key)).2.linkAll inputs ⟨g.size⟩

section Sampling
variable {g : StageGraph} {op : PhysicalOperator} {inputs : List StageId}

@[simp] theorem plan_openSample : (g.openSample op inputs).plan = g.plan := by
  simp [openSample, openStage]

theorem stages_openSample : (g.openSample op inputs).stages =
    g.stages ++ [⟨⟨g.size⟩, .sample, 1, some op.key, []⟩] := by
  simp [openSample, openStage]

@[simp] theorem size_openSample : (g.openSample op inputs).size = g.size + 1 := by
  simp [size, stages_openSample]

@[simp] theorem stageOf?_openSample : (g.openSample op inputs).stageOf? = g.stageOf? :=
  stageOf?_linkAll _ _

theorem Mirrored.openSample (h : g.Mirrored) (op : PhysicalOperator)
    (hinputs : ∀ s ∈ inputs, s.val < g.size) :
    (g.openSample op inputs).Mirrored ∧ ∀ s t, (g.openSample op inputs).Links s t ↔
      g.Links s t ∨ (t = ⟨g.size⟩ ∧ s ∈ inputs) :=
  h.open_linkAll _ _ _ hinputs

theorem Numbered.openSample (hg : g.Numbered) : (g.openSample op inputs).Numbered :=
  hg.append rfl stages_openSample

theorem Numbered.openFor {kind : StageKind} {n : Nat} {b : Option Key} (hg : g.Numbered) :
    (g.openFor op kind n b inputs).Numbered :=
  hg.append rfl (stages_openFor hg)

theorem Numbered.assign {k : Key} {s : StageId} (hg : g.Numbered) : (g.assign k s).Numbered := by
  intro i st hi
  rw [stages_assign, List.getElem?_map] at hi
  obtain ⟨st', hst', rfl⟩ := Option.map_eq_some_iff.mp hi
  rw [Stage.id_receive]
  exact hg i st' hst'

end Sampling

/-! ## The table of operators -/

/-- The table gives each operator the stage that it stands in. -/
def Assigned (g : StageGraph) : Prop :=
  ∀ k s, g.stageOf? k = some s ↔ ∃ st ∈ g.stages, k ∈ st.operators ∧ st.id = s

section Assignment
variable {g : StageGraph} {k i : Key} {P : Stage → Prop}

theorem exists_stage_assign {s : StageId} (hi : i ≠ k)
    (hP : ∀ st : Stage, P (st.receive s k) ↔ P st) :
    (∃ st ∈ (g.assign k s).stages, i ∈ st.operators ∧ P st) ↔
      ∃ st ∈ g.stages, i ∈ st.operators ∧ P st := by
  have hmem : ∀ st : Stage, i ∈ (st.receive s k).operators ↔ i ∈ st.operators := by
    intro st
    by_cases hid : st.id = s
    · simp [Stage.operators_receive hid, hi]
    · rw [Stage.receive_of_ne hid]
  rw [stages_assign]
  constructor
  · rintro ⟨st', hst', hi', hn⟩
    obtain ⟨st, hst, rfl⟩ := List.mem_map.mp hst'
    exact ⟨st, hst, (hmem st).mp hi', (hP st).mp hn⟩
  · rintro ⟨st, hst, hi', hn⟩
    exact ⟨_, List.mem_map_of_mem hst, (hmem st).mpr hi', (hP st).mpr hn⟩

theorem exists_stage_append {g' : StageGraph} {new : List Stage}
    (h : g'.stages = g.stages ++ new) (hnew : ∀ st ∈ new, i ∉ st.operators) :
    (∃ st ∈ g'.stages, i ∈ st.operators ∧ P st) ↔
      ∃ st ∈ g.stages, i ∈ st.operators ∧ P st := by
  rw [h]
  constructor
  · rintro ⟨st, hst, hi, hn⟩
    rcases List.mem_append.mp hst with hst | hst
    · exact ⟨st, hst, hi, hn⟩
    · exact absurd hi (hnew st hst)
  · rintro ⟨st, hst, hi, hn⟩
    exact ⟨st, List.mem_append_left _ hst, hi, hn⟩

theorem Assigned.openStage {kind : StageKind} {n : Nat} {bound : Option Key} (h : g.Assigned) :
    (g.openStage kind n bound).2.Assigned := by
  intro k s
  rw [exists_stage_append (g := g) rfl (by simp)]
  exact h k s

theorem Assigned.linkAll {ss : List StageId} {t : StageId} (h : g.Assigned) :
    (g.linkAll ss t).Assigned := by
  intro k s
  rw [stageOf?_linkAll, stages_linkAll]
  exact h k s

/-- An operator that stands nowhere can be put into any stage. -/
theorem Assigned.assign {s : StageId} (h : g.Assigned) (hfresh : ∀ st ∈ g.stages, k ∉ st.operators)
    (hs : s ∈ g.ids) : (g.assign k s).Assigned := by
  intro i t
  by_cases hi : i = k
  · subst hi
    rw [stageOf?_assign, if_pos rfl, stages_assign, Option.some.injEq]
    constructor
    · rintro rfl
      obtain ⟨st, hst, hid⟩ := List.mem_map.mp hs
      exact ⟨_, List.mem_map_of_mem hst, by simp [Stage.operators_receive hid], by simpa using hid⟩
    · rintro ⟨st', hst', hi, rfl⟩
      obtain ⟨st, hst, rfl⟩ := List.mem_map.mp hst'
      by_contra hne
      rw [Stage.id_receive] at hne
      rw [Stage.receive_of_ne fun hid => hne hid.symm] at hi
      exact hfresh st hst hi
  · rw [stageOf?_assign_of_ne hi, h, exists_stage_assign hi fun st => by simp]

theorem Assigned.openFor {op : PhysicalOperator} {kind : StageKind} {n : Nat} {bound : Option Key}
    {inputs : List StageId} (h : g.Assigned) (hfresh : ∀ st ∈ g.stages, op.key ∉ st.operators) :
    (g.openFor op kind n bound inputs).Assigned := by
  refine h.openStage.linkAll.assign ?_ ?_
  · intro st hst
    rw [stages_linkAll] at hst
    rcases List.mem_append.mp hst with hst | hst
    · exact hfresh st hst
    · simp [List.mem_singleton.mp hst]
  · simp [StageGraph.ids, StageGraph.openStage]

theorem Assigned.openSample {op : PhysicalOperator} {inputs : List StageId} (h : g.Assigned) :
    (g.openSample op inputs).Assigned :=
  h.openStage.linkAll

end Assignment

/-! ## Placing an operator -/

theorem eraseDups_eq_singleton {α : Type} [BEq α] [LawfulBEq α] {l : List α} {a : α}
    (hne : l ≠ []) (h : ∀ x ∈ l, x = a) : l.eraseDups = [a] := by
  cases l with
  | nil => exact absurd rfl hne
  | cons b l =>
      obtain rfl := h b List.mem_cons_self
      have hnil : l.filter (fun x => !x == b) = [] := by
        rw [List.filter_eq_nil_iff]
        intro x hx
        simp [h x (List.mem_cons_of_mem _ hx)]
      rw [List.eraseDups_cons, hnil, List.eraseDups_nil]

theorem mapM_eq_some {α β : Type} {f : α → Option β} {l : List α} {l' : List β}
    (h : l.mapM f = some l') : l.map f = l'.map some := by
  induction l generalizing l' with
  | nil =>
      obtain rfl : [] = l' := by simpa using h
      rfl
  | cons a l ih =>
      rw [List.mapM_cons] at h
      simp only [Option.bind_eq_bind, Option.bind_eq_some_iff] at h
      obtain ⟨b, hb, bs, hbs, hl'⟩ := h
      cases hl'
      rw [List.map_cons, List.map_cons, hb, ih hbs]

theorem inputStages_eq_ok {g : StageGraph} {op : PhysicalOperator} {ss : List StageId}
    (h : g.inputStages op = .ok ss) :
    (∀ i ∈ op.inputs, ∃ s ∈ ss, g.stageOf? i = some s) ∧
      (∀ s ∈ ss, ∃ i ∈ op.inputs, g.stageOf? i = some s) ∧
      (op.inputs ≠ [] → ∀ s, (∀ i ∈ op.inputs, g.stageOf? i = some s) → ss = [s]) := by
  simp only [inputStages] at h
  split at h
  next l hl =>
    cases h
    have hmap := mapM_eq_some hl
    obtain ⟨hof, hfrom⟩ := mem_of_map_eq hmap
    refine ⟨?_, fun s hs => hfrom s (List.mem_eraseDups.mp hs), ?_⟩
    · intro i hi
      obtain ⟨s, hs, his⟩ := hof i hi
      exact ⟨s, List.mem_eraseDups.mpr hs, his⟩
    · intro hne s hs
      refine eraseDups_eq_singleton ?_ ?_
      · intro hnil
        rw [hnil] at hmap
        exact hne (List.map_eq_nil_iff.mp hmap)
      · intro x hx
        obtain ⟨i, hi, hix⟩ := hfrom x hx
        exact Option.some.inj (hix.symm.trans (hs i hi))
  · cases h

/-- The figures of the stage that an operator opens for itself. -/
inductive Opens (c : CompilerConfig) (g : StageGraph) (op : PhysicalOperator) :
    StageKind → Nat → Option Key → List StageId → Prop
  | source : op.kind.category = .load → Opens c g op .source c.defaultParallelism none []
  | merge {inputs : List StageId} : op.kind.category = .union → g.inputStages op = .ok inputs →
      (∀ s, inputs ≠ [s]) → Opens c g op .merge (g.largestParallelism c inputs) none inputs
  | shuffle {inputs : List StageId} : op.kind.category = .hash ∨ op.kind.category = .sort →
      g.inputStages op = .ok inputs →
      Opens c g op .shuffle (shuffleParallelism c op) (some op.key) inputs

/-- A total order whose input is to be sampled. -/
def Sampled (c : CompilerConfig) (op : PhysicalOperator) : Prop :=
  op.kind.category = .sort ∧ c.sampleTotalOrderSort = true

theorem not_sampled {c : CompilerConfig} {op : PhysicalOperator}
    (hcat : op.kind.category = .store ∨ op.kind.category = .pipeline ∨ op.kind.category = .union) :
    ¬ Sampled c op := by
  rintro ⟨hs, -⟩
  rcases hcat with hcat | hcat | hcat <;> simp [hcat] at hs

/-- The ways in which an operator is placed. -/
inductive Placed (c : CompilerConfig) (g : StageGraph) (op : PhysicalOperator) : StageGraph → Prop
  | joins {s : StageId} :
      op.kind.category = .store ∨ op.kind.category = .pipeline ∨ op.kind.category = .union →
      g.inputStages op = .ok [s] → Placed c g op (g.assign op.key s)
  | opens {kind : StageKind} {n : Nat} {b : Option Key} {inputs : List StageId} :
      Opens c g op kind n b inputs → ¬ Sampled c op →
      Placed c g op (g.openFor op kind n b inputs)
  | samples {inputs : List StageId} : Sampled c op → g.inputStages op = .ok inputs →
      Placed c g op ((g.openSample op inputs).openFor op .shuffle (shuffleParallelism c op)
        (some op.key) (⟨g.size⟩ :: inputs))

theorem place_eq_ok {c : CompilerConfig} {g g' : StageGraph} {op : PhysicalOperator}
    (h : place c g op = .ok g') : Placed c g op g' := by
  have hsort : ∀ {k : Category}, op.kind.category = k → k ≠ .sort → ¬ Sampled c op :=
    fun hk hne hs => hne (hk.symm.trans hs.1)
  simp only [place] at h
  split at h
  next hcat => cases h; exact .opens (.source hcat) (hsort hcat (by decide))
  next hcat =>
    split at h
    next s hin => cases h; exact .joins (Or.inl hcat) hin
    · cases h
    · cases h
  next hcat =>
    split at h
    next s hin => cases h; exact .joins (Or.inr (Or.inl hcat)) hin
    · cases h
    · cases h
  next hcat =>
    split at h
    next s hin => cases h; exact .joins (Or.inr (Or.inr hcat)) hin
    next inputs hne hin =>
      cases h
      exact .opens (.merge hcat hin fun s hs => hne s hs) (hsort hcat (by decide))
    · cases h
  next hcat =>
    split at h
    next inputs hin =>
      cases h
      exact .opens (.shuffle (Or.inl hcat) hin) (hsort hcat (by decide))
    · cases h
  next hcat =>
    split at h
    next inputs hin =>
      split at h
      next hc => cases h; exact .samples ⟨hcat, hc⟩ hin
      next hc => cases h; exact .opens (.shuffle (Or.inr hcat) hin) fun hs => hc hs.2
    · cases h

end StageGraph
end Dataflow
