import Dataflow.Proofs.Plan.Acyclic
import Dataflow.Proofs.Stage.Links
/-!
# The topological sort of stages

The sort lists a stage once no link leads to it from an unlisted stage.  It never counts those links
anew: it counts them once, in the rows of the stages that read, and whenever a stage is listed it takes
one off for each entry in the row of that stage.  `Tally` says that the counters nevertheless are what a
new count would give (`openLinks`), and that the stages that wait to be listed are the unlisted ones with
a count of zero.  It holds because the two tables of links mirror each other: an entry missing
from one of them would leave a counter too high, or take it below zero.

Each step lists one stage, so after as many steps as there are stages either all are listed, or the
sort has run out of stages before.  In that case each unlisted stage has an open link, which comes
from an unlisted stage again, and there is a cycle.

**Proved here.**

    what a step does to the counters and to the waiting stages   (`release_spec`)
    the counters are right after every step                      (`Tally.step`)
    the sort goes on until no stage waits any more               (`ready_sorted`)
    stages without a cycle can be sorted                         (`exists_topologicalOrder`)
    an order lists every stage, each after its predecessors      (`topologicalOrder_eq_ok`)
-/
namespace Dataflow.StageGraph

/-- The links to a stage from stages that are not listed. -/
def openLinks (g : StageGraph) (listed : List StageId) (t : StageId) : Nat :=
  ((g.predecessors t).filter fun a => a ∉ listed).length

/-- A sort under way. -/
structure Tally (g : StageGraph) (s : Sorting) : Prop where
  pending : ∀ t : StageId, t.val < g.size → s.pending[t.val]? = some (g.openLinks s.listed t : Int)
  mem_ready : ∀ t, t ∈ s.ready ↔ t.val < g.size ∧ t ∉ s.listed ∧ g.openLinks s.listed t = 0
  closed : ∀ t ∈ s.listed, g.openLinks s.listed t = 0
  nodup_ready : s.ready.Nodup
  nodup_listed : s.listed.Nodup

/-- Stages that can be taken one after the other, when some have been taken before: each comes after
all that it reads from. -/
def InTurn (g : StageGraph) : List StageId → List StageId → Prop
  | _, [] => True
  | done, t :: rest => t ∈ g.ids ∧ g.predecessors t ⊆ done ∧ InTurn g (done ++ [t]) rest

/-! ## One step -/

/-- Each target loses a link, and those that lose their last one begin to wait, in order. -/
theorem release_spec {ts : List StageId} (hnodup : ts.Nodup) (s : Sorting) :
    (release ts s).listed = s.listed ∧
    (∀ t : StageId, (release ts s).pending[t.val]? =
      if t ∈ ts then s.pending[t.val]?.map (· - 1) else s.pending[t.val]?) ∧
    (release ts s).ready = s.ready ++ ts.filter fun t => s.pending[t.val]?.getD 0 - 1 = 0 := by
  induction ts generalizing s with
  | nil => simp [release]
  | cons u ts ih =>
      obtain ⟨hnew, hts⟩ := List.nodup_cons.mp hnodup
      have hne : ∀ t ∈ ts, u.val ≠ t.val := by
        intro t ht hval
        obtain rfl : u = t := by cases u; cases t; exact congrArg StageId.mk hval
        exact hnew ht
      simp only [release]
      obtain ⟨hlisted, hpending, hready⟩ := ih hts
        { s with
          pending := s.pending.set u.val (s.pending[u.val]?.getD 0 - 1)
          ready := if s.pending[u.val]?.getD 0 - 1 = 0 then s.ready ++ [u] else s.ready }
      refine ⟨hlisted, ?_, ?_⟩
      · intro t
        rw [hpending t]
        by_cases htu : t = u
        · subst htu
          rw [if_neg hnew, if_pos List.mem_cons_self, List.getElem?_set_self']
          cases s.pending[t.val]? <;> rfl
        · have hval : u.val ≠ t.val := by
            intro hval
            exact htu (by cases u; cases t; exact congrArg StageId.mk hval.symm)
          simp only [List.mem_cons, htu, false_or, List.getElem?_set_ne hval]
      · have hsame : ∀ t ∈ ts, (s.pending.set u.val (s.pending[u.val]?.getD 0 - 1))[t.val]? =
            s.pending[t.val]? := fun t ht => List.getElem?_set_ne (hne t ht)
        rw [hready, List.filter_congr fun t ht => by rw [hsame t ht], List.filter_cons]
        by_cases hzero : s.pending[u.val]?.getD 0 - 1 = 0
        · simp [hzero]
        · simp [hzero]

section Steps
variable {g : StageGraph} {s : Sorting} {listed rest : List StageId} {t u : StageId}

theorem Wired.openLinks_concat (hg : g.Wired) (ht : t ∉ listed) : g.openLinks listed u =
    g.openLinks (listed ++ [t]) u + if u ∈ g.successors t then 1 else 0 := by
  have hfilter : (g.predecessors u).filter (fun a => a ∉ listed ++ [t]) =
      ((g.predecessors u).filter fun a => a ∉ listed).erase t := by
    rw [((hg.mirrored.nodup_predecessors u).filter _).erase_eq_filter, List.filter_filter]
    refine List.filter_congr fun a _ => ?_
    by_cases hat : a = t
    · simp [hat]
    · simp [hat]
  simp only [openLinks, hfilter, List.length_erase]
  by_cases hlink : u ∈ g.successors t
  · have hmem : t ∈ (g.predecessors u).filter fun a => a ∉ listed :=
      List.mem_filter.mpr ⟨hg.mirrored.mem_predecessors.mpr hlink, decide_eq_true ht⟩
    have hpos := List.length_pos_of_mem hmem
    rw [if_pos hmem, if_pos hlink]
    omega
  · have hmem : t ∉ (g.predecessors u).filter fun a => a ∉ listed := by
      intro hm
      exact hlink (hg.mirrored.mem_predecessors.mp (List.mem_of_mem_filter hm))
    rw [if_neg hmem, if_neg hlink]
    rfl

theorem Tally.start (hg : g.Wired) : Tally g g.sortStart := by
  have hopen : ∀ t, g.openLinks [] t = (g.predecessors t).length := by
    intro t
    simp [openLinks]
  refine ⟨?_, ?_, ?_, ?_, List.nodup_nil⟩
  · intro t ht
    have hrow : g.readsFrom[t.val]? = some (g.predecessors t) := by
      rw [predecessors, List.getElem?_eq_getElem (hg.mirrored.length_readsFrom.symm ▸ ht)]
      rfl
    show (g.readsFrom.map fun row => (row.length : Int))[t.val]? = _
    rw [List.getElem?_map, hrow]
    exact congrArg (fun n : Nat => some (n : Int)) (hopen t).symm
  · intro t
    show t ∈ g.roots ↔ t.val < g.size ∧ t ∉ [] ∧ g.openLinks [] t = 0
    rw [roots, List.mem_filter, hg.numbered.mem_ids, hopen, List.length_eq_zero_iff]
    simp
  · intro t ht
    exact absurd ht List.not_mem_nil
  · exact hg.numbered.nodup_ids.filter _

theorem Tally.step (hg : g.Wired) (h : Tally g s) (hready : s.ready = t :: rest) :
    (g.sortStep s).listed = s.listed ++ [t] ∧ Tally g (g.sortStep s) := by
  obtain ⟨hlt, hunlisted, hzero⟩ := (h.mem_ready t).mp (hready ▸ List.mem_cons_self)
  obtain ⟨hnew, hrest⟩ : t ∉ rest ∧ rest.Nodup := List.nodup_cons.mp (hready ▸ h.nodup_ready)
  obtain ⟨hlisted, hpending, hwaiting⟩ := release_spec (hg.mirrored.nodup_successors t)
    { s with ready := rest, listed := s.listed ++ [t] }
  dsimp only at hlisted hpending hwaiting
  have hstep : g.sortStep s =
      release (g.successors t) { s with ready := rest, listed := s.listed ++ [t] } := by
    rw [sortStep, hready]
  -- a link from the listed stage is one link less, and nothing else changes
  have hopen : ∀ u, g.openLinks s.listed u =
      g.openLinks (s.listed ++ [t]) u + if u ∈ g.successors t then 1 else 0 :=
    fun u => hg.openLinks_concat hunlisted
  have hcount : ∀ u, u ∈ g.successors t → s.pending[u.val]?.getD 0 - 1 = 0 →
      g.openLinks s.listed u = 1 := by
    intro u hu hlast
    rw [h.pending u (hg.mirrored.target_lt hu), Option.getD_some] at hlast
    omega
  rw [hstep]
  refine ⟨hlisted, ?_, ?_, ?_, ?_, ?_⟩
  · intro u hu
    rw [hlisted, hpending u, h.pending u hu, hopen u]
    by_cases hlink : u ∈ g.successors t
    · simp [hlink]
    · simp [hlink]
  · intro u
    rw [hlisted, hwaiting, List.mem_append, List.mem_filter, decide_eq_true_eq]
    constructor
    · rintro (hu | ⟨hu, hlast⟩)
      · obtain ⟨hsize, hfree, hnone⟩ := (h.mem_ready u).mp (hready ▸ List.mem_cons_of_mem _ hu)
        rw [hopen u] at hnone
        refine ⟨hsize, ?_, by omega⟩
        intro hm
        rcases List.mem_append.mp hm with hm | hm
        · exact hfree hm
        · exact hnew (List.mem_singleton.mp hm ▸ hu)
      · have hone := hcount u hu hlast
        refine ⟨hg.mirrored.target_lt hu, ?_, ?_⟩
        · intro hm
          rcases List.mem_append.mp hm with hm | hm
          · rw [h.closed u hm] at hone
            cases hone
          · rw [List.mem_singleton.mp hm, hzero] at hone
            cases hone
        · rw [hopen u, if_pos hu] at hone
          omega
    · rintro ⟨hsize, hfree, hnone⟩
      rw [List.mem_append, List.mem_singleton, not_or] at hfree
      by_cases hlink : u ∈ g.successors t
      · refine Or.inr ⟨hlink, ?_⟩
        rw [h.pending u hsize, hopen u, if_pos hlink, hnone]
        rfl
      · have hu : u ∈ s.ready := by
          rw [h.mem_ready, hopen u, if_neg hlink, hnone]
          exact ⟨hsize, hfree.1, rfl⟩
        rw [hready] at hu
        exact Or.inl ((List.mem_cons.mp hu).resolve_left hfree.2)
  · intro u hu
    rw [hlisted] at hu ⊢
    have hnone : g.openLinks s.listed u = 0 := by
      rcases List.mem_append.mp hu with hu | hu
      · exact h.closed u hu
      · rw [List.mem_singleton.mp hu]
        exact hzero
    rw [hopen u] at hnone
    omega
  · rw [hwaiting]
    refine List.nodup_append.mpr ⟨hrest, (hg.mirrored.nodup_successors t).filter _, ?_⟩
    rintro u hu _ hu' rfl
    rw [List.mem_filter, decide_eq_true_eq] at hu'
    have hone := hcount u hu'.1 hu'.2
    rw [((h.mem_ready u).mp (hready ▸ List.mem_cons_of_mem _ hu)).2.2] at hone
    cases hone
  · rw [hlisted, ← List.concat_eq_append]
    exact h.nodup_listed.concat hunlisted

theorem Tally.ready_inTurn (hg : g.Wired) (h : Tally g s) (ht : t ∈ s.ready) :
    t ∈ g.ids ∧ g.predecessors t ⊆ s.listed := by
  obtain ⟨hlt, -, hzero⟩ := (h.mem_ready t).mp ht
  refine ⟨hg.numbered.mem_ids.mpr hlt, ?_⟩
  intro a ha
  by_contra hunlisted
  have hmem : a ∈ (g.predecessors t).filter fun a => a ∉ s.listed :=
    List.mem_filter.mpr ⟨ha, decide_eq_true hunlisted⟩
  rw [List.length_eq_zero_iff.mp hzero] at hmem
  exact List.not_mem_nil hmem

/-! ## All steps -/

theorem sortSteps_of_ready_eq_nil (hready : s.ready = []) (n : Nat) : g.sortSteps n s = s := by
  have hstay : g.sortStep s = s := by rw [sortStep, hready]
  induction n with
  | zero => rfl
  | succ n ih => rw [sortSteps, hstay, ih]

/-- Each step lists a stage, unless none waits any more. -/
theorem Tally.steps (hg : g.Wired) (n : Nat) (h : Tally g s) : Tally g (g.sortSteps n s) ∧
    ((g.sortSteps n s).ready = [] ∨ (g.sortSteps n s).listed.length = s.listed.length + n) := by
  induction n generalizing s with
  | zero => exact ⟨h, Or.inr rfl⟩
  | succ n ih =>
      cases hready : s.ready with
      | nil =>
          rw [sortSteps_of_ready_eq_nil hready]
          exact ⟨h, Or.inl hready⟩
      | cons t rest =>
          obtain ⟨hlisted, hnext⟩ := h.step hg hready
          obtain ⟨htally, hend⟩ := ih hnext
          refine ⟨htally, hend.imp_right fun hlen => ?_⟩
          rw [sortSteps, hlen, hlisted, List.length_append, List.length_singleton]
          omega

theorem Tally.inTurn (hg : g.Wired) (n : Nat) (h : Tally g s) :
    ∃ rest, (g.sortSteps n s).listed = s.listed ++ rest ∧ g.InTurn s.listed rest := by
  induction n generalizing s with
  | zero => exact ⟨[], (List.append_nil _).symm, trivial⟩
  | succ n ih =>
      cases hready : s.ready with
      | nil =>
          rw [sortSteps_of_ready_eq_nil hready]
          exact ⟨[], (List.append_nil _).symm, trivial⟩
      | cons t later =>
          obtain ⟨hlisted, hnext⟩ := h.step hg hready
          obtain ⟨hid, hbefore⟩ := h.ready_inTurn hg (hready ▸ List.mem_cons_self)
          obtain ⟨rest, hrest, hturn⟩ := ih hnext
          rw [hlisted] at hrest hturn
          exact ⟨t :: rest, by rw [sortSteps, hrest, List.append_assoc]; rfl, hid, hbefore, hturn⟩

theorem InTurn.subset (h : g.InTurn listed rest) : rest ⊆ g.ids := by
  induction rest generalizing listed with
  | nil => exact List.nil_subset _
  | cons t rest ih =>
      obtain ⟨ht, -, hrest⟩ := h
      exact List.cons_subset.mpr ⟨ht, ih hrest⟩

/-- If as many stages are listed as there are, each of them is listed once. -/
theorem perm_sorted (hg : g.Wired) (hall : g.size ≤ g.sorted.listed.length) :
    g.sorted.listed.Perm g.ids := by
  obtain ⟨rest, hrest, hturn⟩ := (Tally.start hg).inTurn hg g.size
  obtain rfl : g.sorted.listed = rest := hrest
  have hnodup : g.sorted.listed.Nodup := ((Tally.start hg).steps hg g.size).1.nodup_listed
  refine (hnodup.subperm hturn.subset).perm_of_length_le ?_
  rw [hg.numbered.ids_eq, List.length_map, List.length_range]
  exact hall

/-- In the end no stage waits. -/
theorem ready_sorted (hg : g.Wired) : g.sorted.ready = [] := by
  obtain ⟨htally, hready | hlen⟩ := (Tally.start hg).steps hg g.size
  · exact hready
  · have hperm := perm_sorted hg (Nat.le_of_eq (hlen.trans (Nat.zero_add _)).symm)
    refine List.eq_nil_iff_forall_not_mem.mpr fun t ht => ?_
    obtain ⟨hlt, hunlisted, -⟩ := (htally.mem_ready t).mp ht
    exact hunlisted (hperm.mem_iff.mpr (hg.numbered.mem_ids.mpr hlt))

/-- If no stage waits any more although some are unlisted, there is a cycle. -/
theorem Tally.exists_cycle (hg : g.Wired) (h : Tally g s) (hready : s.ready = [])
    (ht : t.val < g.size) (hunlisted : t ∉ s.listed) :
    ∃ a, Relation.TransGen (fun b a => g.Links a b) a a := by
  refine exists_transGen_self (l := g.ids.filter fun a => a ∉ s.listed) ?_ ?_
  · refine List.ne_nil_of_mem (a := t) ?_
    exact List.mem_filter.mpr ⟨hg.numbered.mem_ids.mpr ht, decide_eq_true hunlisted⟩
  · intro b hb
    rw [List.mem_filter, hg.numbered.mem_ids, decide_eq_true_eq] at hb
    have hne : (g.predecessors b).filter (fun a => a ∉ s.listed) ≠ [] := by
      intro hnil
      have hwaits : b ∈ s.ready := (h.mem_ready b).mpr ⟨hb.1, hb.2, by rw [openLinks, hnil]; rfl⟩
      rw [hready] at hwaits
      exact List.not_mem_nil hwaits
    obtain ⟨a, ha⟩ := List.exists_mem_of_ne_nil _ hne
    rw [List.mem_filter, hg.mirrored.mem_predecessors] at ha
    exact ⟨a, List.mem_filter.mpr ⟨hg.numbered.mem_ids.mpr (hg.mirrored.source_lt ha.1), ha.2⟩, ha.1⟩

/-- Stages without a cycle can be sorted. -/
theorem exists_topologicalOrder (hg : g.Wired)
    (hacyclic : ∀ a, ¬ Relation.TransGen g.Links a a) :
    ∃ order, g.topologicalOrder = .ok order := by
  have htally := ((Tally.start hg).steps hg g.size).1
  have hall : ¬ g.sorted.listed.length < g.size := by
    intro hshort
    -- the listed stages are too few to be all of them
    obtain ⟨t, ht, hunlisted⟩ : ∃ t ∈ g.ids, t ∉ g.sorted.listed := by
      by_contra hno
      have hsub : g.ids ⊆ g.sorted.listed := by
        intro t ht
        by_contra hunlisted
        exact hno ⟨t, ht, hunlisted⟩
      have hle := (hg.numbered.nodup_ids.subperm hsub).length_le
      rw [hg.numbered.ids_eq, List.length_map, List.length_range] at hle
      exact Nat.not_lt_of_le hle hshort
    obtain ⟨a, ha⟩ :=
      htally.exists_cycle hg (ready_sorted hg) (hg.numbered.mem_ids.mp ht) hunlisted
    exact hacyclic a (Relation.transGen_swap.mp ha)
  exact ⟨g.sorted.listed, by simp only [topologicalOrder, if_neg hall]⟩

/-- An order lists every stage once, each after those that it reads from. -/
theorem topologicalOrder_eq_ok (hg : g.Wired) (h : g.topologicalOrder = .ok listed) :
    listed.Perm g.ids ∧ g.InTurn [] listed := by
  simp only [topologicalOrder] at h
  split at h
  · cases h
  next hall =>
    cases h
    obtain ⟨rest, hrest, hturn⟩ := (Tally.start hg).inTurn hg g.size
    obtain rfl : g.sorted.listed = rest := hrest
    exact ⟨perm_sorted hg (Nat.le_of_not_lt hall), hturn⟩

end Steps
end Dataflow.StageGraph
