import Dataflow.Proofs.Stage.Sorting
/-!
# Sorting any stages

The stages of a plan never form a cycle, but the sort does not count on that.  Whatever stages are
opened and linked, the sort has an answer, and it gives an order if there is one.  On the way it takes
links off counters one at a time.  A counter is at zero only when every link to its stage has been
taken off, and each is taken off once, so there is no counter that falls below zero.

Links can be made between opened stages only.  A link from a stage to itself is not kept, so it is no
cycle either.

**Proved here.**

    built  ⟹  the tables of links mirror each other                    (`Built.wired`)
    the counters at every moment of the sort                            (`Moment.pending_nonneg`)
    which stages have an order, and what it is                          (`topologicalOrder_sound`)
-/
namespace Dataflow.StageGraph

/-- The stages that can be built: opened one by one, with links between those that are open. -/
inductive Built : StageGraph → Prop
  | ofPlan (p : PhysicalPlan) : Built (ofPlan p)
  | openStage {g : StageGraph} (kind : StageKind) (n : Nat) (boundary : Option Key) :
      Built g → Built (g.openStage kind n boundary).2
  | assign {g : StageGraph} {s : StageId} (k : Key) : Built g → s ∈ g.ids → Built (g.assign k s)
  | link {g : StageGraph} {s t : StageId} : Built g → s ∈ g.ids → t ∈ g.ids → Built (g.link s t)

/-- Whatever stages are opened and linked, the tables of their links stay mirrors of each other. -/
theorem Built.wired {g : StageGraph} (h : g.Built) : g.Wired := by
  induction h with
  | ofPlan p => exact ⟨fun i st hi => absurd hi (by simp [StageGraph.ofPlan]), .ofPlan⟩
  | openStage kind n boundary _ ih =>
      exact ⟨ih.numbered.append rfl rfl, ih.mirrored.openStage kind n boundary⟩
  | assign k _ _ ih => exact ⟨ih.numbered.assign, ih.mirrored.assign⟩
  | link _ hs ht ih =>
      refine ⟨?_, ih.mirrored.link (ih.numbered.mem_ids.mp hs) (ih.numbered.mem_ids.mp ht)⟩
      rw [link_eq]
      exact ih.numbered

/-! ## Single moments -/

/-- The sort at a moment: between two steps, or within one, when the stage that was next is listed and
the links to the first few of its successors are taken off. -/
inductive Moment (g : StageGraph) : Sorting → Prop
  | between (n : Nat) : Moment g (g.sortSteps n g.sortStart)
  | within {n : Nat} {t : StageId} {rest us later : List StageId} :
      (g.sortSteps n g.sortStart).ready = t :: rest → g.successors t = us ++ later →
      Moment g (release us { g.sortSteps n g.sortStart with
        ready := rest, listed := (g.sortSteps n g.sortStart).listed ++ [t] })

section Steps
variable {g : StageGraph} {s : Sorting} {listed rest : List StageId} {t u : StageId}

theorem Tally.pending_nonneg (h : Tally g s) (hu : u.val < g.size) :
    ∃ n, s.pending[u.val]? = some n ∧ 0 ≤ n :=
  ⟨_, h.pending u hu, Int.natCast_nonneg _⟩

/-- Every stage has a counter, which is never below zero. -/
theorem Moment.pending_nonneg (hg : g.Wired) (h : Moment g s) (hu : u ∈ g.ids) :
    ∃ n, s.pending[u.val]? = some n ∧ 0 ≤ n := by
  have hlt := hg.numbered.mem_ids.mp hu
  cases h with
  | between n => exact ((Tally.start hg).steps hg n).1.pending_nonneg hlt
  | @within n t rest us later hready hsuccessors =>
      have htally := ((Tally.start hg).steps hg n).1
      have hunlisted := ((htally.mem_ready t).mp (hready ▸ List.mem_cons_self)).2.1
      have hnodup : us.Nodup := (List.nodup_append.mp (hsuccessors ▸ hg.mirrored.nodup_successors t)).1
      rw [(release_spec hnodup _).2.1 u, htally.pending u hlt]
      split
      next hreleased =>
        -- a link that is taken off was still counted, since its source has only now been listed
        have hlink : u ∈ g.successors t := hsuccessors ▸ List.mem_append_left _ hreleased
        have hcount := hg.openLinks_concat hunlisted (u := u)
        rw [if_pos hlink] at hcount
        refine ⟨_, rfl, ?_⟩
        show 0 ≤ (g.openLinks _ u : Int) - 1
        omega
      · exact ⟨_, rfl, Int.natCast_nonneg _⟩

/-! ## The order -/

theorem InTurn.predecessors_subset {l₁ l₂ : List StageId} (h : g.InTurn listed (l₁ ++ t :: l₂)) :
    g.predecessors t ⊆ listed ++ l₁ := by
  induction l₁ generalizing listed with
  | nil => simpa using h.2.1
  | cons u l₁ ih => simpa using ih h.2.2

theorem idxOf_lt_of_topologicalOrder {a b : StageId} (hg : g.Wired)
    (h : g.topologicalOrder = .ok listed) (hab : (a, b) ∈ g.edges) :
    listed.idxOf a < listed.idxOf b := by
  obtain ⟨hperm, hturn⟩ := topologicalOrder_eq_ok hg h
  have hlink := hg.mem_edges.mp hab
  have hb : b ∈ listed :=
    hperm.mem_iff.mpr (hg.numbered.mem_ids.mpr (hg.mirrored.target_lt hlink))
  obtain ⟨l₁, l₂, rfl⟩ := List.append_of_mem hb
  exact idxOf_lt_of_mem (hperm.nodup_iff.mpr hg.numbered.nodup_ids)
    (hturn.predecessors_subset (hg.mirrored.mem_predecessors.mpr hlink))

end Steps

/-- What can be said of the sort of some stages. -/
structure SoundlySorted (g : StageGraph) : Prop where
  /-- The table that links are counted in says the same as the one that they are taken off by. -/
  mirrored : ∀ a b, (g.predecessors b).count a = (g.successors a).count b
  /-- There is an order just when no edges lead from a stage back to it. -/
  isOk_iff : (∃ order, g.topologicalOrder = .ok order) ↔
    ∀ s, ¬ Relation.TransGen (fun a b => (a, b) ∈ g.edges) s s
  nodup : ∀ order, g.topologicalOrder = .ok order → order.Nodup
  mem_iff : ∀ order, g.topologicalOrder = .ok order → ∀ s, s ∈ order ↔ s ∈ g.ids
  forward : ∀ order, g.topologicalOrder = .ok order →
    ∀ a b, (a, b) ∈ g.edges → order.idxOf a < order.idxOf b
  /-- At no time is the counter of a stage missing or below zero. -/
  counters : ∀ s, Moment g s → ∀ t ∈ g.ids, ∃ n, s.pending[t.val]? = some n ∧ 0 ≤ n
  /-- The number of steps is enough for any stages. -/
  finished : g.sorted.ready = []

/-- Whatever stages are opened and linked, they are sorted soundly. -/
theorem topologicalOrder_sound {g : StageGraph} (h : g.Built) : g.SoundlySorted := by
  have hg := h.wired
  have hlists : ∀ order, g.topologicalOrder = .ok order → order.Perm g.ids :=
    fun order horder => (topologicalOrder_eq_ok hg horder).1
  refine ⟨hg.mirrored.count_eq, ⟨?_, ?_⟩, ?_, ?_, ?_, ?_, ready_sorted hg⟩
  · rintro ⟨order, horder⟩
    exact not_transGen_self order.idxOf fun a b hab =>
      idxOf_lt_of_topologicalOrder hg horder hab
  · intro hacyclic
    have hedge : ∀ b c, g.Links b c → (b, c) ∈ g.edges := fun b c hbc => hg.mem_edges.mpr hbc
    exact exists_topologicalOrder hg fun a ha => hacyclic a (Relation.TransGen.mono hedge _ _ ha)
  · intro order horder
    exact (hlists order horder).nodup_iff.mpr hg.numbered.nodup_ids
  · intro order horder s
    exact (hlists order horder).mem_iff
  · intro order horder a b hab
    exact idxOf_lt_of_topologicalOrder hg horder hab
  · intro s hs t ht
    exact hs.pending_nonneg hg ht

def threeOpened : StageGraph :=
  ((((ofPlan .empty).openStage .merge 1 none).2.openStage .merge 1 none).2.openStage .merge 1 none).2

/-- Three stages, of which two are linked in a ring.  The third is linked to it twice, and to itself. -/
def ringed : StageGraph :=
  ((((threeOpened.link ⟨2⟩ ⟨0⟩).link ⟨0⟩ ⟨1⟩).link ⟨1⟩ ⟨0⟩).link ⟨2⟩ ⟨0⟩).link ⟨2⟩ ⟨2⟩

theorem ringed_soundlySorted : ringed.Built ∧ ringed.SoundlySorted ∧
    ringed.topologicalOrder = .error (.cycle ⟨0⟩) ∧
    ¬ ∀ s, ¬ Relation.TransGen (fun a b => (a, b) ∈ ringed.edges) s s := by
  have hopened : threeOpened.Built :=
    (((Built.ofPlan .empty).openStage _ _ _).openStage _ _ _).openStage _ _ _
  have hbuilt : ringed.Built := by
    refine .link (.link (.link (.link (.link hopened ?_ ?_) ?_ ?_) ?_ ?_) ?_ ?_) ?_ ?_
    all_goals decide
  have hsound := topologicalOrder_sound hbuilt
  have herror : ringed.topologicalOrder = .error (.cycle ⟨0⟩) := by cbv
  refine ⟨hbuilt, hsound, herror, ?_⟩
  rw [← hsound.isOk_iff, herror]
  rintro ⟨order, horder⟩
  cases horder

end Dataflow.StageGraph
