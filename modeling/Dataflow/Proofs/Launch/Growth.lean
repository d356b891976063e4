import Dataflow.Proofs.Engine.Lifecycle
import Dataflow.Proofs.Launch.Completion
/-!
# What is done stays done

Jobs may report whatever they like.  What is recorded of a job stays between nothing and all, and
never falls; so neither does the whole, in either weighting.  A watch asks for the parts one after
the other while the run goes on, and what it makes of them need not be the whole at any one moment.
But it lies between the whole before the question and the whole after it.

**Proved here.**

    the recorded part of a job never falls           (`Steps.part_le`)
    nor does the whole, between 0 and 1              (`Steps.overall_le`, `overall_mem`)
    the answer to a question about the whole         (`ensures_overallProgress_between`)
-/
namespace Dataflow

/-! ## The part of one job -/

section Parts

theorem clamp_eq (x : Rat) : Fraction.clamp x = max 0 (min 1 x) := by
  have hzero : (Fraction.zero : Rat) = 0 := Nat.cast_zero
  have hone : (Fraction.one : Rat) = 1 := Nat.cast_one
  simp only [Fraction.clamp]
  rw [hzero, hone]
  split
  next h => exact (max_eq_left (min_le_of_right_le (le_of_lt h))).symm
  next h =>
    have hnonneg : 0 ≤ x := not_lt.mp h
    split
    next h₁ => rw [min_eq_left (le_of_lt h₁), max_eq_right zero_le_one]
    next h₁ => rw [min_eq_right (not_lt.mp h₁), max_eq_right hnonneg]

theorem clamp_mono {x y : Rat} (h : x ≤ y) : Fraction.clamp x ≤ Fraction.clamp y := by
  rw [clamp_eq, clamp_eq]
  exact max_le_max le_rfl (min_le_min le_rfl h)

theorem le_larger (a b : Rat) : a ≤ Fraction.larger a b := by
  simp only [Fraction.larger]
  split
  next h => exact h.le
  next => exact le_rfl

end Parts

namespace LocalRun
variable {g : JobGraph} {r r' : LocalRun Rat} {j : JobId} {st st' : JobState Rat}

theorem Turns.progress_le (h : Turns r j st st') (hst : st.Sound) : st.progress ≤ st'.progress := by
  cases h with
  | stays => exact le_rfl
  | reports _ => exact le_larger _ _
  | abandons _ _ _ _ => exact le_rfl
  | starts _ => exact le_rfl
  | @joins result _ =>
      cases result with
      | ok counters => exact hst.le_one.trans_eq Nat.cast_one.symm
      | error reason => exact le_rfl

theorem Steps.progress_le (hr : Reachable g r) (h : Steps r r')
    (hst : r.table.state? j = some st) :
    ∃ st', r'.table.state? j = some st' ∧ st.progress ≤ st'.progress := by
  induction h with
  | refl => exact ⟨st, hst, le_rfl⟩
  | tail hsteps hstep ih =>
      obtain ⟨st₁, hst₁, hle⟩ := ih
      obtain ⟨st₂, hst₂, hturns⟩ := hstep.moves.turns hst₁
      have hsound := lasting_sound.reachable (hr.trans hsteps) j st₁ hst₁
      exact ⟨st₂, hst₂, hle.trans (hturns.progress_le hsound)⟩

theorem Reachable.part_mem (hr : Reachable g r) (j : JobId) :
    0 ≤ r.table.part j ∧ r.table.part j ≤ 1 :=
  JobTable.part_mem (fun i st hst => lasting_sound.reachable hr i st hst) j

/-- However a run goes on, the part that it has recorded of a job does not fall. -/
theorem Steps.part_le (hr : Reachable g r) (h : Steps r r') : r.table.part ≤ r'.table.part := by
  intro j
  cases hst : r.table.state? j with
  | none =>
      rw [JobTable.part, hst]
      exact Nat.cast_zero.trans_le (Reachable.part_mem (hr.trans h) j).1
  | some st =>
      obtain ⟨st', hst', hle⟩ := h.progress_le hr hst
      rw [JobTable.part, JobTable.part, hst, hst']
      exact hle

theorem Steps.exists_progress {stages : StageGraph} (hb : JobGraph.Bound stages g)
    (hr : Reachable g r) (h : Steps r r') {job : Job} (hjob : job ∈ g.jobs) :
    ∃ p p', r.table.progress job.id = .ok p ∧ r'.table.progress job.id = .ok p' ∧
      0 ≤ p ∧ p ≤ p' ∧ p' ≤ 1 := by
  have hr' : Reachable g r' := hr.trans h
  exact ⟨_, _, hr.progress_eq hb hjob, hr'.progress_eq hb hjob, (hr.part_mem job.id).1,
    h.part_le hr job.id, (hr'.part_mem job.id).2⟩

end LocalRun

/-! ## The whole -/

namespace JobTable
variable {t t' : JobTable Rat} {w : Weighting}

theorem addParts_mono (h : t.part ≤ t'.part) (jobs : List Job) {done done' : Rat}
    (hdone : done ≤ done') : t.addParts w jobs done ≤ t'.addParts w jobs done' := by
  induction jobs generalizing done done' with
  | nil => exact hdone
  | cons job jobs ih =>
      refine ih (add_le_add hdone ?_)
      exact mul_le_mul_of_nonneg_left (clamp_mono (h job.id)) (weight_pos w job).le

theorem addParts_mem (jobs : List Job) {done total : Rat} (h : done ≤ total) :
    done ≤ t.addParts w jobs done ∧ t.addParts w jobs done ≤ addWeights w jobs total := by
  induction jobs generalizing done total with
  | nil => exact ⟨le_rfl, h⟩
  | cons job jobs ih =>
      have hpart := clamp_mem (t.part job.id)
      have hweight := (weight_pos w job).le
      have hgain : 0 ≤ Control.weight w job * Fraction.clamp (t.part job.id) :=
        mul_nonneg hweight hpart.1
      obtain ⟨hlow, hhigh⟩ := ih (add_le_add h (mul_le_of_le_one_right hweight hpart.2))
      exact ⟨(le_add_of_nonneg_right hgain).trans hlow, hhigh⟩

theorem overall_mem (t : JobTable Rat) (w : Weighting) : 0 ≤ t.overall w ∧ t.overall w ≤ 1 := by
  by_cases hempty : t.graph.isEmpty = true
  · rw [overall, if_pos hempty]
    exact ⟨Nat.cast_nonneg 1, Nat.cast_one.le⟩
  · have hpos := weight_pos_of_jobs hempty w
    obtain ⟨hlow, hhigh⟩ := addParts_mem (t := t) (w := w) t.graph.jobs (le_refl 0)
    rw [addWeights_eq, zero_add] at hhigh
    rw [overall_eq_div hempty]
    exact ⟨div_nonneg hlow hpos.le, (div_le_one hpos).mpr hhigh⟩

theorem overall_mono (hgraph : t.graph = t'.graph) (h : t.part ≤ t'.part) (w : Weighting) :
    t.overall w ≤ t'.overall w := by
  by_cases hempty : t.graph.isEmpty = true
  · rw [overall, overall, ← hgraph, if_pos hempty, if_pos hempty]
  · rw [overall_eq_div hempty, overall_eq_div (hgraph ▸ hempty), ← hgraph]
    exact div_le_div_of_nonneg_right (addParts_mono h _ le_rfl) (weight_pos_of_jobs hempty w).le

end JobTable

namespace LocalRun
variable {g : JobGraph} {r r' : LocalRun Rat}

theorem Steps.overall_le (hr : Reachable g r) (h : Steps r r') (w : Weighting) :
    r.table.overall w ≤ r'.table.overall w :=
  JobTable.overall_mono (hr.graph.trans (Reachable.graph (hr.trans h)).symm) (h.part_le hr) w

end LocalRun

/-! ## Questions about the whole -/

section Questions
variable {S : Type} {view : S → LocalRun Rat} {stages : StageGraph} {g : JobGraph}
  {c : Control (StateM S) Rat} {r : LocalRun Rat}

theorem ensures_progress_between (hb : JobGraph.Bound stages g) (hc : c.Drives view) {job : Job}
    (hjob : job ∈ g.jobs) (hr : LocalRun.Reachable g r) :
    Ensures (fun s => LocalRun.Steps r (view s)) (c.progress job.id) fun a s =>
      ∃ r', LocalRun.Steps r r' ∧ LocalRun.Steps r' (view s) ∧ a = .ok (r'.table.part job.id) := by
  intro s hs
  obtain ⟨r', hr', ha, hs'⟩ := hc.progress job.id s
  have hreach : LocalRun.Reachable g r' := (hr.trans hs).trans hr'
  exact ⟨r', hs.trans hr', hs', ha.trans (hreach.progress_eq hb hjob)⟩

theorem ensures_addProgress_between (hb : JobGraph.Bound stages g) (hc : c.Drives view)
    (w : Weighting) {jobs : List Job} (hjobs : jobs ⊆ g.jobs) (hr : LocalRun.Reachable g r)
    (done total : Rat) :
    Ensures (fun s => LocalRun.Steps r (view s)) (c.addProgress w jobs done total) fun a s =>
      LocalRun.Steps r (view s) ∧ ∃ d, a = .ok (d, addWeights w jobs total) ∧
        r.table.addParts w jobs done ≤ d ∧ d ≤ (view s).table.addParts w jobs done := by
  induction jobs generalizing r done total with
  | nil => exact Ensures.pure fun s hs => ⟨hs, done, rfl, le_rfl, le_rfl⟩
  | cons job jobs ih =>
      simp only [Control.addProgress]
      refine (ensures_progress_between hb hc (hjobs List.mem_cons_self) hr).bind ?_
      rintro a s ⟨r', hbefore, hafter, rfl⟩
      -- the rest is asked from the moment on at which this job was
      have hr' := hr.trans hbefore
      obtain ⟨hrest, d, ha, hlow, hhigh⟩ :=
        ih (fun j hj => hjobs (List.mem_cons_of_mem _ hj)) hr' _ _ s hafter
      have hgain : ∀ {t t' : JobTable Rat}, t.part ≤ t'.part →
          done + Control.weight w job * Fraction.clamp (t.part job.id) ≤
            done + Control.weight w job * Fraction.clamp (t'.part job.id) := fun h =>
        add_le_add le_rfl
          (mul_le_mul_of_nonneg_left (clamp_mono (h job.id)) (JobTable.weight_pos w job).le)
      have hparts := hbefore.part_le hr
      refine ⟨hbefore.trans hrest, d, ha, ?_, ?_⟩
      · exact (JobTable.addParts_mono hparts jobs (hgain hparts)).trans hlow
      · exact hhigh.trans (JobTable.addParts_mono le_rfl jobs (hgain (hrest.part_le hr')))

theorem LocalRun.control_overallProgress (hb : JobGraph.Bound stages g)
    (hr : LocalRun.Reachable g r) (w : Weighting) :
    LocalRun.control.overallProgress w g r = (.ok (r.table.overall w), r) := by
  have hparts : ∀ job ∈ g.jobs, Ensures (fun r' => r' = r) (LocalRun.control.progress job.id)
      fun a r' => r' = r ∧ a = .ok (r.table.part job.id) := by
    rintro job hjob s rfl
    exact ⟨rfl, hr.progress_eq hb hjob⟩
  obtain ⟨hstate, hanswer⟩ := ensures_overallProgress_of hr.graph hparts w r rfl
  exact Prod.ext hanswer hstate

/-- The answer lies between the whole before the question and the whole after it. -/
theorem ensures_overallProgress_between (hb : JobGraph.Bound stages g) (hc : c.Drives view)
    (w : Weighting) (hr : LocalRun.Reachable g r) :
    Ensures (fun s => LocalRun.Steps r (view s)) (c.overallProgress w g) fun a s =>
      LocalRun.Steps r (view s) ∧ ∃ p, a = .ok p ∧
        r.table.overall w ≤ p ∧ p ≤ (view s).table.overall w := by
  have hgraph : r.table.graph = g := hr.graph
  have hgraph' : ∀ {s}, LocalRun.Steps r (view s) → (view s).table.graph = g := fun hs =>
    LocalRun.Reachable.graph (hr.trans hs)
  simp only [Control.overallProgress]
  split
  next hempty =>
    refine Ensures.pure fun s hs => ⟨hs, _, rfl, ?_⟩
    simp only [JobTable.overall, hgraph, hgraph' hs, if_pos hempty, le_refl, and_self]
  next hempty =>
    have hzero : (Fraction.zero : Rat) = 0 := Nat.cast_zero
    have hweights : addWeights w g.jobs (0 : Rat) = g.weight w := by
      rw [JobTable.addWeights_eq, zero_add]
      rfl
    have hnonneg : 0 ≤ g.weight w := (JobTable.weight_pos_of_jobs hempty w).le
    rw [hzero]
    refine (ensures_addProgress_between hb hc w (fun _ hj => hj) hr 0 0).bind ?_
    rintro a s ⟨hs, d, rfl, hlow, hhigh⟩
    have hbefore : r.table.overall w ≤ d / addWeights w g.jobs 0 := by
      rw [JobTable.overall_eq_div (hgraph ▸ hempty), hgraph, hweights]
      exact div_le_div_of_nonneg_right hlow hnonneg
    have hafter : d / addWeights w g.jobs 0 ≤ (view s).table.overall w := by
      rw [JobTable.overall_eq_div (hgraph' hs ▸ hempty), hgraph' hs, hweights]
      exact div_le_div_of_nonneg_right hhigh hnonneg
    exact ⟨hs, _, rfl, hbefore, hafter⟩

end Questions
end Dataflow
