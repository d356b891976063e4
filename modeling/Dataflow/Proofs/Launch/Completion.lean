import Mathlib
import Dataflow.Proofs.Launch.Faithful
/-!
# What counts as complete

Counted in exact numbers, the progress of a whole is what its jobs have done, and what is missing in
it is what the failed jobs have left undone.  So it can be said without any computation when a failed
job goes unnoticed: when that, weighted, is within the tolerance.

**Proved here.**

    parts lie between nothing and all, and success is all      (`lasting_sound`)
    complete  ⟺  what was lost is within the tolerance          (`isComplete_overall`)
    a report is faithful  ⟺  all jobs have succeeded,
                             or more was lost than that          (`launch_faithful_iff_lost`)
-/
namespace Dataflow

/-! ## Parts -/

/-- A state whose part lies between nothing and all, and is all when the job has succeeded. -/
structure JobState.Sound (st : JobState Rat) : Prop where
  nonneg : 0 ≤ st.progress
  le_one : st.progress ≤ 1
  succeeded : st.status = .succeeded → st.progress = 1

section Parts

theorem clamp_of_mem {x : Rat} (h₀ : 0 ≤ x) (h₁ : x ≤ 1) : Fraction.clamp x = x := by
  show (if x < ((0 : Nat) : Rat) then _ else if ((1 : Nat) : Rat) < x then _ else x) = x
  rw [if_neg (by simpa using h₀), if_neg (by simpa using h₁)]

theorem clamp_mem (x : Rat) : 0 ≤ Fraction.clamp x ∧ Fraction.clamp x ≤ 1 := by
  have hzero : (Fraction.zero : Rat) = 0 := Nat.cast_zero
  have hone : (Fraction.one : Rat) = 1 := Nat.cast_one
  simp only [Fraction.clamp]
  rw [hzero, hone]
  split
  · exact ⟨le_rfl, zero_le_one⟩
  next h₀ =>
    split
    · exact ⟨zero_le_one, le_rfl⟩
    next h₁ => exact ⟨not_lt.mp h₀, not_lt.mp h₁⟩

theorem larger_cases (a b : Rat) : Fraction.larger a b = a ∨ Fraction.larger a b = b := by
  simp only [Fraction.larger]
  split
  · exact Or.inr rfl
  · exact Or.inl rfl

theorem lasting_sound : LocalRun.Lasting JobState.Sound := by
  refine ⟨⟨le_rfl, zero_le_one, JobStatus.noConfusion⟩, ?_, ?_, ?_, ?_⟩
  · intro now st h
    exact ⟨h.nonneg, h.le_one, JobStatus.noConfusion⟩
  · intro now d st h
    exact ⟨h.nonneg, h.le_one, JobStatus.noConfusion⟩
  · intro now result st h
    cases result with
    | ok counters => exact ⟨zero_le_one, le_rfl, fun _ => Nat.cast_one⟩
    | error reason => exact ⟨h.nonneg, h.le_one, JobStatus.noConfusion⟩
  · intro part st hrun h
    have hnot : (st.reported part).status ≠ .succeeded := by
      show st.status ≠ _
      rw [hrun]
      exact JobStatus.noConfusion
    have hprogress : (st.reported part).progress = st.progress ∨
        (st.reported part).progress = Fraction.clamp part := larger_cases _ _
    rcases hprogress with hold | hnew
    · exact ⟨hold ▸ h.nonneg, hold ▸ h.le_one, fun hs => absurd hs hnot⟩
    · exact ⟨hnew ▸ (clamp_mem part).1, hnew ▸ (clamp_mem part).2, fun hs => absurd hs hnot⟩

end Parts

/-! ## The whole -/

def JobGraph.weight (g : JobGraph) (w : Weighting) : Rat := (g.jobs.map (Control.weight w)).sum

/-- The weight of what the failed jobs have left undone. -/
def JobTable.lost (t : JobTable Rat) (w : Weighting) : Rat :=
  ((t.graph.jobs.filter fun job => t.status? job.id = some .failed).map fun job =>
    Control.weight w job * (1 - t.part job.id)).sum

/-- The jobs have succeeded or failed, with sound states. -/
structure JobTable.Closed (t : JobTable Rat) : Prop where
  sound : ∀ j st, t.state? j = some st → st.Sound
  closed : ∀ job ∈ t.graph.jobs, t.status? job.id = some .succeeded ∨ t.status? job.id = some .failed

namespace JobTable
variable {t : JobTable Rat} {w : Weighting}

theorem part_mem (h : ∀ j st, t.state? j = some st → st.Sound) (j : JobId) :
    0 ≤ t.part j ∧ t.part j ≤ 1 := by
  simp only [part]
  split
  next st hst => exact ⟨(h j st hst).nonneg, (h j st hst).le_one⟩
  next => exact ⟨le_rfl, zero_le_one⟩

theorem Closed.part_of_succeeded (h : t.Closed) {j : JobId} (hj : t.status? j = some .succeeded) :
    t.part j = 1 := by
  obtain ⟨st, hst, hs⟩ := exists_state?_of_status? hj
  rw [part, hst]
  exact (h.sound j st hst).succeeded hs

theorem weight_pos (w : Weighting) (job : Job) : (0 : Rat) < Control.weight w job := by
  cases w with
  | equal => exact zero_lt_one
  | parallelism =>
      show (0 : Rat) < ((max job.parallelism 1 : Nat) : Rat)
      exact Nat.cast_pos.mpr (Nat.lt_of_lt_of_le Nat.zero_lt_one (Nat.le_max_right _ _))

theorem addWeights_eq (jobs : List Job) (total : Rat) :
    addWeights w jobs total = total + (jobs.map (Control.weight w)).sum := by
  induction jobs generalizing total with
  | nil => exact (add_zero total).symm
  | cons job jobs ih =>
      show addWeights w jobs (total + Control.weight w job) = _
      rw [ih, List.map_cons, List.sum_cons, add_assoc]

theorem weight_pos_of_jobs {g : JobGraph} (hempty : ¬ g.isEmpty = true) (w : Weighting) :
    0 < g.weight w := by
  refine List.sum_pos _ ?_ fun hnil => hempty ?_
  · intro x hx
    obtain ⟨job, -, rfl⟩ := List.mem_map.mp hx
    exact weight_pos w job
  · exact List.isEmpty_iff.mpr (List.map_eq_nil_iff.mp hnil)

theorem overall_eq_div (hempty : ¬ t.graph.isEmpty = true) (w : Weighting) :
    t.overall w = t.addParts w t.graph.jobs 0 / t.graph.weight w := by
  have hzero : (Fraction.zero : Rat) = 0 := Nat.cast_zero
  rw [overall, if_neg hempty, hzero, addWeights_eq, zero_add]
  rfl

theorem Closed.addParts_eq (h : t.Closed) (jobs : List Job) (done : Rat) :
    t.addParts w jobs done =
      done + (jobs.map fun job => Control.weight w job * t.part job.id).sum := by
  induction jobs generalizing done with
  | nil => exact (add_zero done).symm
  | cons job jobs ih =>
      show t.addParts w jobs (done + Control.weight w job * Fraction.clamp (t.part job.id)) = _
      rw [ih, clamp_of_mem (part_mem h.sound _).1 (part_mem h.sound _).2, List.map_cons,
        List.sum_cons, add_assoc]

/-- What is done and what was lost make up the whole. -/
theorem Closed.done_add_lost (h : t.Closed) {jobs : List Job} (hjobs : jobs ⊆ t.graph.jobs) :
    (jobs.map fun job => Control.weight w job * t.part job.id).sum +
      ((jobs.filter fun job => t.status? job.id = some .failed).map fun job =>
        Control.weight w job * (1 - t.part job.id)).sum =
      (jobs.map (Control.weight w)).sum := by
  induction jobs with
  | nil => exact add_zero 0
  | cons job jobs ih =>
      have hrest := ih fun j hj => hjobs (List.mem_cons_of_mem _ hj)
      rcases h.closed job (hjobs List.mem_cons_self) with hs | hf
      · have hnot : ¬ t.status? job.id = some .failed := by
          rw [hs]
          exact fun heq => JobStatus.noConfusion (Option.some.inj heq)
        rw [List.filter_cons_of_neg (by simpa using hnot), List.map_cons, List.sum_cons,
          List.map_cons, List.sum_cons, ← hrest, h.part_of_succeeded hs]
        ring
      · rw [List.filter_cons_of_pos (by simpa using hf), List.map_cons, List.sum_cons,
          List.map_cons, List.sum_cons, List.map_cons, List.sum_cons, ← hrest]
        ring

theorem Closed.lost_nonneg (h : t.Closed) : 0 ≤ t.lost w := by
  refine List.sum_nonneg ?_
  intro x hx
  obtain ⟨job, -, rfl⟩ := List.mem_map.mp hx
  exact mul_nonneg (weight_pos w job).le (sub_nonneg.mpr (part_mem h.sound job.id).2)

theorem isComplete_iff {config : LauncherConfig Rat} {q : Rat} (hq : q ≤ 1) :
    config.isComplete q = true ↔ 1 - q ≤ config.tolerance := by
  have hone : (Fraction.one : Rat) = 1 := Nat.cast_one
  have hdistance : Fraction.distance Fraction.one q = 1 - q := by
    simp only [Fraction.distance]
    rw [hone, if_neg (not_lt.mpr hq)]
  simp only [LauncherConfig.isComplete]
  rw [hdistance, decide_eq_true_iff]

theorem tolerance_nonneg {config : LauncherConfig Rat} (h : config.admitsTolerance = true) :
    0 ≤ config.tolerance := by
  simp only [LauncherConfig.admitsTolerance, Bool.and_eq_true, decide_eq_true_eq] at h
  have hzero : (Fraction.zero : Rat) = 0 := Nat.cast_zero
  exact hzero ▸ h.1

/-- A launch counts as complete just when what was lost is within the tolerance. -/
theorem Closed.isComplete_overall (h : t.Closed) {config : LauncherConfig Rat}
    (htol : 0 ≤ config.tolerance) : config.isComplete (t.overall config.weighting) = true ↔
      t.lost config.weighting ≤ config.tolerance * t.graph.weight config.weighting := by
  have hone : (Fraction.one : Rat) = 1 := Nat.cast_one
  by_cases hempty : t.graph.isEmpty = true
  · have hjobs : t.graph.jobs = [] := List.isEmpty_iff.mp hempty
    have hlost : t.lost config.weighting = 0 := by rw [lost, hjobs]; rfl
    have hweight : t.graph.weight config.weighting = 0 := by rw [JobGraph.weight, hjobs]; rfl
    rw [overall, if_pos hempty, hone, isComplete_iff le_rfl, hlost, hweight, sub_self, mul_zero]
    exact iff_of_true htol le_rfl
  · have hpos := weight_pos_of_jobs hempty config.weighting
    have hwhole := h.done_add_lost (w := config.weighting) (List.Subset.refl t.graph.jobs)
    have hoverall : t.overall config.weighting =
        (t.graph.weight config.weighting - t.lost config.weighting) /
          t.graph.weight config.weighting := by
      rw [overall_eq_div hempty, h.addParts_eq, zero_add, eq_sub_of_add_eq hwhole]
      rfl
    have hle : t.overall config.weighting ≤ 1 := by
      rw [hoverall, div_le_one hpos]
      linarith [h.lost_nonneg (w := config.weighting)]
    rw [isComplete_iff hle, hoverall, sub_le_comm, le_div_iff₀ hpos]
    constructor
    · intro hcomplete
      linarith
    · intro hlost
      linarith

end JobTable

/-- Of a launch that counts in exact numbers, the report is faithful just when all jobs have succeeded
or the failed ones have lost more than is tolerated. -/
theorem launch_faithful_iff_lost {S : Type} {view : S → LocalRun Rat} {e : Engine (StateM S) Rat}
    {env : Surroundings (StateM S) Rat} (he : e.IsLocal view) (henv : env.Lets view)
    (htol : e.launcher.admitsTolerance = true) {polls : Nat} {plan : PhysicalPlan} {group : String}
    {s : S} {report : Report Rat}
    (h : (e.launchWithReport env polls plan group s).1 = some (.ok report)) :
    ∃ g t, Engine.prepare e.compiler plan group = .ok g ∧
      LocalRun.Ended g t (view (e.launchWithReport env polls plan group s).2) ∧
      (report.Faithful t ↔ (∀ job ∈ g.jobs, t.status? job.id = some .succeeded) ∨
        e.launcher.tolerance * g.weight e.launcher.weighting < t.lost e.launcher.weighting) := by
  obtain ⟨g, t, hg, hend, ⟨hgraph, hnumbered⟩, hended, houtcome⟩ := exists_outcome he henv h
  subst hgraph
  have hclosed : t.Closed :=
    ⟨fun j st hst => lasting_sound.reachable hend.reachable j st (hend.table ▸ hst), hended⟩
  have hlost : e.launcher.isComplete (t.overall e.launcher.weighting) = false ↔
      e.launcher.tolerance * t.graph.weight e.launcher.weighting < t.lost e.launcher.weighting := by
    rw [← Bool.not_eq_true, hclosed.isComplete_overall (JobTable.tolerance_nonneg htol), not_le]
  exact ⟨t.graph, t, hg, hend, (houtcome.faithful_iff hnumbered hended).trans (or_congr_right hlost)⟩

/-! The engine that counts in exact numbers, and a job that reports all of its work and fails then. -/

def bareEngine : Engine (StateM (LocalRun Rat)) Rat := runEngine { tolerance := 1 / 1000000 }

def boasting : Surroundings (StateM (LocalRun Rat)) Rat := pausing (failAt ⟨1⟩ 1)

def boast : Option (Except Fault (Report Rat)) × LocalRun Rat :=
  bareEngine.launchWithReport boasting 1 lone "g" (.ofGraph ⟨"g", []⟩)

end Dataflow
