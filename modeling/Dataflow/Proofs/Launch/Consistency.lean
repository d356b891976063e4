import Dataflow.Proofs.Launch.Completion
import Dataflow.Proofs.Launch.Preparing
/-!
# No contradictions

A watch calls it a contradiction when a run is finished, incomplete and without a failed job.  The
local engine never comes to that: in a finished run every job has succeeded or failed, success makes
the recorded part full whatever the job has reported, and parts that are all full make up the whole
in either weighting.  Counted in exact numbers, the whole is within every tolerance, be it 0.

**Proved here.**

    without failed jobs all have succeeded         (`Closed.succeeded_of_no_failed`)
    what has succeeded altogether is the whole     (`Closed.overall_of_succeeded`)
    no launch is answered with a contradiction     (`launch_consistent`)
-/
namespace Dataflow
namespace JobTable
variable {t : JobTable Rat} {w : Weighting}

theorem Closed.succeeded_of_no_failed (h : t.Closed) (hnone : t.withStatus .failed = []) :
    ∀ job ∈ t.graph.jobs, t.status? job.id = some .succeeded := by
  intro job hjob
  refine (h.closed job hjob).resolve_right ?_
  intro hfailed
  have hmem := mem_withStatus.mpr ⟨List.mem_map_of_mem hjob, hfailed⟩
  rw [hnone] at hmem
  exact List.not_mem_nil hmem

theorem Closed.overall_of_succeeded (h : t.Closed)
    (hall : ∀ job ∈ t.graph.jobs, t.status? job.id = some .succeeded) : t.overall w = 1 := by
  by_cases hempty : t.graph.isEmpty = true
  · rw [overall, if_pos hempty]
    exact Nat.cast_one
  · have hparts : t.graph.jobs.map (fun job => Control.weight w job * t.part job.id) =
        t.graph.jobs.map (Control.weight w) := by
      refine List.map_congr_left ?_
      intro job hjob
      rw [h.part_of_succeeded (hall job hjob), mul_one]
    rw [overall_eq_div hempty, h.addParts_eq, zero_add, hparts]
    exact div_self (weight_pos_of_jobs hempty w).ne'

end JobTable

theorem LauncherConfig.isComplete_one {config : LauncherConfig Rat}
    (htol : config.admitsTolerance = true) : config.isComplete 1 = true := by
  rw [JobTable.isComplete_iff le_rfl, sub_self]
  exact JobTable.tolerance_nonneg htol

theorem LocalRun.Ended.closed {stages : StageGraph} {g : JobGraph} {t : JobTable Rat}
    {r : LocalRun Rat} (hb : JobGraph.Bound stages g) (h : Ended g t r) : t.Closed := by
  obtain rfl := h.table
  refine ⟨fun j st hst => lasting_sound.reachable h.reachable j st hst, ?_⟩
  rw [h.reachable.graph]
  exact h.reachable.ended hb h.phase

theorem Concludes.consistent {stages : StageGraph} {g : JobGraph} {config : LauncherConfig Rat}
    {r : LocalRun Rat} {answer : Except Fault (Report Rat)} (hb : JobGraph.Bound stages g)
    (htol : config.admitsTolerance = true) (h : Concludes g config r answer) (reason : String) :
    answer ≠ .error (.driverInconsistency reason) := by
  rintro rfl
  cases h with
  | settled hend hsettles =>
      have hclosed := hend.closed hb
      cases hsettles with
      | contradiction hincomplete hnone =>
          rw [hclosed.overall_of_succeeded (hclosed.succeeded_of_no_failed hnone),
            LauncherConfig.isComplete_one htol] at hincomplete
          cases hincomplete

/-- No launch on a local engine is answered with a contradiction, nor is any request for a report, at
whatever moment it is made.  A finished run without failed jobs has nothing but success with full
parts; its progress is 1 in both weightings, which counts as complete under every tolerance. -/
theorem launch_consistent {S : Type} {view : S → LocalRun Rat} {e : Engine (StateM S) Rat}
    {env : Surroundings (StateM S) Rat} (he : e.IsLocal view) (henv : env.Lets view)
    (htol : e.launcher.admitsTolerance = true) (plan : PhysicalPlan) (group : String) :
    (∀ polls s reason, (e.launchWithReport env polls plan group s).1 ≠
      some (.error (.driverInconsistency reason))) ∧
    ∀ g, Engine.prepare e.compiler plan group = .ok g →
      (∀ (c : Control (StateM S) Rat) (w : Supervisor Rat) (s : S), c.Drives view → w.graph = g →
        w.config = e.launcher → LocalRun.Reachable g (view s) →
        ∀ reason, (w.finish c env s).1.1 ≠ .error (.driverInconsistency reason)) ∧
      ∀ r : LocalRun Rat, LocalRun.Reachable g r → r.isFinished = true →
        r.table.withStatus .failed = [] →
        (∀ job ∈ g.jobs, r.table.status? job.id = some .succeeded ∧
          r.table.progress job.id = .ok 1) ∧
        (∀ weighting, (LocalRun.control.overallProgress weighting g r).1 = .ok 1) ∧
        ∀ config : LauncherConfig Rat, config.admitsTolerance = true →
          config.isComplete 1 = true := by
  refine ⟨?_, ?_⟩
  · intro polls s reason hanswer
    rcases ensures_launch he henv polls plan group s trivial _ hanswer with
      ⟨fault, hprepare, hfault⟩ | hcancelled | ⟨g, hprepare, hconcludes⟩
    · -- what is wrong with a plan is never called a contradiction
      cases hfault
      have hcode := code_of_prepare_eq_error hprepare
      simp [ErrorCode.ofPlans, Fault.code] at hcode
    · cases hcancelled
    · obtain ⟨stages, -, hb⟩ := prepare_eq_ok hprepare
      exact hconcludes.consistent hb htol reason rfl
  · intro g hprepare
    obtain ⟨stages, -, hb⟩ := prepare_eq_ok hprepare
    refine ⟨?_, ?_⟩
    · intro c w s hc hw hconfig hs reason
      have hconcludes := ensures_finish hb hc henv hw s hs
      exact hconcludes.consistent hb (hconfig ▸ htol) reason
    · intro r hr hfin hnone
      have hend : LocalRun.Ended g r.table r := ⟨hr, of_decide_eq_true hfin, rfl⟩
      have hclosed := hend.closed hb
      have hall := hclosed.succeeded_of_no_failed hnone
      refine ⟨?_, ?_, fun config hconfig => LauncherConfig.isComplete_one hconfig⟩
      · intro job hjob
        have hsucceeded := hall job (hr.graph ▸ hjob)
        obtain ⟨st, hst, hs⟩ := JobTable.exists_state?_of_status? hsucceeded
        refine ⟨hsucceeded, ?_⟩
        rw [JobTable.progress, hst]
        exact congrArg Except.ok ((hclosed.sound _ _ hst).succeeded hs)
      · intro weighting
        have hoverall := ensures_overallProgress hb LocalRun.drives_control weighting r hend
        exact hoverall.2.trans (congrArg Except.ok (hclosed.overall_of_succeeded hall))

/-! A launch that tolerates nothing, whose only job reports nonsense and succeeds. -/

def strictEngine : Engine (StateM (LocalRun Rat)) Rat :=
  { bareEngine with launcher := { weighting := .parallelism, tolerance := 0 } }

def modest : Surroundings (StateM (LocalRun Rat)) Rat :=
  pausing fun r => (r.settle.report ⟨1⟩ (-3)).finishJob ⟨1⟩ (.ok {})

/-- The only job has reported less than nothing, and has succeeded. -/
def modestRun : LocalRun Rat :=
  ((LocalRun.ofGraph loneJobs).settle.report ⟨1⟩ (-3)).finishJob ⟨1⟩ (.ok {})

theorem strict_consistent :
    strictEngine.launcher.admitsTolerance = true ∧ Engine.prepare {} lone "g" = .ok loneJobs ∧
    LocalRun.Reachable loneJobs modestRun ∧ modestRun.isFinished = true ∧
    modestRun.table.withStatus .failed = [] ∧
    (∀ polls s reason, (strictEngine.launchWithReport modest polls lone "g" s).1 ≠
      some (.error (.driverInconsistency reason))) ∧
    (∀ reason, ((Supervisor.start loneJobs strictEngine.launcher).finish LocalRun.control modest
      modestRun).1.1 ≠ .error (.driverInconsistency reason)) ∧
    (∀ job ∈ loneJobs.jobs, modestRun.table.status? job.id = some .succeeded ∧
      modestRun.table.progress job.id = .ok 1) ∧
    ∀ weighting, (LocalRun.control.overallProgress weighting loneJobs modestRun).1 = .ok 1 := by
  have hlets : modest.Lets id := lets_pausing fun r =>
    ((LocalRun.steps_settle r).tail (.report _ _ _)).trans (LocalRun.steps_finishJob _ _ _)
  have htol : strictEngine.launcher.admitsTolerance = true := by cbv
  have hreach : LocalRun.Reachable loneJobs modestRun :=
    ((LocalRun.steps_settle _).tail (.report _ _ _)).trans (LocalRun.steps_finishJob _ _ _)
  have hfin : modestRun.isFinished = true := by cbv
  have hnone : modestRun.table.withStatus .failed = [] := by cbv
  obtain ⟨hlaunch, hrest⟩ :=
    launch_consistent (e := strictEngine) (isLocal_runEngine _) hlets htol lone "g"
  obtain ⟨hfinish, hfinal⟩ := hrest loneJobs prepare_lone
  obtain ⟨hjobs, hoverall, -⟩ := hfinal modestRun hreach hfin hnone
  exact ⟨htol, prepare_lone, hreach, hfin, hnone, hlaunch,
    hfinish _ _ modestRun LocalRun.drives_control rfl rfl hreach, hjobs, hoverall⟩

end Dataflow
