import Mathlib
import Dataflow.Proofs.Launch.Watching
import Dataflow.Proofs.Plan.Building
/-!
# Faithful reports

A launch counts as complete when its progress is near enough to 1, and only an incomplete launch is
asked for its failed jobs.  So a failed job goes unnoticed when the progress that is computed is
near enough all the same: the job may have reported all of its work before it failed, what it has
left undone may be within the tolerance, and with doubles it may be lost in rounding.  Whatever
numbers progress is counted in, this is the only way in which a report goes wrong, since an
incomplete run without failed jobs is not reported at all.

**Proved here.**

    failed and succeeded jobs are all jobs, each once      (`JobTable.count_eq_one`)
    a report is faithful  ⟺  all jobs have succeeded,
                             or the progress is incomplete  (`Outcome.faithful_iff`,
                                                             `launch_faithful_iff`)
-/
namespace Dataflow
variable {F : Type}

/-- A report that says what it is meant to: whether every job has succeeded, and one entry for every
job, the failed ones first. -/
structure Report.Faithful (t : JobTable F) (report : Report F) : Prop where
  completed : report.completed = true ↔
    ∀ job ∈ t.graph.jobs, t.status? job.id = some .succeeded
  stats : report.stats.map (fun e => (e.id, e.status)) =
    ((t.withStatus .failed).map fun j => (j, .failed)) ++
      (t.withStatus .succeeded).map fun j => (j, .succeeded)
  once : ∀ job ∈ t.graph.jobs, (report.stats.map JobStats.id).count job.id = 1

namespace JobTable
variable {t : JobTable F}

theorem withStatus_failed_eq_nil_of_succeeded
    (hall : ∀ job ∈ t.graph.jobs, t.status? job.id = some .succeeded) :
    t.withStatus .failed = [] := by
  refine List.filter_eq_nil_iff.mpr ?_
  intro j hj
  obtain ⟨job, hjob, rfl⟩ := List.mem_map.mp hj
  simp [hall job hjob]

theorem count_eq_one (hg : t.graph.Numbered) {job : Job} (hjob : job ∈ t.graph.jobs)
    (hended : t.status? job.id = some .succeeded ∨ t.status? job.id = some .failed) :
    (t.withStatus .failed ++ t.withStatus .succeeded).count job.id = 1 := by
  have hmem : job.id ∈ t.graph.ids := List.mem_map_of_mem hjob
  have hcount : ∀ s, t.status? job.id = some s → (t.withStatus s).count job.id = 1 := fun s hs =>
    List.count_eq_one_of_mem (hg.nodup_ids.filter _) (mem_withStatus.mpr ⟨hmem, hs⟩)
  have hnone : ∀ s s', t.status? job.id = some s → s ≠ s' → (t.withStatus s').count job.id = 0 := by
    intro s s' hs hne
    refine List.count_eq_zero.mpr fun hin => hne ?_
    exact Option.some.inj (hs.symm.trans (mem_withStatus.mp hin).2)
  rw [List.count_append]
  rcases hended with hs | hf
  · rw [hcount _ hs, hnone _ _ hs JobStatus.noConfusion]
  · rw [hcount _ hf, hnone _ _ hf JobStatus.noConfusion]

end JobTable

section Faith
variable [Fraction F] {config : LauncherConfig F} {t : JobTable F} {report : Report F}

theorem Outcome.completed_of_succeeded (ho : Outcome config t report)
    (hall : ∀ job ∈ t.graph.jobs, t.status? job.id = some .succeeded) :
    report.completed = true := by
  refine eq_true_of_ne_false ?_
  intro hincomplete
  exact ho.failed hincomplete (JobTable.withStatus_failed_eq_nil_of_succeeded hall)

/-- The statistics leave out nothing unless there are failed jobs and the run counts as complete. -/
theorem Outcome.stats_eq (ho : Outcome config t report)
    (h : (∀ job ∈ t.graph.jobs, t.status? job.id = some .succeeded) ∨ report.completed = false) :
    report.stats.map (fun e => (e.id, e.status)) =
      ((t.withStatus .failed).map fun j => (j, .failed)) ++
        (t.withStatus .succeeded).map fun j => (j, .succeeded) := by
  rw [ho.stats]
  rcases h with hall | hincomplete
  · rw [JobTable.withStatus_failed_eq_nil_of_succeeded hall, List.map_nil, ite_self]
  · rw [hincomplete, if_neg Bool.false_ne_true]

/-- A report is faithful when all jobs have succeeded, or when the progress is incomplete. -/
theorem Outcome.faithful_iff (ho : Outcome config t report) (hg : t.graph.Numbered)
    (hended : ∀ job ∈ t.graph.jobs,
      t.status? job.id = some .succeeded ∨ t.status? job.id = some .failed) :
    report.Faithful t ↔ (∀ job ∈ t.graph.jobs, t.status? job.id = some .succeeded) ∨
      config.isComplete (t.overall config.weighting) = false := by
  rw [← ho.progress, ← ho.completed]
  constructor
  · intro hfaith
    cases hcompleted : report.completed with
    | true => exact Or.inl (hfaith.completed.mp hcompleted)
    | false => exact Or.inr rfl
  · intro h
    have hstats := ho.stats_eq h
    refine ⟨⟨?_, ho.completed_of_succeeded⟩, hstats, ?_⟩
    · intro hcompleted
      exact h.resolve_right fun hincomplete => Bool.noConfusion (hcompleted.symm.trans hincomplete)
    · intro job hjob
      have hids : report.stats.map JobStats.id =
          t.withStatus .failed ++ t.withStatus .succeeded := by
        have hfst := congrArg (List.map Prod.fst) hstats
        simpa [List.map_map, Function.comp_def] using hfst
      rw [hids]
      exact JobTable.count_eq_one hg hjob (hended job hjob)

end Faith

section Launch
variable [Fraction F] {S : Type} {view : S → LocalRun F} {e : Engine (StateM S) F}
  {env : Surroundings (StateM S) F} {polls : Nat} {plan : PhysicalPlan} {group : String} {s : S}
  {report : Report F}

/-- A report is made of a run in which every job has succeeded or failed. -/
theorem exists_outcome (he : e.IsLocal view) (henv : env.Lets view)
    (h : (e.launchWithReport env polls plan group s).1 = some (.ok report)) :
    ∃ g t, Engine.prepare e.compiler plan group = .ok g ∧
      LocalRun.Ended g t (view (e.launchWithReport env polls plan group s).2) ∧
      (t.graph = g ∧ g.Numbered) ∧
      (∀ job ∈ g.jobs, t.status? job.id = some .succeeded ∨ t.status? job.id = some .failed) ∧
      Outcome e.launcher t report := by
  obtain ⟨g, t, hg, hend, houtcome⟩ :=
    ensures_launchWithReport he henv polls plan group s trivial report h
  obtain ⟨stages, -, hb⟩ := prepare_eq_ok hg
  have hgraph : t.graph = g := hend.table ▸ hend.reachable.graph
  have hended : ∀ job ∈ g.jobs, t.status? job.id = some .succeeded ∨
      t.status? job.id = some .failed := hend.table ▸ hend.reachable.ended hb hend.phase
  exact ⟨g, t, hg, hend, ⟨hgraph, hb.numbered⟩, hended, houtcome⟩

/-- Of a launch that was answered with a report, every job has succeeded or failed, and the report is
faithful just when all have succeeded or the progress of the whole, as it is computed from theirs,
does not count as complete. -/
theorem launch_faithful_iff (he : e.IsLocal view) (henv : env.Lets view)
    (h : (e.launchWithReport env polls plan group s).1 = some (.ok report)) :
    ∃ g t, Engine.prepare e.compiler plan group = .ok g ∧
      LocalRun.Ended g t (view (e.launchWithReport env polls plan group s).2) ∧
      (∀ job ∈ g.jobs, t.status? job.id = some .succeeded ∨ t.status? job.id = some .failed) ∧
      Outcome e.launcher t report ∧
      (report.Faithful t ↔ (∀ job ∈ g.jobs, t.status? job.id = some .succeeded) ∨
        e.launcher.isComplete (t.overall e.launcher.weighting) = false) := by
  obtain ⟨g, t, hg, hend, ⟨hgraph, hnumbered⟩, hended, houtcome⟩ := exists_outcome he henv h
  subst hgraph
  exact ⟨t.graph, t, hg, hend, hended, houtcome, houtcome.faithful_iff hnumbered hended⟩

end Launch

/-! ## Launches whose state is the run itself -/

/-- The engine whose state is the run itself. -/
def runEngine [Fraction F] (launcher : LauncherConfig F) : Engine (StateM (LocalRun F)) F where
  compiler := {}
  launcher
  submit g := fun _ => (.ok LocalRun.control, .ofGraph g)

/-- Surroundings in which the run goes on by `f` in every pause. -/
def pausing (f : LocalRun F → LocalRun F) : Surroundings (StateM (LocalRun F)) F where
  notify _ := pure ()
  pause _ := fun r => (true, f r)
  cancelled := pure false

/-- The jobs are started; one of them reports a part of its work and fails then. -/
def failAt [Fraction F] (j : JobId) (part : F) (r : LocalRun F) : LocalRun F :=
  (r.settle.report j part).finishJob j (.error "out of space")

section Runs
variable [Fraction F]

theorem isLocal_runEngine (launcher : LauncherConfig F) : (runEngine launcher).IsLocal id :=
  fun _ _ _ => ⟨_, rfl, LocalRun.drives_control, .refl⟩

theorem lets_pausing {f : LocalRun F → LocalRun F} (hf : ∀ r, LocalRun.Steps r (f r)) :
    (pausing f).Lets id :=
  ⟨fun _ _ => .refl, fun _ => hf, fun _ => .refl⟩

theorem steps_failAt (j : JobId) (part : F) (r : LocalRun F) : LocalRun.Steps r (failAt j part r) :=
  ((LocalRun.steps_settle r).tail (.report _ _ _)).trans (LocalRun.steps_finishJob _ _ _)

theorem launch_runEngine {launcher : LauncherConfig F} {f : LocalRun F → LocalRun F} {polls : Nat}
    {plan : PhysicalPlan} {group : String} {r : LocalRun F} {g : JobGraph}
    (h : Engine.prepare {} plan group = .ok g) :
    (runEngine launcher).launchWithReport (pausing f) polls plan group r =
      let ended := (Supervisor.start g launcher).wait LocalRun.control (pausing f) polls (.ofGraph g)
      (ended.1.1, ended.2.stop) := by
  have hcompiler : (runEngine launcher).compiler = {} := rfl
  simp only [Engine.launchWithReport, Engine.submitPlan, hcompiler, h]
  rfl

end Runs

/-! With the usual settings, the only job reports all of its work and fails then. -/

def lone : PhysicalPlan := .ofOperators [⟨⟨"p", 1⟩, .load "in", []⟩]

def loneJobs : JobGraph :=
  ⟨"g", [⟨⟨1⟩, "g-stage-0", ⟨0⟩, .source, 1, [⟨"p", 1⟩], []⟩]⟩

theorem prepare_lone : Engine.prepare {} lone "g" = .ok loneJobs := by
  cbv

def hushed : Option (Except Fault (Report Float)) × LocalRun Float :=
  (runEngine (default : Config).launcher).launchWithReport (pausing (failAt ⟨1⟩ 1)) 1 lone "g"
    (.ofGraph ⟨"g", []⟩)

set_option maxRecDepth 10000 in
theorem hushed_not_faithful : hushed.1 = some (.ok ⟨true, 1, []⟩) ∧
    hushed.2.table.status? ⟨1⟩ = some .failed ∧
    ¬ Report.Faithful hushed.2.table (⟨true, 1, []⟩ : Report Float) := by
  rw [hushed, launch_runEngine prepare_lone]
  refine ⟨rfl, rfl, ?_⟩
  intro hfaith
  exact absurd (hfaith.completed.mp rfl _ List.mem_cons_self) (by decide +kernel)

/-! With no tolerance at all, the second of two jobs fails so near to its end that the sum of both
parts is rounded to 2. -/

def pair : PhysicalPlan :=
  .ofOperators [⟨⟨"p", 1⟩, .load "in", []⟩, ⟨⟨"p", 2⟩, .load "in", []⟩]

def pairJobs : JobGraph :=
  ⟨"g", [⟨⟨1⟩, "g-stage-0", ⟨0⟩, .source, 1, [⟨"p", 1⟩], []⟩,
    ⟨⟨2⟩, "g-stage-1", ⟨1⟩, .source, 1, [⟨"p", 2⟩], []⟩]⟩

theorem prepare_pair : Engine.prepare {} pair "g" = .ok pairJobs := by
  cbv

def nearlyEnded (r : LocalRun Float) : LocalRun Float :=
  failAt ⟨2⟩ (Float.ofBits 0x3FEFFFFFFFFFFFFF) (r.settle.finishJob ⟨1⟩ (.ok {}))

theorem steps_nearlyEnded (r : LocalRun Float) : LocalRun.Steps r (nearlyEnded r) :=
  ((LocalRun.steps_settle r).trans (LocalRun.steps_finishJob _ _ _)).trans (steps_failAt _ _ _)

def intolerant : LauncherConfig Float := { tolerance := 0 }

def rounded : Option (Except Fault (Report Float)) × LocalRun Float :=
  (runEngine intolerant).launchWithReport (pausing nearlyEnded) 1 pair "g" (.ofGraph ⟨"g", []⟩)

theorem rounded_eq_wait : rounded =
    let ended := (Supervisor.start pairJobs intolerant).wait LocalRun.control (pausing nearlyEnded) 1
      (.ofGraph pairJobs)
    (ended.1.1, ended.2.stop) :=
  launch_runEngine prepare_pair

set_option maxRecDepth 10000 in
theorem rounded_faithful_iff : ∃ report, rounded.1 = some (.ok report) ∧ report.completed = true ∧
    rounded.2.table.status? ⟨2⟩ = some .failed ∧ rounded.2.table.part ⟨2⟩ < 1 ∧
    rounded.2.table.overall .equal = 1 ∧
    ∃ g t, Engine.prepare {} pair "g" = .ok g ∧ LocalRun.Ended g t rounded.2 ∧
      (∀ job ∈ g.jobs, t.status? job.id = some .succeeded ∨ t.status? job.id = some .failed) ∧
      Outcome intolerant t report ∧
      (report.Faithful t ↔ (∀ job ∈ g.jobs, t.status? job.id = some .succeeded) ∨
        intolerant.isComplete (t.overall .equal) = false) := by
  have hreport : rounded.1 = some (.ok ⟨true, 1, [⟨⟨1⟩, "g-stage-0", ⟨0⟩, .succeeded,
      some ⟨0⟩, {}, none⟩]⟩) := by
    rw [rounded_eq_wait]
    rfl
  have hfailed : rounded.2.table.status? ⟨2⟩ = some .failed := by
    rw [rounded_eq_wait]
    rfl
  have hpart : rounded.2.table.part ⟨2⟩ < 1 := by
    rw [rounded_eq_wait]
    decide +kernel
  have hoverall : rounded.2.table.overall .equal = 1 := by
    rw [rounded_eq_wait]
    rfl
  exact ⟨_, hreport, rfl, hfailed, hpart, hoverall,
    launch_faithful_iff (isLocal_runEngine _) (lets_pausing steps_nearlyEnded) hreport⟩

end Dataflow
