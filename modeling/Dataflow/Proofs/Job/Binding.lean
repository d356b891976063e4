import Mathlib.Data.List.Nodup
import Dataflow.Job.Graph
import Dataflow.Proofs.Stage.Building
/-!
# What binding makes of stages

A job graph takes over the stages one by one, in topological order.  A job is numbered by its place
and carries the figures of its stage; it depends on the jobs of the stages that its stage reads from,
all of which have a place before it.  A job that is bound later changes none of this, since the job
of a stage is the first one (`jobOfStage?_append`).

**Proved here.**

    one more stage bound    (`Bound.bindStage`)
    the jobs of a graph     (`bind_eq_ok`)
-/
namespace Dataflow.JobGraph

/-- Jobs are numbered by their place, from 1. -/
def Numbered (g : JobGraph) : Prop :=
  ∀ (i : Nat) (job : Job), g.jobs[i]? = some job → job.id = ⟨i + 1⟩

section Numbering
variable {g : JobGraph} {job job' : Job}

theorem Numbered.get? (hg : g.Numbered) (h : job ∈ g.jobs) : g.get? job.id = some job := by
  obtain ⟨i, hi⟩ := List.mem_iff_getElem?.mp h
  rw [hg i job hi]
  exact hi

theorem Numbered.eq_of_id (hg : g.Numbered) (h : job ∈ g.jobs) (h' : job' ∈ g.jobs)
    (hid : job.id = job'.id) : job = job' :=
  Option.some.inj ((hg.get? h).symm.trans (hid ▸ hg.get? h'))

theorem Numbered.le_size (hg : g.Numbered) (h : job ∈ g.jobs) : job.id.val ≤ g.size := by
  obtain ⟨i, hi⟩ := List.mem_iff_getElem?.mp h
  obtain ⟨hlt, -⟩ := List.getElem?_eq_some_iff.mp hi
  rw [hg i job hi]
  exact hlt

theorem Numbered.nodup_ids (hg : g.Numbered) : g.ids.Nodup := by
  have hids : g.ids = (List.range g.size).map fun i => ⟨i + 1⟩ := map_eq_of_position hg
  rw [hids]
  exact List.nodup_range.map fun i j hij => Nat.succ.inj (congrArg JobId.val hij)

theorem Numbered.append (hg : g.Numbered) (hjob : job.id = ⟨g.size + 1⟩) :
    Numbered { g with jobs := g.jobs ++ [job] } := by
  intro i j hi
  rcases getElem?_concat_cases hi with hi | ⟨rfl, rfl⟩
  · exact hg i j hi
  · exact hjob

end Numbering

/-! ## The job of a stage -/

section Stages
variable {g : JobGraph} {s : StageId} {j : JobId}

theorem jobOfStage?_eq_some (h : g.jobOfStage? s = some j) :
    ∃ job ∈ g.jobs, job.stage = s ∧ job.id = j := by
  obtain ⟨job, hjob, rfl⟩ := Option.map_eq_some_iff.mp h
  exact ⟨job, List.mem_of_find?_eq_some hjob, by simpa using List.find?_some hjob, rfl⟩

theorem jobOfStage?_append (job : Job) (h : g.jobOfStage? s = some j) :
    jobOfStage? { g with jobs := g.jobs ++ [job] } s = some j := by
  obtain ⟨found, hfound, rfl⟩ := Option.map_eq_some_iff.mp h
  show ((g.jobs ++ [job]).find? _).map Job.id = _
  rw [List.find?_append, hfound]
  rfl

theorem jobsOf_eq_ok {jobOf : StageId → Option JobId} {stage : StageId} {ss : List StageId}
    {js : List JobId} (h : jobsOf jobOf stage ss = .ok js) : ss.map jobOf = js.map some := by
  induction ss generalizing js with
  | nil =>
      cases h
      rfl
  | cons s ss ih =>
      simp only [jobsOf] at h
      split at h
      · cases h
      next j hj =>
        split at h
        next js' hjs =>
          cases h
          rw [List.map_cons, List.map_cons, hj, ih hjs]
        · cases h

end Stages

/-! ## Binding -/

/-- The jobs of some stages of a graph. -/
structure Bound (stages : StageGraph) (g : JobGraph) : Prop where
  numbered : g.Numbered
  stage : ∀ job ∈ g.jobs, ∃ st, stages.get? job.stage = some st ∧ st.kind = job.kind ∧
    st.parallelism = job.parallelism ∧ st.operators = job.operators
  dependencies : ∀ job ∈ g.jobs,
    (stages.predecessors job.stage).map g.jobOfStage? = job.dependencies.map some
  earlier : ∀ job ∈ g.jobs, ∀ d ∈ job.dependencies, d.val < job.id.val

section Binding
variable {stages : StageGraph} {g g' : JobGraph}

theorem jobFor_eq_ok {group : String} {id : JobId} {jobOf : StageId → Option JobId} {s : StageId}
    {job : Job} (h : jobFor stages group id jobOf s = .ok job) :
    job.id = id ∧ job.stage = s ∧
      (∃ st, stages.get? s = some st ∧ st.kind = job.kind ∧ st.parallelism = job.parallelism ∧
        st.operators = job.operators) ∧
      (stages.predecessors s).map jobOf = job.dependencies.map some := by
  simp only [jobFor] at h
  split at h
  · cases h
  next st hst =>
    split at h
    · cases h
    next deps hdeps =>
      cases h
      exact ⟨rfl, rfl, ⟨st, hst, rfl, rfl, rfl⟩, jobsOf_eq_ok hdeps⟩

theorem bindStage_eq_ok {s : StageId} (h : bindStage stages g s = .ok g') :
    ∃ job : Job, g' = { g with jobs := g.jobs ++ [job] } ∧ job.id = ⟨g.size + 1⟩ ∧ job.stage = s ∧
      (∃ st, stages.get? s = some st ∧ st.kind = job.kind ∧ st.parallelism = job.parallelism ∧
        st.operators = job.operators) ∧
      (stages.predecessors s).map g.jobOfStage? = job.dependencies.map some := by
  simp only [bindStage] at h
  split at h
  · cases h
  next job hjob =>
    cases h
    exact ⟨job, rfl, jobFor_eq_ok hjob⟩

theorem Bound.bindStage {s : StageId} (hb : Bound stages g) (h : bindStage stages g s = .ok g') :
    Bound stages g' := by
  obtain ⟨job, rfl, hid, hstage, hst, hdeps⟩ := bindStage_eq_ok h
  -- what the earlier jobs were found to be is still found
  have hkeep : ∀ {ss : List StageId} {js : List JobId}, ss.map g.jobOfStage? = js.map some →
      ss.map (jobOfStage? { g with jobs := g.jobs ++ [job] }) = js.map some := by
    intro ss js hss
    rw [← hss]
    refine List.map_congr_left ?_
    intro s hs
    obtain ⟨j, -, hj⟩ := (mem_of_map_eq hss).1 s hs
    rw [hj, jobOfStage?_append job hj]
  refine ⟨hb.numbered.append hid, ?_, ?_, ?_⟩
  · intro j hj
    rcases List.mem_append.mp hj with hj | hj
    · exact hb.stage j hj
    · obtain rfl := List.mem_singleton.mp hj
      rwa [hstage]
  · intro j hj
    rcases List.mem_append.mp hj with hj | hj
    · exact hkeep (hb.dependencies j hj)
    · obtain rfl := List.mem_singleton.mp hj
      rw [hstage]
      exact hkeep hdeps
  · intro j hj d hd
    rcases List.mem_append.mp hj with hj | hj
    · exact hb.earlier j hj d hd
    · obtain rfl := List.mem_singleton.mp hj
      obtain ⟨s', -, hs'⟩ := (mem_of_map_eq hdeps).2 d hd
      obtain ⟨dep, hdep, -, rfl⟩ := jobOfStage?_eq_some hs'
      rw [hid]
      exact Nat.lt_succ_of_le (hb.numbered.le_size hdep)

theorem Bound.bindAll {ss : List StageId} (hb : Bound stages g)
    (h : bindAll stages ss g = .ok g') : Bound stages g' := by
  induction ss generalizing g with
  | nil =>
      cases h
      exact hb
  | cons s ss ih =>
      simp only [JobGraph.bindAll] at h
      split at h
      next g₁ hg₁ => exact ih (hb.bindStage hg₁) h
      · cases h

theorem bind_eq_ok {group : String} (h : bind stages group = .ok g) : Bound stages g := by
  have hnone : Bound stages ⟨group, []⟩ := by
    refine ⟨?_, ?_, ?_, ?_⟩
    · intro i job hi
      cases hi
    · intro job hjob
      exact absurd hjob List.not_mem_nil
    · intro job hjob
      exact absurd hjob List.not_mem_nil
    · intro job hjob
      exact absurd hjob List.not_mem_nil
  simp only [bind] at h
  split at h
  · cases h
  split at h
  · cases h
  split at h
  · exact hnone.bindAll h
  · cases h

theorem Bound.mem_of_dependency (hb : Bound stages g) {job : Job} (hjob : job ∈ g.jobs) {d : JobId}
    (hd : d ∈ job.dependencies) : ∃ dep ∈ g.jobs, dep.id = d := by
  obtain ⟨s, -, hs⟩ := (mem_of_map_eq (hb.dependencies job hjob)).2 d hd
  obtain ⟨dep, hdep, -, hid⟩ := jobOfStage?_eq_some hs
  exact ⟨dep, hdep, hid⟩

end Binding
end Dataflow.JobGraph
