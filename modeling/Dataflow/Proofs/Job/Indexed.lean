import Mathlib.Logic.Function.Basic
import Dataflow.Proofs.Job.Binding
import Dataflow.Proofs.Stage.Sorting
/-!
# Jobs with an index

A job graph finds the job of a stage by a search among its jobs.  Where look-ups have to be quick, the
jobs are bound together with a table: every job is written under its stage as it is bound, and what the
next jobs depend on is read from there.  A table keeps the latest job of a stage and a search finds the
first one, so the two agree only as long as no stage is bound twice.  In a topological order none is.

**Proved here.**

    a new job is found where the table has it     (`jobOfStage?_concat`)
    binding with a table is binding               (`bind_indexed`)
-/
namespace Dataflow.JobGraph

/-- Jobs with a table of the job of each stage. -/
structure Indexed where
  group : String
  jobs : List Job
  byStage : StageId → Option JobId

def indexed (g : JobGraph) : Indexed := ⟨g.group, g.jobs, g.jobOfStage?⟩

namespace Indexed

def bindStage (stages : StageGraph) (t : Indexed) (s : StageId) : Except Fault Indexed :=
  match jobFor stages t.group ⟨t.jobs.length + 1⟩ t.byStage s with
  | .error e => .error e
  | .ok job =>
    .ok { t with
      jobs := t.jobs ++ [job]
      byStage := Function.update t.byStage s (some job.id) }

def bindAll (stages : StageGraph) : List StageId → Indexed → Except Fault Indexed
  | [], t => .ok t
  | s :: rest, t =>
    match bindStage stages t s with
    | .ok t => bindAll stages rest t
    | .error e => .error e

/-- The jobs of a stage graph, bound with a table. -/
def bind (stages : StageGraph) (group : String) : Except Fault Indexed :=
  if Text.allBlank group then .error (.jobCreation "group name is empty")
  else if stages.isEmpty then .error (.jobCreation "stage plan has no stages")
  else
    match stages.topologicalOrder with
    | .ok order => bindAll stages order ⟨group, [], fun _ => none⟩
    | .error e => .error e.fault

end Indexed

section Binding
variable {stages : StageGraph} {g : JobGraph} {ss : List StageId} {s : StageId}

theorem jobOfStage?_eq_none (hs : s ∉ g.jobs.map Job.stage) : g.jobOfStage? s = none := by
  rw [jobOfStage?, Option.map_eq_none_iff, List.find?_eq_none]
  intro job hjob hstage
  exact hs (of_decide_eq_true hstage ▸ List.mem_map_of_mem hjob)

/-- The job of a stage that has none yet is found, and no other is found in its place. -/
theorem jobOfStage?_concat {job : Job} (hnew : job.stage ∉ g.jobs.map Job.stage) :
    jobOfStage? { g with jobs := g.jobs ++ [job] } =
      Function.update g.jobOfStage? job.stage (some job.id) := by
  funext s
  by_cases hs : s = job.stage
  · subst hs
    have hnone : g.jobs.find? (fun other => decide (other.stage = job.stage)) = none :=
      Option.map_eq_none_iff.mp (jobOfStage?_eq_none hnew)
    rw [Function.update_self, jobOfStage?, List.find?_append, hnone]
    simp
  · have hne : job.stage ≠ s := fun h => hs h.symm
    rw [Function.update_of_ne hs, jobOfStage?, jobOfStage?, List.find?_append]
    simp [hne]

theorem bindStage_indexed (hnew : s ∉ g.jobs.map Job.stage) :
    Indexed.bindStage stages g.indexed s = (bindStage stages g s).map indexed := by
  have hjob : ∀ job, jobFor stages g.group ⟨g.size + 1⟩ g.jobOfStage? s = .ok job → job.stage = s :=
    fun job h => (jobFor_eq_ok h).2.1
  rw [Indexed.bindStage, bindStage]
  show (match jobFor stages g.group ⟨g.size + 1⟩ g.jobOfStage? s with
    | .error e => _
    | .ok job => _) = _
  cases h : jobFor stages g.group ⟨g.size + 1⟩ g.jobOfStage? s with
  | error e => rfl
  | ok job =>
      obtain rfl := hjob job h
      have hindexed : indexed { g with jobs := g.jobs ++ [job] } = { g.indexed with
          jobs := g.jobs ++ [job]
          byStage := Function.update g.jobOfStage? job.stage (some job.id) } := by
        rw [indexed, jobOfStage?_concat hnew]
        rfl
      exact congrArg Except.ok hindexed.symm

/-- Stages of which none is bound twice have the same jobs with a table and without. -/
theorem bindAll_indexed (hnodup : (g.jobs.map Job.stage ++ ss).Nodup) :
    Indexed.bindAll stages ss g.indexed = (bindAll stages ss g).map indexed := by
  induction ss generalizing g with
  | nil => rfl
  | cons s rest ih =>
      have hnew : s ∉ g.jobs.map Job.stage := by
        intro hs
        exact (List.nodup_append.mp hnodup).2.2 s hs s List.mem_cons_self rfl
      rw [Indexed.bindAll, bindStage_indexed hnew, bindAll]
      cases h : bindStage stages g s with
      | error e => rfl
      | ok g' =>
          obtain ⟨job, rfl, -, rfl, -⟩ := bindStage_eq_ok h
          refine ih ?_
          rw [List.map_append, List.append_assoc]
          exact hnodup

/-- Binding with a table makes the same jobs, their table, and the same errors. -/
theorem bind_indexed (hstages : stages.Wired) (group : String) :
    Indexed.bind stages group = (bind stages group).map indexed := by
  simp only [Indexed.bind, bind]
  split
  · rfl
  split
  · rfl
  cases horder : stages.topologicalOrder with
  | error e => rfl
  | ok order =>
      have hperm := (StageGraph.topologicalOrder_eq_ok hstages horder).1
      exact bindAll_indexed (g := ⟨group, []⟩) (hperm.nodup_iff.mpr hstages.numbered.nodup_ids)

end Binding
end Dataflow.JobGraph
