import Dataflow.Proofs.Job.Indexed
import Dataflow.Proofs.Stage.Compilable
/-!
# Jobs mirror stages

The stages of a compiled plan are bound in topological order, so when it is a stage's turn
(`StageGraph.InTurn`), the jobs of all that it reads from are there, and binding goes on.  It never
fails, then, and in the end every stage has one job.  Since no stage has two, the job of a stage can
be looked up in both directions, and dependencies between jobs are the links between their stages.

**Proved here.**

    when it is a stage's turn, it is bound         (`Covers.exists_bindStage`)
    a stage has one job                            (`jobOfStage?_stage`)
    every compiled plan is bound, one to one       (`bind_mirrors`)
-/
namespace Dataflow

theorem StageGraph.compile_inTurn {c : CompilerConfig} {p : PhysicalPlan} {g : StageGraph}
    (hp : p.WellFormed) (h : compile c p = .ok g) : g.Wired ∧ g.isEmpty = false ∧
      ∃ order, g.topologicalOrder = .ok order ∧ order.Perm g.ids ∧ g.InTurn [] order := by
  obtain ⟨ops, harr, hpart, hl⟩ := compile_linked hp h
  have hwired := hl.wired hpart
  obtain ⟨order, horder⟩ :=
    exists_topologicalOrder hwired (not_transGen_self StageId.val hl.ascending)
  refine ⟨hwired, ?_, order, horder, topologicalOrder_eq_ok hwired horder⟩
  obtain ⟨op, hop⟩ := List.exists_mem_of_ne_nil _ (divisible_of_compile hp h).nonempty
  obtain ⟨st, hst, -, -⟩ := hpart.exists_stageOf? hp harr (List.mem_map_of_mem hop)
  exact List.isEmpty_eq_false_iff.mpr (List.ne_nil_of_mem hst)

namespace JobGraph

/-! ## Binding in turn -/

/-- The jobs of some stages, in order, named after a group. -/
structure Covers (group : String) (done : List StageId) (g : JobGraph) : Prop where
  group_eq : g.group = group
  stages : g.jobs.map Job.stage = done
  name : ∀ job ∈ g.jobs, job.name = group ++ "-" ++ job.stage.text

section Binding
variable {stages : StageGraph} {g : JobGraph} {group : String} {done rest : List StageId}
  {s : StageId} {job : Job}

theorem exists_jobOfStage? (hs : s ∈ g.jobs.map Job.stage) : ∃ j, g.jobOfStage? s = some j := by
  obtain ⟨job, hjob, hstage⟩ := List.mem_map.mp hs
  have hfound : ∃ found, g.jobs.find? (fun job => decide (job.stage = s)) = some found := by
    rw [← Option.isSome_iff_exists, List.find?_isSome]
    exact ⟨job, hjob, decide_eq_true hstage⟩
  obtain ⟨found, hfound⟩ := hfound
  exact ⟨found.id, congrArg (Option.map Job.id) hfound⟩

theorem exists_jobsOf {ss : List StageId} (h : ss ⊆ g.jobs.map Job.stage) :
    ∃ js, jobsOf g.jobOfStage? s ss = .ok js := by
  induction ss with
  | nil => exact ⟨[], rfl⟩
  | cons a ss ih =>
      obtain ⟨ha, hrest⟩ := List.cons_subset.mp h
      obtain ⟨j, hj⟩ := exists_jobOfStage? ha
      obtain ⟨js, hjs⟩ := ih hrest
      exact ⟨j :: js, by simp only [jobsOf, hj, hjs]⟩

/-- When it is a stage's turn, it is bound. -/
theorem Covers.exists_bindStage (hstages : stages.Numbered) (h : Covers group done g)
    (hs : s ∈ stages.ids) (hbefore : stages.predecessors s ⊆ done) :
    ∃ g', bindStage stages g s = .ok g' ∧ Covers group (done ++ [s]) g' := by
  obtain ⟨st, hst, rfl⟩ := List.mem_map.mp hs
  obtain ⟨deps, hdeps⟩ := exists_jobsOf (s := st.id) (h.stages ▸ hbefore)
  have hbind : bindStage stages g st.id = .ok { g with
      jobs := g.jobs ++ [⟨⟨g.size + 1⟩, g.group ++ "-" ++ st.id.text, st.id, st.kind,
        st.parallelism, st.operators, deps⟩] } := by
    simp only [bindStage, jobFor, hstages.get? hst, hdeps]
  refine ⟨_, hbind, h.group_eq, ?_, ?_⟩
  · rw [List.map_append, h.stages]
    rfl
  · intro job hjob
    rcases List.mem_append.mp hjob with hjob | hjob
    · exact h.name job hjob
    · obtain rfl := List.mem_singleton.mp hjob
      rw [h.group_eq]

theorem Covers.exists_bindAll (hstages : stages.Numbered) (h : Covers group done g)
    (hturn : stages.InTurn done rest) :
    ∃ g', bindAll stages rest g = .ok g' ∧ Covers group (done ++ rest) g' := by
  induction rest generalizing done g with
  | nil => exact ⟨g, rfl, (List.append_nil done).symm ▸ h⟩
  | cons s rest ih =>
      obtain ⟨hs, hbefore, hlater⟩ := hturn
      obtain ⟨g₁, hg₁, hcovers⟩ := h.exists_bindStage hstages hs hbefore
      obtain ⟨g', hg', hall⟩ := ih hcovers hlater
      refine ⟨g', by simp only [bindAll, hg₁, hg'], ?_⟩
      rwa [List.append_cons]

/-! ## One job for each stage -/

theorem jobOfStage?_stage (hnodup : (g.jobs.map Job.stage).Nodup) (hjob : job ∈ g.jobs) :
    g.jobOfStage? job.stage = some job.id := by
  rw [jobOfStage?, find?_eq_some_of_nodup_map hnodup hjob]
  rfl

theorem Bound.mem_dependencies (hb : Bound stages g) (hnodup : (g.jobs.map Job.stage).Nodup)
    {dep : Job} (hjob : job ∈ g.jobs) (hdep : dep ∈ g.jobs) :
    dep.id ∈ job.dependencies ↔ dep.stage ∈ stages.predecessors job.stage := by
  obtain ⟨hto, hfrom⟩ := mem_of_map_eq (hb.dependencies job hjob)
  constructor
  · intro hd
    obtain ⟨s, hs, hsd⟩ := hfrom _ hd
    obtain ⟨found, hfound, rfl, hid⟩ := jobOfStage?_eq_some hsd
    exact hb.numbered.eq_of_id hfound hdep hid ▸ hs
  · intro hs
    obtain ⟨d, hd, hsd⟩ := hto _ hs
    rw [jobOfStage?_stage hnodup hdep] at hsd
    exact Option.some.inj hsd ▸ hd

theorem Bound.nodup_dependencies (hb : Bound stages g) (hstages : stages.Wired)
    (hjob : job ∈ g.jobs) : job.dependencies.Nodup := by
  obtain ⟨hto, -⟩ := mem_of_map_eq (hb.dependencies job hjob)
  refine List.Nodup.of_map some ?_
  rw [← hb.dependencies job hjob]
  refine (hstages.mirrored.nodup_predecessors job.stage).map_on ?_
  intro a ha b hb' hab
  obtain ⟨d, -, had⟩ := hto a ha
  obtain ⟨ja, hja, rfl, hida⟩ := jobOfStage?_eq_some had
  obtain ⟨jb, hjb, rfl, hidb⟩ := jobOfStage?_eq_some (hab ▸ had)
  rw [hb.numbered.eq_of_id hja hjb (hida.trans hidb.symm)]

end Binding

/-- A graph of jobs that mirrors a graph of stages one to one. -/
structure Mirrors (stages : StageGraph) (group : String) (g : JobGraph) : Prop where
  size_eq : g.size = stages.size
  numbered : ∀ (i : Nat) (job : Job), g.jobs[i]? = some job →
    job.id = ⟨i + 1⟩ ∧ g.get? job.id = some job
  /-- Each stage has a job of its own, and each job has a stage. -/
  bijOn : Set.BijOn g.jobOfStage? {s | s ∈ stages.ids} {j | ∃ job ∈ g.jobs, some job.id = j}
  jobOfStage?_eq_none : ∀ s, s ∉ stages.ids → g.jobOfStage? s = none
  /-- A job carries the figures of the stage that it is the job of. -/
  copied : ∀ job ∈ g.jobs, g.jobOfStage? job.stage = some job.id ∧
    ∃ st, stages.get? job.stage = some st ∧ st.id = job.stage ∧ st.kind = job.kind ∧
      st.parallelism = job.parallelism ∧ st.operators = job.operators
  named : g.group = group ∧ ∀ job ∈ g.jobs, job.name = group ++ "-" ++ job.stage.text
  dependencies : ∀ job ∈ g.jobs, job.dependencies.Nodup ∧
    job.dependencies.map some = (stages.predecessors job.stage).map g.jobOfStage?
  earlier : ∀ job ∈ g.jobs, ∀ d ∈ job.dependencies, d.val < job.id.val
  /-- On a job depend, in order, the jobs of all stages that read from its stage. -/
  dependents : ∀ job ∈ g.jobs, g.dependents job.id =
    (g.jobs.filter fun later => decide (later.stage ∈ stages.successors job.stage)).map Job.id

theorem Bound.mirrors {stages : StageGraph} {g : JobGraph} {group : String} {order : List StageId}
    (hb : Bound stages g) (hstages : stages.Wired) (hcovers : Covers group order g)
    (horder : order.Perm stages.ids) : Mirrors stages group g := by
  have hnodup : (g.jobs.map Job.stage).Nodup := by
    rw [hcovers.stages]
    exact horder.nodup_iff.mpr hstages.numbered.nodup_ids
  have hmem : ∀ {s}, s ∈ g.jobs.map Job.stage ↔ s ∈ stages.ids := by
    intro s
    rw [hcovers.stages, horder.mem_iff]
  refine ⟨?_, ?_, ⟨?_, ?_, ?_⟩, ?_, ?_, ⟨hcovers.group_eq, hcovers.name⟩, ?_, hb.earlier, ?_⟩
  · have hlen := horder.length_eq
    rw [← hcovers.stages, List.length_map, StageGraph.ids, List.length_map] at hlen
    exact hlen
  · intro i job hi
    exact ⟨hb.numbered i job hi, hb.numbered.get? (List.mem_of_getElem? hi)⟩
  · intro s hs
    obtain ⟨job, hjob, rfl⟩ := List.mem_map.mp (hmem.mpr hs)
    exact ⟨job, hjob, (jobOfStage?_stage hnodup hjob).symm⟩
  · intro a ha b hb' hab
    obtain ⟨ja, hja, rfl⟩ := List.mem_map.mp (hmem.mpr ha)
    obtain ⟨jb, hjb, rfl⟩ := List.mem_map.mp (hmem.mpr hb')
    rw [jobOfStage?_stage hnodup hja, jobOfStage?_stage hnodup hjb] at hab
    rw [hb.numbered.eq_of_id hja hjb (Option.some.inj hab)]
  · rintro _ ⟨job, hjob, rfl⟩
    exact ⟨job.stage, hmem.mp (List.mem_map_of_mem hjob), jobOfStage?_stage hnodup hjob⟩
  · intro s hs
    rw [Option.eq_none_iff_forall_ne_some]
    intro j hj
    obtain ⟨job, hjob, rfl, -⟩ := jobOfStage?_eq_some hj
    exact hs (hmem.mp (List.mem_map_of_mem hjob))
  · intro job hjob
    obtain ⟨st, hst, hfigures⟩ := hb.stage job hjob
    exact ⟨jobOfStage?_stage hnodup hjob, st, hst, hstages.numbered _ st hst, hfigures⟩
  · intro job hjob
    exact ⟨hb.nodup_dependencies hstages hjob, (hb.dependencies job hjob).symm⟩
  · intro job hjob
    refine congrArg (List.map Job.id) (List.filter_congr ?_)
    intro later hlater
    refine decide_eq_decide.mpr ?_
    rw [hb.mem_dependencies hnodup hlater hjob, hstages.mirrored.mem_predecessors]
    rfl

/-- The stages of every compiled plan are bound, whatever the group is called, and their jobs mirror
them.  A table that the jobs are written into as they are bound finds the same jobs. -/
theorem bind_mirrors {c : CompilerConfig} {p : PhysicalPlan} {stages : StageGraph} {group : String}
    (hp : p.Built) (h : StageGraph.compile c p = .ok stages) (hgroup : Text.allBlank group = false) :
    ∃ g, bind stages group = .ok g ∧ Mirrors stages group g ∧
      Indexed.bind stages group = .ok g.indexed := by
  obtain ⟨hstages, hne, order, horder, hperm, hturn⟩ := StageGraph.compile_inTurn hp.wellFormed h
  have hnone : Covers group [] ⟨group, []⟩ :=
    ⟨rfl, rfl, fun _ hjob => absurd hjob List.not_mem_nil⟩
  obtain ⟨g, hg, hcovers⟩ := hnone.exists_bindAll hstages.numbered hturn
  have hbind : bind stages group = .ok g := by simp [bind, hgroup, hne, horder, hg]
  refine ⟨g, hbind, (bind_eq_ok hbind).mirrors hstages hcovers hperm, ?_⟩
  rw [bind_indexed hstages, hbind]
  rfl

/-- Two loads of which one is grouped first; the other one is bound before the group. -/
def overtaken : PhysicalPlan := .ofOperators
  [⟨⟨"p", 1⟩, .load "in", []⟩, ⟨⟨"p", 2⟩, .group [0] none, [⟨"p", 1⟩]⟩,
    ⟨⟨"p", 3⟩, .load "more", []⟩, ⟨⟨"p", 4⟩, .union, [⟨"p", 2⟩, ⟨"p", 3⟩]⟩]

def overtakenStages : StageGraph where
  plan := overtaken
  stages := [⟨⟨0⟩, .source, 1, none, [⟨"p", 1⟩]⟩, ⟨⟨1⟩, .shuffle, 1, some ⟨"p", 2⟩, [⟨"p", 2⟩]⟩,
    ⟨⟨2⟩, .source, 1, none, [⟨"p", 3⟩]⟩, ⟨⟨3⟩, .merge, 1, none, [⟨"p", 4⟩]⟩]
  readsFrom := [[], [⟨0⟩], [], [⟨1⟩, ⟨2⟩]]
  readBy := [[⟨1⟩], [⟨3⟩], [⟨3⟩], []]
  assignment := [(⟨"p", 4⟩, ⟨3⟩), (⟨"p", 3⟩, ⟨2⟩), (⟨"p", 2⟩, ⟨1⟩), (⟨"p", 1⟩, ⟨0⟩)]

theorem overtaken_mirrors : overtaken.Built ∧
    StageGraph.compile {} overtaken = .ok overtakenStages ∧
    (∃ g, bind overtakenStages "g" = .ok g ∧ Mirrors overtakenStages "g" g ∧
      Indexed.bind overtakenStages "g" = .ok g.indexed) ∧
    (bind overtakenStages "g").map (fun g => g.jobs.map Job.stage) = .ok [⟨0⟩, ⟨2⟩, ⟨1⟩, ⟨3⟩] := by
  have hcompile : StageGraph.compile {} overtaken = .ok overtakenStages := by cbv
  exact ⟨Plan.built_ofOperators _, hcompile,
    bind_mirrors (Plan.built_ofOperators _) hcompile (by decide), by cbv⟩

end JobGraph
end Dataflow
