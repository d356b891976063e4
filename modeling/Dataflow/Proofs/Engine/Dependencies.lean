import Dataflow.Proofs.Engine.Steps
import Dataflow.Proofs.Job.Binding
import Dataflow.Proofs.Stage.Links
/-!
# Nothing runs before what it needs

A job is started when all its dependencies have succeeded, and what has succeeded stays so.  Since a
job depends on the jobs of all stages that its stage reads from, and a stage reads from every other
stage that feeds one of its operators, the operators on a path to a running one are either in the
same job or have been executed.

**Proved here.**

    success lasts                                            (`Moves.succeeded`)
    a job that runs has dependencies that have succeeded      (`Reachable.served`)
    an edge of the plan, seen from the jobs                   (`exists_producer`)
    all operators before a running one                        (`reachable_producers_succeeded`)
-/
namespace Dataflow.LocalRun
variable {F : Type} [Fraction F]

/-- A job that was started and has not failed. -/
def Underway (t : JobTable F) (j : JobId) : Prop :=
  t.status? j = some .running ∨ t.status? j = some .succeeded

section Service
variable {r r' : LocalRun F} {phase : Phase} {t : JobTable F} {j : JobId}

theorem Moves.succeeded (h : Moves r phase t) (hj : r.table.status? j = some .succeeded) :
    t.status? j = some .succeeded := by
  have hother : ∀ {k s} (f : JobState F → JobState F), r.table.status? k = some s →
      s ≠ .succeeded → (r.table.modify k f).status? j = some .succeeded := by
    intro k s f hk hs
    refine (JobTable.status?_modify f ?_).trans hj
    rintro rfl
    exact hs (Option.some.inj (hk.symm.trans hj))
  cases h with
  | stays => exact hj
  | reports hrun => exact hother _ hrun JobStatus.noConfusion
  | skips _ _ => exact hj
  | abandons _ hpending _ => exact hother _ hpending JobStatus.noConfusion
  | starts _ hpending _ => exact hother _ hpending JobStatus.noConfusion
  | waits _ => exact hj
  | joins _ hrun => exact hother _ hrun JobStatus.noConfusion
  | finishes _ _ => exact hj
  | aborts _ => exact hj

/-- A job that comes under way is one that the scheduler has found ready. -/
theorem Moves.underway (h : Moves r phase t) (hj : Underway t j) : Underway r.table j ∨
    ∃ job rest, r.phase = .scanning (job :: rest) ∧ job.id = j ∧ r.table.readiness job = .ready := by
  have hother : ∀ {k} (f : JobState F → JobState F), Underway (r.table.modify k f) j → j ≠ k →
      Underway r.table j := by
    intro k f hj hk
    simp only [Underway] at hj
    rwa [JobTable.status?_modify f hk] at hj
  cases h with
  | stays => exact Or.inl hj
  | @reports k _ hrun =>
      by_cases hk : j = k
      · exact Or.inl (Or.inl (hk ▸ hrun))
      · exact Or.inl (hother _ hj hk)
  | skips _ _ => exact Or.inl hj
  | @abandons job _ d _ hpending _ =>
      by_cases hk : j = job.id
      · subst hk
        obtain ⟨st, hst, -⟩ := JobTable.exists_state?_of_status? hpending
        rcases hj with hj | hj <;>
          simp [JobTable.status?_modify_self, hst, JobState.abandoned] at hj
      · exact Or.inl (hother _ hj hk)
  | @starts job rest hphase _ hready =>
      by_cases hk : j = job.id
      · exact Or.inr ⟨job, rest, hphase, hk.symm, hready⟩
      · exact Or.inl (hother _ hj hk)
  | waits _ => exact Or.inl hj
  | @joins k _ _ hrun =>
      by_cases hk : j = k
      · exact Or.inl (Or.inl (hk ▸ hrun))
      · exact Or.inl (hother _ hj hk)
  | finishes _ _ => exact Or.inl hj
  | aborts _ => exact Or.inl hj

theorem Moves.rest {rest : List Job} (h : Moves r phase t) (hrest : phase = .scanning rest) :
    r.phase = .scanning rest ∨ (∃ first, r.phase = .scanning (first :: rest)) ∨
      rest = r.table.graph.jobs := by
  cases h with
  | stays => exact Or.inl hrest
  | reports _ => exact Or.inl hrest
  | skips hphase _ => cases hrest; exact Or.inr (Or.inl ⟨_, hphase⟩)
  | abandons hphase _ _ => cases hrest; exact Or.inr (Or.inl ⟨_, hphase⟩)
  | starts hphase _ _ => cases hrest; exact Or.inr (Or.inl ⟨_, hphase⟩)
  | waits _ => cases hrest
  | joins _ _ => cases hrest; exact Or.inr (Or.inr rfl)
  | finishes _ _ => cases hrest
  | aborts _ => cases hrest

/-- The scheduler goes over jobs of the graph, and jobs under way have what they need. -/
structure Served (g : JobGraph) (r : LocalRun F) : Prop where
  graph : r.table.graph = g
  listed : ∀ rest, r.phase = .scanning rest → ∀ job ∈ rest, job ∈ g.jobs
  served : ∀ job ∈ g.jobs, Underway r.table job.id →
    ∀ d ∈ job.dependencies, r.table.status? d = some .succeeded

theorem served_ofGraph (g : JobGraph) : Served g (ofGraph g : LocalRun F) := by
  refine ⟨rfl, ?_, ?_⟩
  · intro rest hrest job hjob
    cases hrest
    exact hjob
  · intro job _ hrun
    rcases hrun with hrun | hrun
    · cases status?_ofGraph hrun
    · cases status?_ofGraph hrun

theorem Served.step {g : JobGraph} (hg : g.Numbered) (h : Served g r) (hstep : Step r r') :
    Served g r' := by
  have hmoves := hstep.moves
  have hsucceeded : ∀ {d}, r.table.status? d = some .succeeded → r'.table.status? d = some .succeeded :=
    fun hd => hmoves.succeeded hd
  refine ⟨hmoves.graph.trans h.graph, ?_, ?_⟩
  · intro rest hrest job hjob
    rcases hmoves.rest hrest with hsame | ⟨first, hfirst⟩ | rfl
    · exact h.listed rest hsame job hjob
    · exact h.listed _ hfirst job (List.mem_cons_of_mem _ hjob)
    · exact h.graph ▸ hjob
  · intro job hjob hrun d hd
    rcases hmoves.underway hrun with hrun | ⟨first, rest, hphase, hid, hready⟩
    · exact hsucceeded (h.served job hjob hrun d hd)
    · have hfirst := h.listed _ hphase first List.mem_cons_self
      obtain rfl := hg.eq_of_id hfirst hjob hid
      exact hsucceeded (JobTable.readinessOf_eq_ready.mp hready d hd)

theorem Reachable.served {g : JobGraph} (hg : g.Numbered) (hr : Reachable g r) : Served g r := by
  induction hr with
  | refl => exact served_ofGraph g
  | tail _ hstep ih => exact ih.step hg hstep

end Service

/-! ## The operators before a running one -/

section Producers
variable {c : CompilerConfig} {p : PhysicalPlan} {ops : List PhysicalOperator} {g : StageGraph}
  {jobs : JobGraph} {job : Job} {u v : Key}

theorem stageOf?_of_mem (hpart : StageGraph.Partition c p ops g)
    (hb : JobGraph.Bound g jobs) (hjob : job ∈ jobs.jobs) (hv : v ∈ job.operators) :
    g.stageOf? v = some job.stage := by
  obtain ⟨st, hst, -, -, hops⟩ := hb.stage job hjob
  rw [hpart.assigned]
  exact ⟨st, List.mem_of_getElem? hst, hops ▸ hv, hpart.numbered _ st hst⟩

theorem exists_dependency (hg : g.Mirrored) (hb : JobGraph.Bound g jobs) (hjob : job ∈ jobs.jobs)
    {s : StageId} (hs : g.Links s job.stage) :
    ∃ dep ∈ jobs.jobs, dep.stage = s ∧ dep.id ∈ job.dependencies := by
  have hmem : s ∈ g.predecessors job.stage := hg.mem_predecessors.mpr hs
  obtain ⟨d, hd, hsd⟩ := (mem_of_map_eq (hb.dependencies job hjob)).1 s hmem
  obtain ⟨dep, hdep, hstage, rfl⟩ := JobGraph.jobOfStage?_eq_some hsd
  exact ⟨dep, hdep, hstage, hd⟩

/-- A producer is in the job of its consumer or in one that this job depends on. -/
theorem exists_producer (hp : p.WellFormed) (harr : StageGraph.Arranged p ops)
    (hpart : StageGraph.Partition c p ops g) (hl : StageGraph.Linked ops g)
    (hb : JobGraph.Bound g jobs) (hjob : job ∈ jobs.jobs) (hv : v ∈ job.operators)
    (huv : p.Feeds u v) : u ∈ job.operators ∨
      ∃ dep ∈ jobs.jobs, dep.id ∈ job.dependencies ∧ u ∈ dep.operators := by
  obtain ⟨hu, hv'⟩ := hp.mem_keys huv
  obtain ⟨st, hst, hust, hstage⟩ := hpart.exists_stageOf? hp harr hu
  have hmem : ∀ j ∈ jobs.jobs, j.stage = st.id → u ∈ j.operators := by
    intro j hj hid
    obtain ⟨st', hst', -, -, hops⟩ := hb.stage j hj
    rw [hid, hpart.numbered.get? hst] at hst'
    obtain rfl := Option.some.inj hst'
    exact hops ▸ hust
  by_cases hsame : job.stage = st.id
  · exact Or.inl (hmem job hjob hsame)
  · obtain ⟨op, hop, rfl⟩ := List.mem_map.mp (harr.mem_keys.mp hv')
    have hin : u ∈ op.inputs := ((harr.wired op hop).inputs_iff u).mpr huv
    have hlink : g.Links st.id job.stage := (hl.links_iff _ _).mpr
      ⟨Ne.symm hsame, op, hop, Or.inl ⟨⟨u, hin, hstage⟩,
        Or.inl (stageOf?_of_mem hpart hb hjob hv)⟩⟩
    obtain ⟨dep, hdep, hid, hd⟩ := exists_dependency hl.mirrored hb hjob hlink
    exact Or.inr ⟨dep, hdep, hd, hmem dep hdep hid⟩

/-- A total order whose input is sampled is in a job that depends on that of the sampling stage. -/
theorem exists_sampling (harr : StageGraph.Arranged p ops)
    (hpart : StageGraph.Partition c p ops g) (hl : StageGraph.Linked ops g)
    (hb : JobGraph.Bound g jobs) (hjob : job ∈ jobs.jobs) {op : PhysicalOperator} (hop : op ∈ ops)
    (hs : StageGraph.Sampled c op) (hv : op.key ∈ job.operators) :
    ∃ dep ∈ jobs.jobs, dep.id ∈ job.dependencies ∧ dep.kind = .sample ∧
      g.Samples op.key dep.stage := by
  obtain ⟨st, ⟨hst, hfor⟩, -⟩ := hpart.sampled_once harr.nodup hop hs
  obtain ⟨hkind, hempty, -, o, ho, -, hbound⟩ := hfor
  obtain rfl := List.mem_singleton.mp ho
  have hsample : g.Samples o.key st.id :=
    ⟨st, hst, by rw [Stage.sampledFor?, if_pos hkind, hbound], rfl⟩
  have hstage := stageOf?_of_mem hpart hb hjob hv
  have hne : st.id ≠ job.stage := by
    intro hid
    obtain ⟨st', hst', hmem, hid'⟩ := (hpart.assigned _ _).mp hstage
    obtain rfl := hpart.numbered.eq_of_id hst hst' (hid.trans hid'.symm)
    rw [hempty] at hmem
    exact List.not_mem_nil hmem
  have hlink : g.Links st.id job.stage :=
    (hl.links_iff _ _).mpr ⟨hne, o, hop, Or.inr ⟨hsample, hstage⟩⟩
  obtain ⟨dep, hdep, hid, hd⟩ := exists_dependency hl.mirrored hb hjob hlink
  obtain ⟨st', hst', hkind', -, -⟩ := hb.stage dep hdep
  rw [hid, hpart.numbered.get? hst] at hst'
  obtain rfl := Option.some.inj hst'
  exact ⟨dep, hdep, hd, hkind'.symm.trans hkind, hid ▸ hsample⟩

end Producers

/-- When a job runs or has succeeded, all operators on paths to its own are in it or were executed,
and the inputs of its total orders were sampled. -/
theorem reachable_producers_succeeded {c : CompilerConfig} {p : PhysicalPlan} {g : StageGraph}
    {group : String} {jobs : JobGraph} {r : LocalRun F} (hp : p.Built)
    (hc : StageGraph.compile c p = .ok g) (hb : JobGraph.bind g group = .ok jobs)
    (hr : Reachable jobs r) {job : Job} (hjob : job ∈ jobs.jobs)
    (hrun : r.table.status? job.id = some .running ∨ r.table.status? job.id = some .succeeded)
    {v : Key} (hv : v ∈ job.operators) :
    (∀ u, Relation.ReflTransGen p.Feeds u v → u ∈ job.operators ∨ ∃ job' ∈ jobs.jobs,
      u ∈ job'.operators ∧ r.table.status? job'.id = some .succeeded) ∧
    ∀ op ∈ p.operators, op.key = v → StageGraph.Sampled c op → ∃ job' ∈ jobs.jobs,
      job'.kind = .sample ∧ g.Samples v job'.stage ∧ r.table.status? job'.id = some .succeeded := by
  obtain ⟨ops, harr, hpart, hl⟩ := StageGraph.compile_linked hp.wellFormed hc
  have hbound := JobGraph.bind_eq_ok hb
  have hserved := hr.served hbound.numbered
  refine ⟨?_, ?_⟩
  · intro u huv
    induction huv using Relation.ReflTransGen.head_induction_on with
    | refl => exact Or.inl hv
    | head hstep _ ih =>
        -- the producer of an operator that was executed was executed itself, or is in the same job
        rcases ih with hmem | ⟨job', hjob', hmem, hdone⟩
        · rcases exists_producer hp.wellFormed harr hpart hl hbound hjob hmem hstep with
            hmem | ⟨dep, hdep, hd, hmem⟩
          · exact Or.inl hmem
          · exact Or.inr ⟨dep, hdep, hmem, hserved.served job hjob hrun _ hd⟩
        · rcases exists_producer hp.wellFormed harr hpart hl hbound hjob' hmem hstep with
            hmem | ⟨dep, hdep, hd, hmem⟩
          · exact Or.inr ⟨job', hjob', hmem, hdone⟩
          · exact Or.inr ⟨dep, hdep, hmem, hserved.served job' hjob' (Or.inr hdone) _ hd⟩
  · rintro op hop rfl hs
    obtain ⟨dep, hdep, hd, hkind, hsample⟩ := exists_sampling harr hpart hl hbound hjob
      ((harr.mem_iff op).mpr hop) hs hv
    exact ⟨dep, hdep, hkind, hsample, hserved.served job hjob hrun _ hd⟩

def branchedJobs : JobGraph where
  group := "g"
  jobs := [⟨⟨1⟩, "g-stage-0", ⟨0⟩, .source, 1, [⟨"p", 1⟩, ⟨"p", 2⟩], []⟩,
    ⟨⟨2⟩, "g-stage-1", ⟨1⟩, .sample, 1, [], [⟨1⟩]⟩,
    ⟨⟨3⟩, "g-stage-2", ⟨2⟩, .shuffle, 1, [⟨"p", 3⟩], [⟨2⟩, ⟨1⟩]⟩,
    ⟨⟨4⟩, "g-stage-3", ⟨3⟩, .merge, 1, [⟨"p", 4⟩], [⟨1⟩, ⟨3⟩]⟩]

/-- The sampling has ended and the sorting goes on. -/
def branchedRun : LocalRun Rat :=
  ((ofGraph branchedJobs).settle.finishJob ⟨1⟩ (.ok {})).finishJob ⟨2⟩ (.ok {})

theorem branched_producers_succeeded :
    JobGraph.bind StageGraph.branchedStages "g" = .ok branchedJobs ∧
    Reachable branchedJobs branchedRun ∧ branchedRun.table.status? ⟨3⟩ = some .running ∧
    (∀ u, Relation.ReflTransGen StageGraph.branched.Feeds u ⟨"p", 3⟩ → u ∈ [⟨"p", 3⟩] ∨
      ∃ job ∈ branchedJobs.jobs, u ∈ job.operators ∧
        branchedRun.table.status? job.id = some .succeeded) ∧
    ∀ op ∈ StageGraph.branched.operators, op.key = ⟨"p", 3⟩ → StageGraph.Sampled {} op →
      ∃ job ∈ branchedJobs.jobs, job.kind = .sample ∧
        StageGraph.branchedStages.Samples ⟨"p", 3⟩ job.stage ∧
        branchedRun.table.status? job.id = some .succeeded := by
  have hbind : JobGraph.bind StageGraph.branchedStages "g" = .ok branchedJobs := by cbv
  have hreach : Reachable branchedJobs branchedRun :=
    ((steps_settle _).trans (steps_finishJob _ _ _)).trans (steps_finishJob _ _ _)
  have hrun : branchedRun.table.status? ⟨3⟩ = some .running := by cbv
  exact ⟨hbind, hreach, hrun, reachable_producers_succeeded (Plan.built_ofOperators _)
    (c := {}) (g := StageGraph.branchedStages) (by cbv) hbind hreach
    (List.getElem_mem (show 2 < branchedJobs.jobs.length by decide)) (Or.inl hrun)
    (List.mem_singleton_self _)⟩

end Dataflow.LocalRun
