import Dataflow.Proofs.Engine.Dependencies
import Dataflow.Proofs.Engine.Settled
/-!
# What a run comes to

When each job has its result in advance, the order in which jobs end does not matter.  A job that
has succeeded was started, so everything that it depends on has succeeded too, and all their results
were good.  A job that has failed has a bad result, or was given up for a job that had failed before
it; going on from there one ends at a bad result, because dependencies have smaller numbers.  Thus
success can be read off the results and the graph, and a finished run has nothing but success and
failure.

**Proved here.**

    what a table shows is explained by the results        (`ReachableWith.explained`)
    success needs good results all the way down           (`ReachableWith.prospers_of_succeeded`)
    failure begins with a bad result                      (`ReachableWith.not_prospers_of_failed`)
    a finished run shows what the results decide          (`results_decide`)
-/
namespace Dataflow

/-- `d` is one of the jobs that `j` waits for. -/
def JobGraph.DependsOn (g : JobGraph) (j d : JobId) : Prop :=
  ∃ job ∈ g.jobs, job.id = j ∧ d ∈ job.dependencies

/-- The result of a job is good, and so are the results of all jobs that it depends on, directly or
through others. -/
def JobGraph.Prospers (g : JobGraph) (results : JobId → Except String JobCounters) (j : JobId) :
    Prop :=
  ∀ d, Relation.ReflTransGen g.DependsOn j d → ∃ counters, results d = .ok counters

namespace LocalRun
variable {F : Type} [Fraction F]

/-- What can happen to a run that nobody stops, when the result of each job is given. -/
inductive StepWith (results : JobId → Except String JobCounters) : LocalRun F → LocalRun F → Prop
  | scan (r) : StepWith results r r.scan
  | join (r j) : StepWith results r (r.join j (results j))
  | report (r j part) : StepWith results r (r.report j part)
  | tick (r now) : StepWith results r (r.tick now)

/-- The runs of a job graph that nobody stops, when the result of each job is given. -/
def ReachableWith (results : JobId → Except String JobCounters) (g : JobGraph) (r : LocalRun F) :
    Prop :=
  Relation.ReflTransGen (StepWith results) (ofGraph g) r

section Explanations
variable {results : JobId → Except String JobCounters} {stages : StageGraph} {g : JobGraph}
  {r r' : LocalRun F} {t : JobTable F}

theorem StepWith.step (h : StepWith results r r') : Step r r' := by
  cases h with
  | scan => exact .scan r
  | join j => exact .join r j (results j)
  | report j part => exact .report r j part
  | tick now => exact .tick r now

theorem ReachableWith.reachable (h : ReachableWith results g r) : Reachable g r :=
  Relation.ReflTransGen.mono (fun _ _ hstep => StepWith.step hstep) _ _ h

theorem ReachableWith.settle (h : ReachableWith results g r) : ReachableWith results g r.settle :=
  h.trans (settle_of StepWith.scan r)

theorem ReachableWith.finishJob (h : ReachableWith results g r) (j : JobId) :
    ReachableWith results g (r.finishJob j (results j)) :=
  ReachableWith.settle (h.tail (.join r j))

/-- Why a job has succeeded or failed. -/
structure Explained (results : JobId → Except String JobCounters) (g : JobGraph) (t : JobTable F) :
    Prop where
  succeeded : ∀ j, t.status? j = some .succeeded → ∃ counters, results j = .ok counters
  failed : ∀ job ∈ g.jobs, t.status? job.id = some .failed →
    (∃ reason, results job.id = .error reason) ∨
      ∃ d ∈ job.dependencies, t.status? d = some .failed

omit [Fraction F] in
/-- A change of a job that has not failed keeps the table explained, if what it makes of that job is
explained. -/
theorem Explained.modify (h : Explained results g t) {k : JobId} {s : JobStatus}
    {f : JobState F → JobState F} (hk : t.status? k = some s) (hs : s ≠ .failed)
    (hsucceeded : ∀ st, st.status = s → (f st).status = .succeeded →
      ∃ counters, results k = .ok counters)
    (hfailed : ∀ st, st.status = s → (f st).status = .failed → ∀ job ∈ g.jobs, job.id = k →
      (∃ reason, results k = .error reason) ∨ ∃ d ∈ job.dependencies, t.status? d = some .failed) :
    Explained results g (t.modify k f) := by
  obtain ⟨st, hst, rfl⟩ := JobTable.exists_state?_of_status? hk
  have hself : (t.modify k f).status? k = some (f st).status := by
    rw [JobTable.status?_modify_self, hst]
    rfl
  have hlasts : ∀ {d}, t.status? d = some .failed → (t.modify k f).status? d = some .failed := by
    intro d hd
    refine (JobTable.status?_modify f ?_).trans hd
    rintro rfl
    exact hs (Option.some.inj (hk.symm.trans hd))
  refine ⟨?_, ?_⟩
  · intro j hj
    by_cases hjk : j = k
    · subst hjk
      exact hsucceeded st rfl (Option.some.inj (hself.symm.trans hj))
    · rw [JobTable.status?_modify f hjk] at hj
      exact h.succeeded j hj
  · intro job hjob hj
    have hcause : (∃ reason, results job.id = .error reason) ∨
        ∃ d ∈ job.dependencies, t.status? d = some .failed := by
      by_cases hjk : job.id = k
      · subst hjk
        exact hfailed st rfl (Option.some.inj (hself.symm.trans hj)) job hjob rfl
      · rw [JobTable.status?_modify f hjk] at hj
        exact h.failed job hjob hj
    exact hcause.imp_right fun ⟨d, hd, hdf⟩ => ⟨d, hd, hlasts hdf⟩

theorem explained_ofGraph : Explained results g (ofGraph g : LocalRun F).table := by
  refine ⟨?_, ?_⟩
  · intro j hj
    cases status?_ofGraph hj
  · intro job _ hj
    cases status?_ofGraph hj

omit [Fraction F] in
theorem Explained.scan (hg : g.Numbered) (hserved : Served g r) (h : Explained results g r.table) :
    Explained results g r.scan.table := by
  simp only [LocalRun.scan]
  split
  · split
    · exact h
    · exact h
  next job rest hphase =>
    split
    next hpending =>
      split
      · exact h
      next d hready =>
        show Explained results g (r.table.abandon r.now job.id d)
        rw [JobTable.abandon_eq hpending]
        refine h.modify hpending JobStatus.noConfusion ?_ ?_
        · intro st _ hst
          cases hst
        · intro st _ _ job' hjob' hid
          obtain rfl := hg.eq_of_id hjob' (hserved.listed _ hphase job List.mem_cons_self) hid
          exact Or.inr ⟨d, JobTable.readinessOf_eq_abandoned hready⟩
      next =>
        split
        · exact h
        · show Explained results g (r.table.start r.now job.id)
          rw [JobTable.start_eq hpending]
          refine h.modify hpending JobStatus.noConfusion ?_ ?_
          · intro st _ hst
            cases hst
          · intro st _ hst
            cases hst
    · exact h
  · exact h

theorem Explained.join (h : Explained results g r.table) (j : JobId) :
    Explained results g (r.join j (results j)).table := by
  simp only [LocalRun.join]
  split
  next hrun =>
    have hrunning : r.table.status? j = some .running := of_decide_eq_true hrun.2
    show Explained results g (r.table.complete r.now j (results j))
    rw [JobTable.complete_eq hrunning]
    refine h.modify hrunning JobStatus.noConfusion ?_ ?_
    · intro st _ hst
      cases hresult : results j with
      | ok counters => exact ⟨counters, rfl⟩
      | error reason =>
          rw [hresult] at hst
          cases hst
    · intro st _ hst _ _ _
      cases hresult : results j with
      | ok counters =>
          rw [hresult] at hst
          cases hst
      | error reason => exact Or.inl ⟨reason, rfl⟩
  · exact h

theorem Explained.report (h : Explained results g r.table) (j : JobId) (part : F) :
    Explained results g (r.report j part).table := by
  show Explained results g (r.table.report j part)
  by_cases hrun : r.table.status? j = some .running
  · rw [JobTable.report_eq hrun]
    refine h.modify hrun JobStatus.noConfusion ?_ ?_
    · intro st hst hst'
      cases hst.symm.trans hst'
    · intro st hst hst'
      cases hst.symm.trans hst'
  · rw [JobTable.report_of_ne hrun]
    exact h

theorem ReachableWith.explained (hg : g.Numbered) (h : ReachableWith results g r) :
    Explained results g r.table := by
  induction h with
  | refl => exact explained_ofGraph
  | @tail r r' hr hstep ih =>
      cases hstep with
      | scan =>
          have hreach : ReachableWith results g r := hr
          exact ih.scan hg (hreach.reachable.served hg)
      | join j => exact ih.join j
      | report j part => exact ih.report j part
      | tick now => exact ih

end Explanations

/-! ## What the results decide -/

section Decision
variable {results : JobId → Except String JobCounters} {stages : StageGraph} {g : JobGraph}
  {r r' : LocalRun F} {job : Job}

theorem ReachableWith.prospers_of_succeeded (hg : g.Numbered) (h : ReachableWith results g r)
    {j : JobId} (hj : r.table.status? j = some .succeeded) : g.Prospers results j := by
  intro d hd
  have hserved := h.reachable.served hg
  have hdone : r.table.status? d = some .succeeded := by
    induction hd with
    | refl => exact hj
    | tail _ hstep ih =>
        obtain ⟨job, hjob, rfl, hdep⟩ := hstep
        exact hserved.served job hjob (Or.inr ih) _ hdep
  exact (h.explained hg).succeeded d hdone

theorem ReachableWith.not_prospers_of_failed (hb : JobGraph.Bound stages g)
    (h : ReachableWith results g r) (hjob : job ∈ g.jobs)
    (hj : r.table.status? job.id = some .failed) : ¬ g.Prospers results job.id := by
  have hbad : ∀ n : Nat, ∀ job ∈ g.jobs, job.id.val = n → r.table.status? job.id = some .failed →
      ∃ d reason, Relation.ReflTransGen g.DependsOn job.id d ∧ results d = .error reason := by
    intro n
    induction n using Nat.strongRecOn with
    | ind n ih =>
        intro job hjob hn hj
        rcases (h.explained hb.numbered).failed job hjob hj with ⟨reason, hreason⟩ | ⟨d, hd, hfailed⟩
        · exact ⟨job.id, reason, .refl, hreason⟩
        · -- the job was given up for one with a smaller number
          obtain ⟨dep, hdep, rfl⟩ := hb.mem_of_dependency hjob hd
          have hlt : dep.id.val < n := hn ▸ hb.earlier job hjob _ hd
          obtain ⟨e, reason, hpath, hreason⟩ := ih dep.id.val hlt dep hdep rfl hfailed
          exact ⟨e, reason, hpath.head ⟨job, hjob, rfl, hd⟩, hreason⟩
  obtain ⟨d, reason, hpath, hreason⟩ := hbad job.id.val job hjob rfl hj
  intro hprospers
  obtain ⟨counters, hok⟩ := hprospers d hpath
  cases hreason.symm.trans hok

/-- What a run shows that has come to its end with the given results. -/
structure Verdict (results : JobId → Except String JobCounters) (g : JobGraph) (r : LocalRun F) :
    Prop where
  succeeded : ∀ job ∈ g.jobs, g.Prospers results job.id →
    r.table.status? job.id = some .succeeded
  failed : ∀ job ∈ g.jobs, ¬ g.Prospers results job.id → r.table.status? job.id = some .failed
  /-- Both lists are in job order. -/
  succeeded_sublist : (r.table.withStatus .succeeded).Sublist g.ids
  failed_sublist : (r.table.withStatus .failed).Sublist g.ids
  /-- Together they hold each job once. -/
  perm : (r.table.withStatus .succeeded ++ r.table.withStatus .failed).Perm g.ids

theorem ReachableWith.verdict (hb : JobGraph.Bound stages g) (h : ReachableWith results g r)
    (hfin : r.phase = .finished) : Verdict results g r := by
  have hended := h.reachable.ended hb hfin
  have hgraph := h.reachable.graph
  have hids : ∀ s, r.table.withStatus s = g.ids.filter fun j => r.table.status? j = some s := by
    intro s
    rw [JobTable.withStatus, hgraph]
  refine ⟨?_, ?_, ?_, ?_, ?_⟩
  · intro job hjob hprospers
    refine (hended job hjob).resolve_right ?_
    intro hfailed
    exact h.not_prospers_of_failed hb hjob hfailed hprospers
  · intro job hjob hnot
    refine (hended job hjob).resolve_left ?_
    intro hsucceeded
    exact hnot (h.prospers_of_succeeded hb.numbered hsucceeded)
  · rw [hids]
    exact List.filter_sublist
  · rw [hids]
    exact List.filter_sublist
  · -- whatever has not succeeded has failed
    have hrest : r.table.withStatus .failed =
        g.ids.filter fun j => !decide (r.table.status? j = some .succeeded) := by
      rw [hids]
      refine List.filter_congr ?_
      intro j hj
      obtain ⟨job, hjob, rfl⟩ := List.mem_map.mp hj
      rcases hended job hjob with hdone | hdone
      · simp [hdone]
      · simp [hdone]
    rw [hrest, hids]
    exact List.filter_append_perm _ _

omit [Fraction F] in
theorem Verdict.withStatus_eq (hgraph : r.table.graph = g) (hgraph' : r'.table.graph = g)
    (h : Verdict results g r) (h' : Verdict results g r') (s : JobStatus) :
    r.table.withStatus s = r'.table.withStatus s := by
  rw [JobTable.withStatus, JobTable.withStatus, hgraph, hgraph']
  refine List.filter_congr ?_
  intro j hj
  obtain ⟨job, hjob, rfl⟩ := List.mem_map.mp hj
  by_cases hprospers : g.Prospers results job.id
  · rw [h.succeeded job hjob hprospers, h'.succeeded job hjob hprospers]
  · rw [h.failed job hjob hprospers, h'.failed job hjob hprospers]

end Decision

/-- A run that nobody stops and that is finished shows what the results and the graph decide, in
whatever order its jobs have ended. -/
theorem results_decide {stages : StageGraph} {group : String} {jobs : JobGraph}
    (hb : JobGraph.bind stages group = .ok jobs) (results : JobId → Except String JobCounters) :
    jobs.ids.Nodup ∧
    (∀ r : LocalRun F, ReachableWith results jobs r → r.isFinished = true →
      Verdict results jobs r) ∧
    ∀ r r' : LocalRun F, ReachableWith results jobs r → r.isFinished = true →
      ReachableWith results jobs r' → r'.isFinished = true →
      r.table.withStatus .succeeded = r'.table.withStatus .succeeded ∧
      r.table.withStatus .failed = r'.table.withStatus .failed := by
  have hbound := JobGraph.bind_eq_ok hb
  have hverdict : ∀ r : LocalRun F, ReachableWith results jobs r → r.isFinished = true →
      Verdict results jobs r :=
    fun r hr hfin => hr.verdict hbound (of_decide_eq_true hfin)
  refine ⟨hbound.numbered.nodup_ids, hverdict, ?_⟩
  intro r r' hr hfin hr' hfin'
  have hsame := Verdict.withStatus_eq hr.reachable.graph hr'.reachable.graph
    (hverdict r hr hfin) (hverdict r' hr' hfin')
  exact ⟨hsame .succeeded, hsame .failed⟩

/-- The sampling fails, all else would go well. -/
def unsampled : JobId → Except String JobCounters
  | ⟨2⟩ => .error "no space"
  | _ => .ok {}

def unsampledRun : LocalRun Rat :=
  ((ofGraph branchedJobs).settle.finishJob ⟨1⟩ (unsampled ⟨1⟩)).finishJob ⟨2⟩ (unsampled ⟨2⟩)

theorem unsampled_decides :
    JobGraph.bind StageGraph.branchedStages "g" = .ok branchedJobs ∧
    ReachableWith unsampled branchedJobs unsampledRun ∧ unsampledRun.isFinished = true ∧
    Verdict unsampled branchedJobs unsampledRun ∧
    unsampledRun.table.withStatus .failed = [⟨2⟩, ⟨3⟩, ⟨4⟩] := by
  have hbind : JobGraph.bind StageGraph.branchedStages "g" = .ok branchedJobs := by cbv
  have hbegin : ReachableWith unsampled branchedJobs (ofGraph branchedJobs : LocalRun Rat) := .refl
  have hreach : ReachableWith unsampled branchedJobs unsampledRun :=
    (hbegin.settle.finishJob ⟨1⟩).finishJob ⟨2⟩
  have hfin : unsampledRun.isFinished = true := by cbv
  exact ⟨hbind, hreach, hfin, (results_decide hbind unsampled).2.1 _ hreach hfin, by cbv⟩

end LocalRun
end Dataflow
