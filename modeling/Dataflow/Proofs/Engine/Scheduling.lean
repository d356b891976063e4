import Dataflow.Proofs.Engine.Lifecycle
import Dataflow.Proofs.Engine.Results
/-!
# One pass settles everything

A job is given up as soon as the scheduler looks at it after a dependency has failed.  Since jobs
stand behind what they depend on, a single pass gives up whole chains of them, however long they are,
and what it leaves pending waits for a job that has not ended.  So when nothing is running after a
pass, the first pending job would have nothing to wait for, and there is none.

The scheduler therefore never waits in vain: it only waits while a job is running, and each result
that it takes in leaves fewer jobs that have not ended.

**Proved here.**

    what a pass leaves behind                             (`Reachable.settled`)
    the scheduler waits only while a job is running       (`Step.busy`)
    a run that nobody stops can always come to its end    (`exists_finished`)
    all of it, along every run                            (`scheduler_unstuck`)
-/
namespace Dataflow

/-- A job that has succeeded or failed. -/
def JobTable.HasEnded {F : Type} (t : JobTable F) (j : JobId) : Prop :=
  t.status? j = some .succeeded ∨ t.status? j = some .failed

instance {F : Type} (t : JobTable F) (j : JobId) : Decidable (t.HasEnded j) :=
  inferInstanceAs (Decidable (_ ∨ _))

namespace LocalRun
variable {F : Type} [Fraction F]

/-! ## After a pass -/

/-- The scheduler has gone over all jobs, and has taken in no result since. -/
def Surveyed (r : LocalRun F) : Prop :=
  r.phase = .scanning [] ∨ r.phase = .waiting ∨ r.phase = .finished

/-- A table in which nothing is left to be started or given up. -/
structure Settled (g : JobGraph) (t : JobTable F) : Prop where
  pending : ∀ job ∈ g.jobs, t.status? job.id = some .pending →
    (∀ d ∈ job.dependencies, t.status? d ≠ some .failed) ∧
    ∃ d ∈ job.dependencies, t.status? d = some .pending ∨ t.status? d = some .running
  /-- With a job all those have failed that depend on it, directly or through others. -/
  failed : ∀ j d, Relation.TransGen g.DependsOn j d → t.status? d = some .failed →
    t.status? j = some .failed
  ended : t.withStatus .running = [] → ∀ job ∈ g.jobs, t.HasEnded job.id

section Passes
variable {stages : StageGraph} {g : JobGraph} {r r' : LocalRun F} {job : Job} {rest : List Job}

theorem Reachable.held (hb : JobGraph.Bound stages g) (hr : Reachable g r) (h : Surveyed r) :
    ∀ job ∈ g.jobs, r.table.Held job := by
  have hpassed := hr.passed hb
  rcases h with h | h | h
  · rw [h] at hpassed
    exact hpassed.held
  · rw [h] at hpassed
    exact hpassed
  · rw [h] at hpassed
    exact hpassed.1

theorem Reachable.exists_status? (hg : g.Numbered) (hr : Reachable g r) (hjob : job ∈ g.jobs) :
    ∃ s, r.table.status? job.id = some s := by
  obtain rfl := hr.graph
  obtain ⟨st, hst⟩ := JobTable.exists_state? hg hr.length_states hjob
  exact ⟨st.status, by rw [JobTable.status?, hst]; rfl⟩

theorem Reachable.failed_of_dependency (hb : JobGraph.Bound stages g) (hr : Reachable g r)
    (h : Surveyed r) (hjob : job ∈ g.jobs) {d : JobId} (hd : d ∈ job.dependencies)
    (hfailed : r.table.status? d = some .failed) : r.table.status? job.id = some .failed := by
  have hunderway : ¬ Underway r.table job.id := by
    intro hrun
    cases hfailed.symm.trans ((hr.served hb.numbered).served job hjob hrun d hd)
  obtain ⟨s, hs⟩ := hr.exists_status? hb.numbered hjob
  cases s with
  | pending =>
      have hwait := hr.held hb h job hjob hs
      exact absurd hfailed (JobTable.ne_failed_of_readinessOf_eq_waiting hwait d hd)
  | running => exact absurd (Or.inl hs) hunderway
  | succeeded => exact absurd (Or.inr hs) hunderway
  | failed => exact hs

/-- What a pass leaves behind. -/
theorem Reachable.settled (hb : JobGraph.Bound stages g) (hr : Reachable g r) (h : Surveyed r) :
    Settled g r.table := by
  refine ⟨?_, ?_, hr.ended_of_held hb (hr.held hb h)⟩
  · intro job hjob hpending
    have hwait := hr.held hb h job hjob hpending
    refine ⟨JobTable.ne_failed_of_readinessOf_eq_waiting hwait, ?_⟩
    obtain ⟨d, hd, hsucceeded, hfailed⟩ := JobTable.exists_of_readinessOf_eq_waiting hwait
    obtain ⟨dep, hdep, rfl⟩ := hb.mem_of_dependency hjob hd
    obtain ⟨s, hs⟩ := hr.exists_status? hb.numbered hdep
    cases s with
    | pending => exact ⟨_, hd, Or.inl hs⟩
    | running => exact ⟨_, hd, Or.inr hs⟩
    | succeeded => exact absurd hs hsucceeded
    | failed => exact absurd hs hfailed
  · intro j d hpath hfailed
    induction hpath using Relation.TransGen.head_induction_on with
    | single hdep =>
        obtain ⟨job, hjob, rfl, hd⟩ := hdep
        exact hr.failed_of_dependency hb h hjob hd hfailed
    | head hdep _ ih =>
        obtain ⟨job, hjob, rfl, hd⟩ := hdep
        exact hr.failed_of_dependency hb h hjob hd ih

/-! ## The phases of a run -/

omit [Fraction F] in
theorem phase_scan (hphase : r.phase = .scanning (job :: rest)) (hstop : r.stopped = false) :
    r.scan.phase = .scanning rest := by
  simp only [scan, hphase, hstop]
  split
  · split <;> rfl
  · rfl

omit [Fraction F] in
theorem phase_scans (hphase : r.phase = .scanning rest) (hstop : r.stopped = false) :
    (r.scans rest.length).phase = .scanning [] := by
  induction rest generalizing r with
  | nil => exact hphase
  | cons job rest ih => exact ih (phase_scan hphase hstop) ((stopped_scan r).trans hstop)

theorem Step.running_of_waiting (hstep : Step r r') (hphase : r.phase = .scanning [])
    (hwait : r'.phase = .waiting) : r'.table.withStatus .running ≠ [] := by
  cases hstep with
  | scan =>
      simp only [LocalRun.scan, hphase] at hwait ⊢
      split at hwait
      · cases hwait
      next hrun =>
        rw [if_neg hrun]
        exact fun hnone => hrun (List.isEmpty_iff.mpr hnone)
  | join j result => simp [LocalRun.join, hphase] at hwait
  | report j part => cases hphase.symm.trans hwait
  | requestStop => cases hphase.symm.trans hwait
  | abort =>
      simp only [LocalRun.abort, hphase] at hwait
      split at hwait
      · cases hwait
      · cases hphase.symm.trans hwait
  | tick now => cases hphase.symm.trans hwait

theorem Moves.waiting {phase : Phase} {t : JobTable F} (h : Moves r phase t)
    (hwait : phase = .waiting) : r.phase = .scanning [] ∨
      r.phase = .waiting ∧ t.withStatus .running = r.table.withStatus .running := by
  cases h with
  | stays => exact Or.inr ⟨hwait, rfl⟩
  | reports _ => exact Or.inr ⟨hwait, JobTable.withStatus_reported .running⟩
  | skips _ _ => cases hwait
  | abandons _ _ _ => cases hwait
  | starts _ _ _ => cases hwait
  | waits hphase => exact Or.inl hphase
  | joins _ _ => cases hwait
  | finishes _ _ => cases hwait
  | aborts _ => cases hwait

/-- While the scheduler waits, a job is running. -/
theorem Step.busy (hstep : Step r r') (h : r.phase = .waiting → r.table.withStatus .running ≠ [])
    (hwait : r'.phase = .waiting) : r'.table.withStatus .running ≠ [] := by
  rcases hstep.moves.waiting hwait with hphase | ⟨hphase, hsame⟩
  · exact hstep.running_of_waiting hphase hwait
  · rw [hsame]
    exact h hphase

theorem Reachable.busy (hr : Reachable g r) :
    r.phase = .waiting → r.table.withStatus .running ≠ [] := by
  induction hr with
  | refl => exact fun hwait => by cases hwait
  | tail _ hstep ih => exact hstep.busy ih

theorem Moves.finished {phase : Phase} {t : JobTable F} (h : Moves r phase t)
    (hfin : phase = .finished) : r.phase = .finished ∨
      r.phase = .scanning [] ∧ r.table.withStatus .running = [] ∧ t = r.table := by
  cases h with
  | stays => exact Or.inl hfin
  | reports _ => exact Or.inl hfin
  | skips _ _ => cases hfin
  | abandons _ _ _ => cases hfin
  | starts _ _ _ => cases hfin
  | waits _ => cases hfin
  | joins _ _ => cases hfin
  | finishes hphase hnone => exact Or.inr ⟨hphase, hnone, rfl⟩
  | aborts _ => cases hfin

omit [Fraction F] in
theorem aborted_scan (habort : r.scan.phase = .aborted) : r.phase = .aborted ∨ r.stopped = true := by
  simp only [scan] at habort
  split at habort
  · split at habort
    · cases habort
    · cases habort
  · split at habort
    · split at habort
      · cases habort
      · cases habort
      · split at habort
        next hstop => exact Or.inr hstop
        next => cases habort
    · cases habort
  · exact Or.inl habort

theorem Step.stopped_of_aborted (hstep : Step r r') (h : r.phase = .aborted → r.stopped = true)
    (habort : r'.phase = .aborted) : r'.stopped = true := by
  cases hstep with
  | scan =>
      rw [stopped_scan]
      rcases aborted_scan habort with hbefore | hstop
      · exact h hbefore
      · exact hstop
  | join j result =>
      rw [stopped_join]
      refine h ?_
      simp only [LocalRun.join] at habort
      split at habort
      · cases habort
      · exact habort
  | report j part => exact h habort
  | requestStop => rfl
  | abort =>
      rw [stopped_abort]
      simp only [LocalRun.abort] at habort
      split at habort
      next hphase => cases hphase.symm.trans habort
      next =>
        split at habort
        next hstop => exact hstop
        next => exact h habort
  | tick now => exact h habort

theorem Reachable.ne_aborted (hr : Reachable g r) (hstop : r.stopped = false) :
    r.phase ≠ .aborted := by
  have hstopped : r.phase = .aborted → r.stopped = true := by
    clear hstop
    induction hr with
    | refl => exact fun habort => by cases habort
    | tail _ hstep ih => exact hstep.stopped_of_aborted ih
  intro habort
  cases hstop.symm.trans (hstopped habort)

end Passes

/-! ## Coming to the end -/

section Ending
variable {stages : StageGraph} {g : JobGraph} {r r' : LocalRun F}

omit [Fraction F] in
theorem scans_succ (n : Nat) (r : LocalRun F) : r.scans (n + 1) = (r.scans n).scan := by
  induction n generalizing r with
  | zero => rfl
  | succ n ih => exact ih r.scan

omit [Fraction F] in
theorem stopped_scans (n : Nat) (r : LocalRun F) : (r.scans n).stopped = r.stopped := by
  induction n generalizing r with
  | zero => rfl
  | succ n ih => exact (ih r.scan).trans (stopped_scan r)

omit [Fraction F] in
theorem stopped_settle (r : LocalRun F) : r.settle.stopped = r.stopped := by
  simp only [settle]
  split
  · exact stopped_scans _ r
  · rfl

/-- A run that nobody stops gets to the point at which its scheduler waits, or is finished. -/
theorem Reachable.phase_settle (hr : Reachable g r) (hstop : r.stopped = false) :
    r.settle.phase = .waiting ∨ r.settle.phase = .finished := by
  cases hphase : r.phase with
  | scanning rest =>
      have hend := phase_scans hphase hstop
      simp only [settle, hphase, scans_succ, scan, hend]
      split
      · exact Or.inr rfl
      · exact Or.inl rfl
  | waiting =>
      left
      simp only [settle, hphase]
  | finished =>
      right
      simp only [settle, hphase]
  | aborted => exact absurd hphase (hr.ne_aborted hstop)

def unended (r : LocalRun F) : List JobId := r.table.graph.ids.filter fun j => ¬ r.table.HasEnded j

theorem Steps.hasEnded (h : Steps r r') {j : JobId} (hj : r.table.HasEnded j) :
    r'.table.HasEnded j := by
  have hkeep : ∀ {s : JobStatus}, s = .succeeded ∨ s = .failed → r.table.status? j = some s →
      r'.table.status? j = some s := by
    intro s hend hs
    obtain ⟨st, hst, rfl⟩ := JobTable.exists_state?_of_status? hs
    rw [JobTable.status?, h.state?_of_ended hst hend]
    rfl
  exact hj.imp (hkeep (Or.inl rfl)) (hkeep (Or.inr rfl))

theorem Steps.length_unended_lt (h : Steps r r') {j : JobId} (hj : j ∈ r.table.graph.ids)
    (hbefore : ¬ r.table.HasEnded j) (hafter : r'.table.HasEnded j) :
    r'.unended.length < r.unended.length := by
  simp only [unended, Steps.graph h]
  refine Plan.length_filter_lt ?_ hj (decide_eq_true hbefore) ?_
  · intro k hk
    rw [decide_eq_true_eq] at hk ⊢
    exact fun hended => hk (h.hasEnded hended)
  · simpa using hafter

theorem hasEnded_join {j : JobId} {result : Except String JobCounters}
    (hwait : r.phase = .waiting) (hrun : r.table.status? j = some .running) :
    (r.join j result).table.HasEnded j := by
  obtain ⟨st, hst, -⟩ := JobTable.exists_state?_of_status? hrun
  have hcond : r.phase = .waiting ∧ r.isRunning j = true := ⟨hwait, decide_eq_true hrun⟩
  rw [join, if_pos hcond]
  show (r.table.complete r.now j result).HasEnded j
  rw [JobTable.complete_eq hrun, JobTable.HasEnded, JobTable.status?_modify_self, hst]
  cases result with
  | ok counters => exact Or.inl rfl
  | error reason => exact Or.inr rfl

/-- Whatever the results of its jobs, a run that nobody stops can come to its end. -/
theorem exists_finished (results : JobId → Except String JobCounters) (hr : Reachable g r)
    (hstop : r.stopped = false) :
    ∃ r', Relation.ReflTransGen (StepWith results) r r' ∧ r'.isFinished = true := by
  induction hn : r.unended.length using Nat.strongRecOn generalizing r with
  | ind n ih =>
      have hpass : Relation.ReflTransGen (StepWith results) r r.settle := settle_of StepWith.scan r
      rcases hr.phase_settle hstop with hwait | hfin
      · have hsettled : Reachable g r.settle := hr.trans (steps_settle r)
        obtain ⟨j, hj⟩ := List.exists_mem_of_ne_nil _ (hsettled.busy hwait)
        obtain ⟨hid, hrun⟩ := JobTable.mem_withStatus.mp hj
        rw [Steps.graph (steps_settle r)] at hid
        have hsteps : Steps r (r.settle.join j (results j)) :=
          (steps_settle r).tail (.join _ j (results j))
        -- had the job ended before the pass, it would not be running after it
        have hopen : ¬ r.table.HasEnded j := by
          intro hended
          rcases (steps_settle r).hasEnded hended with hdone | hdone
          · cases hrun.symm.trans hdone
          · cases hrun.symm.trans hdone
        have hless : (r.settle.join j (results j)).unended.length < n :=
          hn ▸ hsteps.length_unended_lt hid hopen (hasEnded_join hwait hrun)
        have hgoes : (r.settle.join j (results j)).stopped = false :=
          (stopped_join _ j _).trans ((stopped_settle r).trans hstop)
        obtain ⟨r', hr', hfin⟩ := ih _ hless (hr.trans hsteps) hgoes rfl
        exact ⟨r', (hpass.tail (.join _ j)).trans hr', hfin⟩
      · exact ⟨r.settle, hpass, decide_eq_true hfin⟩

end Ending

/-- What keeps the scheduler of a run from getting stuck. -/
structure Unstuck (g : JobGraph) (r : LocalRun F) : Prop where
  /-- A pass that nobody stops comes to its end. -/
  passes : r.stopped = false → ∀ rest, r.phase = .scanning rest →
    (r.scans rest.length).phase = .scanning []
  settled : r.Surveyed → Settled g r.table
  busy : r.phase = .waiting → ∃ job ∈ g.jobs, r.isRunning job.id = true
  /-- A run becomes finished just after a pass, when no job is running and all have ended. -/
  finishes : ∀ r', Step r r' → r'.isFinished = true → r.isFinished = true ∨
    r.phase = .scanning [] ∧ r.table.withStatus .running = [] ∧ r'.table = r.table ∧
      ∀ job ∈ g.jobs, r.table.HasEnded job.id
  ended : r.isFinished = true → ∀ job ∈ g.jobs, r.table.HasEnded job.id
  completes : r.stopped = false → ∀ results, ∃ r',
    Relation.ReflTransGen (StepWith results) r r' ∧ r'.isFinished = true

/-- Along every run of a job graph, one pass of the scheduler settles what there is to settle, and
the scheduler does not get stuck. -/
theorem scheduler_unstuck {stages : StageGraph} {group : String} {jobs : JobGraph} {r : LocalRun F}
    (hb : JobGraph.bind stages group = .ok jobs) (hr : Reachable jobs r) : Unstuck jobs r := by
  have hbound := JobGraph.bind_eq_ok hb
  refine ⟨fun hstop rest hphase => phase_scans hphase hstop, hr.settled hbound, ?_, ?_, ?_,
    fun hstop results => exists_finished results hr hstop⟩
  · intro hwait
    obtain ⟨j, hj⟩ := List.exists_mem_of_ne_nil _ (hr.busy hwait)
    obtain ⟨hid, hrun⟩ := JobTable.mem_withStatus.mp hj
    obtain ⟨job, hjob, rfl⟩ := List.mem_map.mp hid
    exact ⟨job, hr.graph ▸ hjob, decide_eq_true hrun⟩
  · intro r' hstep hfin
    rcases hstep.moves.finished (of_decide_eq_true hfin) with hphase | ⟨hphase, hnone, htable⟩
    · exact Or.inl (decide_eq_true hphase)
    · exact Or.inr ⟨hphase, hnone, htable, (hr.settled hbound (Or.inl hphase)).ended hnone⟩
  · intro hfin
    exact hr.ended hbound (of_decide_eq_true hfin)

/-- Reading has failed, and the scheduler is at the end of the pass after that. -/
def unreadRun : LocalRun Rat :=
  ((ofGraph branchedJobs).settle.join ⟨1⟩ (.error "no such location")).scans 4

/-- A single pass gives up a chain of three jobs, and the run ends. -/
theorem unread_unstuck :
    JobGraph.bind StageGraph.branchedStages "g" = .ok branchedJobs ∧
    Reachable branchedJobs unreadRun ∧ Unstuck branchedJobs unreadRun ∧
    unreadRun.phase = .scanning [] ∧ unreadRun.table.withStatus .failed = [⟨1⟩, ⟨2⟩, ⟨3⟩, ⟨4⟩] ∧
    unreadRun.scan.isFinished = true := by
  have hbind : JobGraph.bind StageGraph.branchedStages "g" = .ok branchedJobs := by cbv
  have hreach : Reachable branchedJobs unreadRun :=
    ((steps_settle _).tail (.join _ _ _)).trans (steps_scans 4 _)
  exact ⟨hbind, hreach, scheduler_unstuck hbind hreach, by cbv, by cbv, by cbv⟩

end LocalRun
end Dataflow
