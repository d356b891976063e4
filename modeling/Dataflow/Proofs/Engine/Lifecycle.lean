import Dataflow.Proofs.Engine.Dependencies
import Dataflow.Proofs.Engine.Settled
/-!
# The life of a job

A step can do little to a job (`Turns`): its status moves on as the life of a job allows, and once
the job has ended nothing becomes of its state any more.  The runner is handed a job by one kind of
step alone (`Begins`): the scheduler starts a pending job while the run is not stopped.  Since a job
that was started is never pending again, it is started once; a job that was given up is never
started, and a stopped run starts nothing.

**Proved here.**

    a job that has ended keeps its state           (`Steps.state?_of_ended`)
    what a step means to the runner                (`Step.begins`)
    no job is started twice                        (`Reachable.accounted`)
    a stopped run starts nothing                   (`Steps.quiet`)
    all of it, along every run                     (`lives_lawful`)
-/
namespace Dataflow

/-- What comes after what in the life of a job. -/
inductive JobStatus.Follows : JobStatus → JobStatus → Prop
  | starts : Follows .pending .running
  | givenUp : Follows .pending .failed
  | succeeds : Follows .running .succeeded
  | fails : Follows .running .failed

theorem JobStatus.Follows.ne_pending {s s' : JobStatus} (h : s.Follows s') : s' ≠ .pending := by
  cases h <;> exact JobStatus.noConfusion

namespace LocalRun
variable {F : Type} [Fraction F]

/-! ## From one status to the next -/

section Turning
variable {r r' : LocalRun F} {j : JobId} {st st' : JobState F}

theorem Turns.follows (h : Turns r j st st') :
    st'.status = st.status ∨ st.status.Follows st'.status := by
  cases h with
  | stays => exact Or.inl rfl
  | reports _ => exact Or.inl rfl
  | abandons _ _ _ hs => exact Or.inr (hs ▸ .givenUp)
  | starts hs => exact Or.inr (hs ▸ .starts)
  | @joins result hs =>
      cases result with
      | ok counters => exact Or.inr (hs ▸ .succeeds)
      | error reason => exact Or.inr (hs ▸ .fails)

theorem Turns.eq_of_ended (h : Turns r j st st')
    (hend : st.status = .succeeded ∨ st.status = .failed) : st' = st := by
  have hnot : ∀ {s}, st.status = s → s ≠ .succeeded → s ≠ .failed → st' = st := by
    intro s hs hsucc hfail
    rcases hend with hend | hend
    · exact absurd (hs.symm.trans hend) hsucc
    · exact absurd (hs.symm.trans hend) hfail
  cases h with
  | stays => rfl
  | reports hs => exact hnot hs JobStatus.noConfusion JobStatus.noConfusion
  | abandons _ _ _ hs => exact hnot hs JobStatus.noConfusion JobStatus.noConfusion
  | starts hs => exact hnot hs JobStatus.noConfusion JobStatus.noConfusion
  | joins hs => exact hnot hs JobStatus.noConfusion JobStatus.noConfusion

/-- Only the scheduler makes a pending job fail, for a dependency that has failed. -/
theorem Turns.givenUp (h : Turns r j st st') (hs : st.status = .pending)
    (hs' : st'.status = .failed) : ∃ job rest d, r.phase = .scanning (job :: rest) ∧ job.id = j ∧
      r.table.readiness job = .abandoned d ∧ st' = st.abandoned r.now d := by
  cases h with
  | stays => cases hs.symm.trans hs'
  | reports hrun => cases hs.symm.trans hrun
  | abandons hphase hid hready _ => exact ⟨_, _, _, hphase, hid, hready, rfl⟩
  | starts _ => cases hs'
  | joins hrun => cases hs.symm.trans hrun

/-- A job that has ended keeps its state: neither late results nor late progress are taken in. -/
theorem Steps.state?_of_ended (h : Steps r r') (hst : r.table.state? j = some st)
    (hend : st.status = .succeeded ∨ st.status = .failed) : r'.table.state? j = some st := by
  induction h with
  | refl => exact hst
  | tail _ hstep ih =>
      obtain ⟨st', hst', hturns⟩ := hstep.moves.turns ih
      rw [hst', hturns.eq_of_ended hend]

theorem Step.status? {s : JobStatus} (h : Step r r') (hj : r.table.status? j = some s) :
    r'.table.status? j = some s ∨ ∃ s', r'.table.status? j = some s' ∧ s.Follows s' := by
  obtain ⟨st, hst, rfl⟩ := JobTable.exists_state?_of_status? hj
  obtain ⟨st', hst', hturns⟩ := h.moves.turns hst
  have hstatus : r'.table.status? j = some st'.status := by rw [JobTable.status?, hst']; rfl
  rcases hturns.follows with hsame | hfollows
  · exact Or.inl (hstatus.trans (congrArg some hsame))
  · exact Or.inr ⟨_, hstatus, hfollows⟩

theorem Step.status?_ne_pending {s : JobStatus} (h : Step r r') (hj : r.table.status? j = some s)
    (hs : s ≠ .pending) : ∃ s', r'.table.status? j = some s' ∧ s' ≠ .pending := by
  rcases h.status? hj with hsame | ⟨s', hs', hfollows⟩
  · exact ⟨s, hsame, hs⟩
  · exact ⟨s', hs', hfollows.ne_pending⟩

end Turning

/-! ## What the runner is handed -/

/-- What a step means to the runner: nothing, and then no job enters running, or one job that was
pending. -/
inductive Begins (r r' : LocalRun F) : Prop
  | nothing : r'.started = r.started →
      (∀ j, r'.table.status? j = some .running → r.table.status? j = some .running) → Begins r r'
  | job (j : JobId) : r.stopped = false → r.table.status? j = some .pending →
      r'.started = r.started ++ [j] → r'.table = r.table.modify j (JobState.starting r.now) →
      Begins r r'

section Beginning
variable {r r' : LocalRun F} {j k : JobId}

omit [Fraction F] in
theorem running_of_modify {t : JobTable F} {f : JobState F → JobState F}
    (hf : ∀ st, (f st).status ≠ .running) (hj : (t.modify k f).status? j = some .running) :
    t.status? j = some .running := by
  by_cases hjk : j = k
  · subst hjk
    rw [JobTable.status?_modify_self] at hj
    obtain ⟨st, -, hst⟩ := Option.map_eq_some_iff.mp hj
    exact absurd hst (hf st)
  · rwa [JobTable.status?_modify f hjk] at hj

omit [Fraction F] in
theorem begins_scan (r : LocalRun F) : Begins r r.scan := by
  simp only [scan]
  split
  · split
    · exact .nothing rfl fun _ hj => hj
    · exact .nothing rfl fun _ hj => hj
  next job rest hphase =>
    split
    next hpending =>
      split
      · exact .nothing rfl fun _ hj => hj
      next d _ =>
        refine .nothing rfl ?_
        show ∀ j, (r.table.abandon r.now job.id d).status? j = some .running → _
        rw [JobTable.abandon_eq hpending]
        exact fun j hj => running_of_modify (fun _ => JobStatus.noConfusion) hj
      next =>
        split
        · exact .nothing rfl fun _ hj => hj
        next hstop =>
          exact .job job.id (eq_false_of_ne_true hstop) hpending rfl (JobTable.start_eq hpending)
    · exact .nothing rfl fun _ hj => hj
  · exact .nothing rfl fun _ hj => hj

theorem begins_join (r : LocalRun F) (k : JobId) (result : Except String JobCounters) :
    Begins r (r.join k result) := by
  simp only [join]
  split
  next h =>
    have hrun : r.table.status? k = some .running := of_decide_eq_true h.2
    refine .nothing rfl ?_
    show ∀ j, (r.table.complete r.now k result).status? j = some .running → _
    rw [JobTable.complete_eq hrun]
    intro j hj
    by_cases hjk : j = k
    · exact hjk ▸ hrun
    · rwa [JobTable.status?_modify _ hjk] at hj
  · exact .nothing rfl fun _ hj => hj

theorem begins_report (r : LocalRun F) (k : JobId) (part : F) : Begins r (r.report k part) := by
  refine .nothing rfl ?_
  show ∀ j, (r.table.report k part).status? j = some .running → _
  by_cases hrun : r.table.status? k = some .running
  · rw [JobTable.report_eq hrun]
    exact fun j hj => JobTable.status?_reported.symm.trans hj
  · rw [JobTable.report_of_ne hrun]
    exact fun j hj => hj

omit [Fraction F] in
theorem begins_abort (r : LocalRun F) : Begins r r.abort := by
  simp only [abort]
  split
  · exact .nothing rfl fun _ hj => hj
  · split
    · exact .nothing rfl fun _ hj => hj
    · exact .nothing rfl fun _ hj => hj

theorem Step.begins (h : Step r r') : Begins r r' := by
  cases h with
  | scan => exact begins_scan r
  | join j result => exact begins_join r j result
  | report j part => exact begins_report r j part
  | requestStop => exact .nothing rfl fun _ hj => hj
  | abort => exact begins_abort r
  | tick now => exact .nothing rfl fun _ hj => hj

omit [Fraction F] in
theorem status?_starting {t : JobTable F} {now : Nat} (hj : t.status? j = some .pending) :
    (t.modify j (JobState.starting now)).status? j = some .running := by
  obtain ⟨st, hst, -⟩ := JobTable.exists_state?_of_status? hj
  rw [JobTable.status?_modify_self, hst]
  rfl

/-- The jobs handed to the runner are pairwise distinct, and none of them is pending. -/
structure Accounted (r : LocalRun F) : Prop where
  nodup : r.started.Nodup
  begun : ∀ j ∈ r.started, ∃ s, r.table.status? j = some s ∧ s ≠ .pending

omit [Fraction F] in
theorem Accounted.not_mem (h : Accounted r) (hj : r.table.status? j = some .pending) :
    j ∉ r.started := by
  intro hmem
  obtain ⟨s, hs, hne⟩ := h.begun j hmem
  exact hne (Option.some.inj (hs.symm.trans hj))

theorem Accounted.step (h : Accounted r) (hstep : Step r r') : Accounted r' := by
  have hbegun : ∀ k ∈ r.started, ∃ s, r'.table.status? k = some s ∧ s ≠ .pending := by
    intro k hk
    obtain ⟨s, hs, hne⟩ := h.begun k hk
    exact hstep.status?_ne_pending hs hne
  cases hstep.begins with
  | nothing hstarted _ => exact ⟨hstarted ▸ h.nodup, hstarted ▸ hbegun⟩
  | job j _ hpending hstarted htable =>
      refine ⟨?_, ?_⟩
      · rw [hstarted, List.nodup_append]
        refine ⟨h.nodup, List.nodup_singleton j, ?_⟩
        rintro k hk _ hj rfl
        obtain rfl := List.mem_singleton.mp hj
        exact h.not_mem hpending hk
      · intro k hk
        rcases List.mem_append.mp (hstarted ▸ hk) with hk | hk
        · exact hbegun k hk
        · obtain rfl := List.mem_singleton.mp hk
          exact ⟨.running, htable ▸ status?_starting hpending, JobStatus.noConfusion⟩

theorem Reachable.accounted {g : JobGraph} (hr : Reachable g r) : Accounted r := by
  induction hr with
  | refl => exact ⟨List.nodup_nil, fun _ hj => absurd hj List.not_mem_nil⟩
  | tail _ hstep ih => exact ih.step hstep

theorem Steps.not_started (h : Steps r r') {s : JobState F} (hst : r.table.state? j = some s)
    (hend : s.status = .succeeded ∨ s.status = .failed) (hj : j ∉ r.started) : j ∉ r'.started := by
  induction h with
  | refl => exact hj
  | @tail r₁ r₂ hsteps hstep ih =>
      cases hstep.begins with
      | nothing hstarted _ => exact hstarted ▸ ih
      | job k _ hpending hstarted _ =>
          intro hmem
          rcases List.mem_append.mp (hstarted ▸ hmem) with hmem | hmem
          · exact ih hmem
          · obtain rfl := List.mem_singleton.mp hmem
            rw [JobTable.status?, Steps.state?_of_ended hsteps hst hend] at hpending
            rcases hend with hend | hend
            · cases hend.symm.trans (Option.some.inj hpending)
            · cases hend.symm.trans (Option.some.inj hpending)

/-! ## Stopped runs -/

omit [Fraction F] in
theorem stopped_scan (r : LocalRun F) : r.scan.stopped = r.stopped := by
  unfold scan
  repeat' split
  all_goals rfl

theorem stopped_join (r : LocalRun F) (k : JobId) (result : Except String JobCounters) :
    (r.join k result).stopped = r.stopped := by
  simp only [join]
  split
  · rfl
  · rfl

omit [Fraction F] in
theorem stopped_abort (r : LocalRun F) : r.abort.stopped = r.stopped := by
  unfold abort
  repeat' split
  all_goals rfl

theorem Step.stopped (h : Step r r') (hs : r.stopped = true) : r'.stopped = true := by
  cases h with
  | scan => exact (stopped_scan r).trans hs
  | join j result => exact (stopped_join r j result).trans hs
  | report j part => exact hs
  | requestStop => rfl
  | abort => exact (stopped_abort r).trans hs
  | tick now => exact hs

/-- A stopped run hands nothing to the runner, and no job enters running. -/
theorem Steps.quiet (h : Steps r r') (hs : r.stopped = true) : r'.stopped = true ∧
    r'.started = r.started ∧
    ∀ j, r'.table.status? j = some .running → r.table.status? j = some .running := by
  induction h with
  | refl => exact ⟨hs, rfl, fun _ hj => hj⟩
  | tail _ hstep ih =>
      obtain ⟨hstopped, hstarted, hrunning⟩ := ih
      refine ⟨hstep.stopped hstopped, ?_⟩
      cases hstep.begins with
      | nothing hsame hrun => exact ⟨hsame.trans hstarted, fun j hj => hrunning j (hrun j hj)⟩
      | job _ hnot _ _ _ => exact Bool.noConfusion (hnot.symm.trans hstopped)

end Beginning

/-! ## A whole life -/

/-- What a step may do to the jobs of a graph, and what it settles for the rest of the run. -/
structure Lawful (g : JobGraph) (r r' : LocalRun F) : Prop where
  /-- A job keeps its status or moves on. -/
  status : ∀ j s, r.table.status? j = some s →
    r'.table.status? j = some s ∨ ∃ s', r'.table.status? j = some s' ∧ s.Follows s'
  /-- The runner is handed just the jobs that enter running. -/
  runner : ∃ fresh, r'.started = r.started ++ fresh ∧ ∀ j, j ∈ fresh ↔
    r.table.status? j = some .pending ∧ r'.table.status? j = some .running
  /-- A job is given up for a dependency that has failed and that its error names, and never runs. -/
  givenUp : ∀ job ∈ g.jobs, r.table.status? job.id = some .pending →
    r'.table.status? job.id = some .failed →
    (∃ d ∈ job.dependencies, r.table.status? d = some .failed ∧
      (r'.table.state? job.id).bind JobState.error = some ("dependency " ++ d.text ++ " failed")) ∧
    ∀ r'', Steps r' r'' → job.id ∉ r''.started

section Living
variable {g : JobGraph} {r r' : LocalRun F}

theorem Step.runner (h : Step r r') : ∃ fresh, r'.started = r.started ++ fresh ∧ ∀ j, j ∈ fresh ↔
    r.table.status? j = some .pending ∧ r'.table.status? j = some .running := by
  cases h.begins with
  | nothing hstarted hrunning =>
      refine ⟨[], by rw [hstarted, List.append_nil], ?_⟩
      intro j
      refine iff_of_false List.not_mem_nil ?_
      rintro ⟨hpending, hrun⟩
      cases hpending.symm.trans (hrunning j hrun)
  | job j _ hpending hstarted htable =>
      refine ⟨[j], hstarted, ?_⟩
      intro k
      rw [List.mem_singleton]
      constructor
      · rintro rfl
        exact ⟨hpending, htable ▸ status?_starting hpending⟩
      · rintro ⟨hk, hrun⟩
        by_contra hne
        rw [htable, JobTable.status?_modify _ hne] at hrun
        cases hk.symm.trans hrun

theorem Step.givenUp (hg : g.Numbered) (hr : Reachable g r) (h : Step r r') {job : Job}
    (hjob : job ∈ g.jobs) (hpending : r.table.status? job.id = some .pending)
    (hfailed : r'.table.status? job.id = some .failed) :
    (∃ d ∈ job.dependencies, r.table.status? d = some .failed ∧
      (r'.table.state? job.id).bind JobState.error = some ("dependency " ++ d.text ++ " failed")) ∧
    ∀ r'', Steps r' r'' → job.id ∉ r''.started := by
  obtain ⟨st, hst, hs⟩ := JobTable.exists_state?_of_status? hpending
  obtain ⟨st', hst', hs'⟩ := JobTable.exists_state?_of_status? hfailed
  constructor
  · obtain ⟨st'', hst'', hturns⟩ := h.moves.turns hst
    obtain rfl : st' = st'' := Option.some.inj (hst'.symm.trans hst'')
    obtain ⟨job', rest, d, hphase, hid, hready, rfl⟩ := hturns.givenUp hs hs'
    have hjob' := (hr.served hg).listed _ hphase job' List.mem_cons_self
    obtain rfl := hg.eq_of_id hjob' hjob hid
    obtain ⟨hd, hdf⟩ := JobTable.readinessOf_eq_abandoned hready
    exact ⟨d, hd, hdf, by rw [hst']; rfl⟩
  · -- the step that gives a job up starts none, and the job was not started before
    have hnot : job.id ∉ r'.started := by
      obtain ⟨fresh, hstarted, hfresh⟩ := h.runner
      rw [hstarted, List.mem_append, not_or, hfresh]
      refine ⟨hr.accounted.not_mem hpending, ?_⟩
      rintro ⟨-, hrun⟩
      cases hrun.symm.trans hfailed
    exact fun r'' hsteps => hsteps.not_started hst' (Or.inr hs') hnot

end Living

/-- Along every run of a job graph, each step treats the jobs as their lives allow, no job is handed
to the runner twice, jobs that have ended stay as they are, and once the run has been told to stop
nothing is started any more. -/
theorem lives_lawful {stages : StageGraph} {group : String} {jobs : JobGraph} {r : LocalRun F}
    (hb : JobGraph.bind stages group = .ok jobs) (hr : Reachable jobs r) :
    r.started.Nodup ∧
    (∀ r', Step r r' → Lawful jobs r r') ∧
    (∀ r', Steps r r' → ∀ j st, r.table.state? j = some st →
      st.status = .succeeded ∨ st.status = .failed → r'.table.state? j = some st) ∧
    ∀ r', Steps r.requestStop r' → r'.started = r.started ∧
      ∀ j, r'.table.status? j = some .running → r.table.status? j = some .running := by
  have hnumbered := (JobGraph.bind_eq_ok hb).numbered
  refine ⟨hr.accounted.nodup, ?_, ?_, ?_⟩
  · intro r' hstep
    exact ⟨fun _ _ hj => hstep.status? hj, hstep.runner,
      fun _ hjob hpending hfailed => hstep.givenUp hnumbered hr hjob hpending hfailed⟩
  · intro r' hsteps j st hst hend
    exact hsteps.state?_of_ended hst hend
  · intro r' hsteps
    exact (hsteps.quiet rfl).2

/-- The sampling has failed, and the scheduler has come to the jobs that wait for it. -/
def deniedRun : LocalRun Rat :=
  (((ofGraph branchedJobs).settle.finishJob ⟨1⟩ (.ok {})).join ⟨2⟩ (.error "no space")).scan.scan

theorem denied_lawful :
    JobGraph.bind StageGraph.branchedStages "g" = .ok branchedJobs ∧
    Reachable branchedJobs deniedRun ∧
    deniedRun.table.status? ⟨3⟩ = some .pending ∧ deniedRun.scan.table.status? ⟨3⟩ = some .failed ∧
    ((∃ d ∈ [⟨2⟩, ⟨1⟩], deniedRun.table.status? d = some .failed ∧
      (deniedRun.scan.table.state? ⟨3⟩).bind JobState.error =
        some ("dependency " ++ d.text ++ " failed")) ∧
    ∀ r, Steps deniedRun.scan r → ⟨3⟩ ∉ r.started) ∧
    ∀ r, Steps deniedRun.requestStop r → r.started = deniedRun.started := by
  have hbind : JobGraph.bind StageGraph.branchedStages "g" = .ok branchedJobs := by cbv
  have hreach : Reachable branchedJobs deniedRun :=
    ((((steps_settle _).trans (steps_finishJob _ _ _)).tail (.join _ _ _)).tail (.scan _)).tail
      (.scan _)
  have hpending : deniedRun.table.status? ⟨3⟩ = some .pending := by cbv
  have hfailed : deniedRun.scan.table.status? ⟨3⟩ = some .failed := by cbv
  obtain ⟨-, hlawful, -, hquiet⟩ := lives_lawful hbind hreach
  exact ⟨hbind, hreach, hpending, hfailed, (hlawful _ (.scan _)).givenUp _
    (List.getElem_mem (show 2 < branchedJobs.jobs.length by decide)) hpending hfailed,
    fun r hr => (hquiet r hr).1⟩

end LocalRun
end Dataflow
