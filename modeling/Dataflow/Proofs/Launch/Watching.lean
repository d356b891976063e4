import Dataflow.Proofs.Engine.Settled
import Dataflow.Proofs.Launch.Ensures
/-!
# What a watch makes of a local run

The run of a launch goes on while it is watched.  Nothing is assumed of when and how: every question
is put to the run at some moment, before and after which it may take any steps (`Asks`).  The state
that a launch is made in may hold more than the run, such as a clock or what the jobs have yet to do;
`view` shows the run in it.

A report is made of several answers.  They fit together because the first of them is that the run is
finished, and then it does not change.

**Proved here.**

    the overall progress of a finished run      (`ensures_overallProgress`)
    the report of a finished run                (`ensures_finish`)
    every way for a launch to end               (`ensures_launch`)
    the report of a launch                      (`ensures_launchWithReport`)
-/
namespace Dataflow

section Watching
variable {S F : Type} [Fraction F]

/-- An action that puts a question to the run at some moment. -/
def Asks {α : Type} (view : S → LocalRun F) (own : StateM (LocalRun F) α) (action : StateM S α) :
    Prop :=
  ∀ s, ∃ r, LocalRun.Steps (view s) r ∧ (action s).1 = (own r).1 ∧
    LocalRun.Steps (own r).2 (view (action s).2)

/-- An action meanwhile the run goes on. -/
def GoesOn {α : Type} (view : S → LocalRun F) (action : StateM S α) : Prop :=
  ∀ s, LocalRun.Steps (view s) (view (action s).2)

/-- A control that asks the run itself. -/
structure Control.Drives (view : S → LocalRun F) (c : Control (StateM S) F) : Prop where
  finished : Asks view LocalRun.control.finished c.finished
  status : ∀ j, Asks view (LocalRun.control.status j) (c.status j)
  progress : ∀ j, Asks view (LocalRun.control.progress j) (c.progress j)
  succeeded : Asks view LocalRun.control.succeeded c.succeeded
  failed : Asks view LocalRun.control.failed c.failed
  stats : ∀ j, Asks view (LocalRun.control.stats j) (c.stats j)
  stop : Asks view LocalRun.control.stop c.stop

theorem LocalRun.drives_control :
    (LocalRun.control : Control (StateM (LocalRun F)) F).Drives id :=
  ⟨fun _ => ⟨_, .refl, rfl, .refl⟩, fun _ _ => ⟨_, .refl, rfl, .refl⟩,
    fun _ _ => ⟨_, .refl, rfl, .refl⟩, fun _ => ⟨_, .refl, rfl, .refl⟩,
    fun _ => ⟨_, .refl, rfl, .refl⟩, fun _ _ => ⟨_, .refl, rfl, .refl⟩,
    fun _ => ⟨_, .refl, rfl, .refl⟩⟩

/-- Surroundings in which nothing but the run itself changes the run. -/
structure Surroundings.Lets (view : S → LocalRun F) (env : Surroundings (StateM S) F) : Prop where
  notify : ∀ p, GoesOn view (env.notify p)
  pause : ∀ n, GoesOn view (env.pause n)
  cancelled : GoesOn view env.cancelled

/-- An engine that runs the jobs of a graph on the spot. -/
def Engine.IsLocal (view : S → LocalRun F) (e : Engine (StateM S) F) : Prop :=
  ∀ g, Ensures (fun _ => True) (e.submit g) fun a s =>
    ∃ c, a = .ok c ∧ c.Drives view ∧ LocalRun.Reachable g (view s)

/-! ## Answers of a finished run -/

def JobTable.part (t : JobTable F) (j : JobId) : F :=
  match t.state? j with
  | some st => st.progress
  | none => Fraction.zero

/-- The parts of some jobs, weighted and added to what is done. -/
def JobTable.addParts (t : JobTable F) (w : Weighting) (jobs : List Job) (done : F) : F :=
  jobs.foldl (fun done job => done + Control.weight w job * Fraction.clamp (t.part job.id)) done

/-- The weights of some jobs, added to a total. -/
def addWeights (w : Weighting) (jobs : List Job) (total : F) : F :=
  jobs.foldl (fun total job => total + Control.weight w job) total

/-- The part of the whole graph that is recorded. -/
def JobTable.overall (t : JobTable F) (w : Weighting) : F :=
  if t.graph.isEmpty then Fraction.one
  else t.addParts w t.graph.jobs Fraction.zero / addWeights w t.graph.jobs Fraction.zero

variable {view : S → LocalRun F} {stages : StageGraph} {g : JobGraph} {t : JobTable F}

theorem Asks.goesOn {α : Type} {own : StateM (LocalRun F) α} {action : StateM S α}
    (h : Asks view own action) (hown : ∀ r, LocalRun.Steps r (own r).2) : GoesOn view action := by
  intro s
  obtain ⟨r, hr, -, hr'⟩ := h s
  exact (hr.trans (hown r)).trans hr'

theorem GoesOn.reachable {α : Type} {action : StateM S α} (h : GoesOn view action) :
    Ensures (fun s => LocalRun.Reachable g (view s)) action
      fun _ s => LocalRun.Reachable g (view s) :=
  fun s hs => hs.trans (h s)

theorem GoesOn.ended {α : Type} {action : StateM S α} (hb : JobGraph.Bound stages g)
    (h : GoesOn view action) : Ensures (fun s => LocalRun.Ended g t (view s)) action
      fun _ s => LocalRun.Ended g t (view s) :=
  fun s hs => hs.steps hb (h s)

theorem Asks.ended {α : Type} {own : StateM (LocalRun F) α} {action : StateM S α}
    (hb : JobGraph.Bound stages g) (h : Asks view own action) (hown : ∀ r, (own r).2 = r) :
    Ensures (fun s => LocalRun.Ended g t (view s)) action fun a s =>
      LocalRun.Ended g t (view s) ∧ ∃ r, LocalRun.Ended g t r ∧ a = (own r).1 := by
  intro s hs
  obtain ⟨r, hr, ha, hr'⟩ := h s
  have hend := hs.steps hb hr
  rw [hown r] at hr'
  exact ⟨hend.steps hb hr', r, hend, ha⟩

/-- Whether a run is finished is found out for good. -/
theorem Asks.finished {action : StateM S Bool} (hb : JobGraph.Bound stages g)
    (h : Asks view LocalRun.control.finished action) :
    Ensures (fun s => LocalRun.Reachable g (view s)) action fun a s =>
      LocalRun.Reachable g (view s) ∧ (a = true → ∃ t, LocalRun.Ended g t (view s)) := by
  intro s hs
  obtain ⟨r, hr, ha, hr'⟩ := h s
  have hreach : LocalRun.Reachable g r := hs.trans hr
  refine ⟨hreach.trans hr', fun hfin => ⟨r.table, ?_⟩⟩
  rw [ha] at hfin
  have hend : LocalRun.Ended g r.table r := ⟨hreach, of_decide_eq_true hfin, rfl⟩
  exact hend.steps hb hr'

variable {c : Control (StateM S) F} {env : Surroundings (StateM S) F}

theorem ensures_addProgress {P : S → Prop} {jobs : List Job}
    (h : ∀ job ∈ jobs, Ensures P (c.progress job.id) fun a s => P s ∧ a = .ok (t.part job.id))
    (w : Weighting) (done total : F) :
    Ensures P (c.addProgress w jobs done total) fun a s =>
      P s ∧ a = .ok (t.addParts w jobs done, addWeights w jobs total) := by
  induction jobs generalizing done total with
  | nil =>
      refine Ensures.pure ?_
      intro s hs
      exact ⟨hs, rfl⟩
  | cons job jobs ih =>
      simp only [Control.addProgress]
      refine (h job List.mem_cons_self).bind (Ensures.of_eq ?_)
      exact ih (fun j hj => h j (List.mem_cons_of_mem _ hj)) _ _

theorem ensures_overallProgress_of {P : S → Prop} (hgraph : t.graph = g)
    (h : ∀ job ∈ g.jobs, Ensures P (c.progress job.id) fun a s => P s ∧ a = .ok (t.part job.id))
    (w : Weighting) :
    Ensures P (c.overallProgress w g) fun a s => P s ∧ a = .ok (t.overall w) := by
  simp only [Control.overallProgress]
  split
  next hempty =>
    refine Ensures.pure fun s hs => ⟨hs, ?_⟩
    rw [JobTable.overall, hgraph, if_pos hempty]
  next hempty =>
    refine (ensures_addProgress h w _ _).bind (Ensures.of_eq ?_)
    refine Ensures.pure fun s hs => ⟨hs, ?_⟩
    rw [JobTable.overall, hgraph, if_neg hempty]

theorem LocalRun.Reachable.progress_eq {r : LocalRun F} (hb : JobGraph.Bound stages g)
    (hr : LocalRun.Reachable g r) {job : Job} (hjob : job ∈ g.jobs) :
    r.table.progress job.id = .ok (r.table.part job.id) := by
  have hgraph := hr.graph
  obtain ⟨st, hst⟩ := JobTable.exists_state? (hgraph ▸ hb.numbered)
    (hgraph ▸ hr.length_states) (hgraph ▸ hjob)
  rw [JobTable.progress, JobTable.part, hst]

theorem ensures_overallProgress (hb : JobGraph.Bound stages g) (hc : c.Drives view)
    (w : Weighting) : Ensures (fun s => LocalRun.Ended g t (view s)) (c.overallProgress w g)
      fun a s => LocalRun.Ended g t (view s) ∧ a = .ok (t.overall w) := by
  intro s hs
  have hgraph : t.graph = g := hs.table ▸ hs.reachable.graph
  refine ensures_overallProgress_of (P := fun s => LocalRun.Ended g t (view s)) hgraph ?_ w s hs
  intro job hjob
  refine ((hc.progress job.id).ended hb fun _ => rfl).mono ?_
  rintro _ s ⟨hs, r, hr, rfl⟩
  exact ⟨hs, hr.table ▸ hr.reachable.progress_eq hb hjob⟩

omit [Fraction F] in
theorem JobTable.exists_stats {t : JobTable F} (hg : t.graph.Numbered) {status : JobStatus}
    {j : JobId} (hj : j ∈ t.withStatus status) (now : Nat) :
    ∃ entry, t.stats now j = .ok entry ∧ (entry.id, entry.status) = (j, status) := by
  obtain ⟨hmem, hstatus⟩ := mem_withStatus.mp hj
  obtain ⟨job, hjob, rfl⟩ := List.mem_map.mp hmem
  obtain ⟨st, hst, rfl⟩ := exists_state?_of_status? hstatus
  simp only [JobTable.stats, hg.get? hjob, hst]
  exact ⟨_, rfl, rfl⟩

theorem ensures_statsOf (hb : JobGraph.Bound stages g) (hc : c.Drives view) (status : JobStatus)
    {js : List JobId} (hjs : js ⊆ t.withStatus status) :
    Ensures (fun s => LocalRun.Ended g t (view s)) (c.statsOf js) fun a s =>
      LocalRun.Ended g t (view s) ∧ ∃ entries, a = .ok entries ∧
        entries.map (fun e => (e.id, e.status)) = js.map fun j => (j, status) := by
  induction js with
  | nil => exact Ensures.pure fun s hs => ⟨hs, [], rfl, rfl⟩
  | cons j js ih =>
      have hentry : Ensures (fun s => LocalRun.Ended g t (view s)) (c.stats j) fun a s =>
          LocalRun.Ended g t (view s) ∧
            ∃ entry, a = .ok entry ∧ (entry.id, entry.status) = (j, status) := by
        refine ((hc.stats j).ended hb fun _ => rfl).mono ?_
        rintro _ s ⟨hs, r, hr, rfl⟩
        exact ⟨hs, JobTable.exists_stats (hr.reachable.graph ▸ hb.numbered)
          (hr.table ▸ hjs List.mem_cons_self) r.now⟩
      simp only [Control.statsOf]
      refine hentry.bind ?_
      intro a
      refine Ensures.of_and ?_
      rintro ⟨entry, rfl, hentry⟩
      refine (ih fun i hi => hjs (List.mem_cons_of_mem _ hi)).bind ?_
      intro b
      refine Ensures.of_and ?_
      rintro ⟨entries, rfl, hentries⟩
      refine Ensures.pure ?_
      intro s hs
      exact ⟨hs, entry :: entries, rfl, by rw [List.map_cons, List.map_cons, hentry, hentries]⟩

/-! ## The report -/

/-- What a report says of the final states of a run. -/
structure Outcome (config : LauncherConfig F) (t : JobTable F) (report : Report F) : Prop where
  progress : report.progress = t.overall config.weighting
  completed : report.completed = config.isComplete report.progress
  failed : report.completed = false → t.withStatus .failed ≠ []
  stats : report.stats.map (fun e => (e.id, e.status)) =
    (if report.completed then [] else (t.withStatus .failed).map fun j => (j, .failed)) ++
      (t.withStatus .succeeded).map fun j => (j, .succeeded)

/-- What a watch can answer when it has seen the final states of a run: a report of them, or that the
run is incomplete although no job has failed. -/
inductive Settles (config : LauncherConfig F) (t : JobTable F) : Except Fault (Report F) → Prop
  | report {report : Report F} : Outcome config t report → Settles config t (.ok report)
  | contradiction {reason : String} : config.isComplete (t.overall config.weighting) = false →
      t.withStatus .failed = [] → Settles config t (.error (.driverInconsistency reason))

/-- How the watch over a run can end, when the run has come to `r`: the launch was cancelled, the run
was not finished, or its final states were seen. -/
inductive Concludes (g : JobGraph) (config : LauncherConfig F) (r : LocalRun F) :
    Except Fault (Report F) → Prop
  | cancelled : Concludes g config r (.error .cancelled)
  | unfinished {reason : String} : Concludes g config r (.error (.execution reason))
  | settled {t : JobTable F} {answer : Except Fault (Report F)} : LocalRun.Ended g t r →
      Settles config t answer → Concludes g config r answer

theorem Concludes.steps {config : LauncherConfig F} {r r' : LocalRun F}
    {answer : Except Fault (Report F)} (hb : JobGraph.Bound stages g)
    (h : Concludes g config r answer) (hsteps : LocalRun.Steps r r') :
    Concludes g config r' answer := by
  cases h with
  | cancelled => exact .cancelled
  | unfinished => exact .unfinished
  | settled hend hsettles => exact .settled (hend.steps hb hsteps) hsettles

/-- The statistics of the failed jobs are found, unless there ought to be a failed job. -/
theorem ensures_failures (hb : JobGraph.Bound stages g) (hc : c.Drives view) (w : Supervisor F)
    (completed : Bool) (p : F) :
    Ensures (fun s => LocalRun.Ended g t (view s)) (w.failures c completed p) fun a s =>
      LocalRun.Ended g t (view s) ∧ ((∃ entries, a = .ok entries ∧
        (completed = false → t.withStatus .failed ≠ []) ∧
        entries.map (fun e => (e.id, e.status)) =
          if completed then [] else (t.withStatus .failed).map fun j => (j, .failed)) ∨
        completed = false ∧ t.withStatus .failed = [] ∧ a = .error (w.contradiction p)) := by
  simp only [Supervisor.failures]
  cases completed with
  | true => exact Ensures.pure fun s hs => ⟨hs, Or.inl ⟨[], rfl, Bool.noConfusion, rfl⟩⟩
  | false =>
      have hfailed : Ensures (fun s => LocalRun.Ended g t (view s)) c.failed fun a s =>
          LocalRun.Ended g t (view s) ∧ a = t.withStatus .failed := by
        refine (hc.failed.ended hb fun _ => rfl).mono ?_
        rintro _ s ⟨hs, r, hr, rfl⟩
        exact ⟨hs, congrArg (JobTable.withStatus · .failed) hr.table⟩
      refine hfailed.bind (Ensures.of_eq ?_)
      split
      next hnone =>
        exact Ensures.pure fun s hs => ⟨hs, Or.inr ⟨rfl, List.isEmpty_iff.mp hnone, rfl⟩⟩
      next hsome =>
        refine (ensures_statsOf hb hc .failed fun _ hj => hj).mono ?_
        rintro a s ⟨hs, entries, ha, hentries⟩
        exact ⟨hs, Or.inl ⟨entries, ha, fun _ => mt List.isEmpty_iff.mpr hsome, hentries⟩⟩

/-- A watch that is asked for a report says that the run is not finished, or has seen it finished. -/
theorem ensures_finish (hb : JobGraph.Bound stages g) (hc : c.Drives view) (henv : env.Lets view)
    {w : Supervisor F} (hw : w.graph = g) :
    Ensures (fun s => LocalRun.Reachable g (view s)) (w.finish c env)
      fun a s => Concludes g w.config (view s) a.1 := by
  subst hw
  simp only [Supervisor.finish]
  refine (hc.finished.finished hb).bind ?_
  intro fin
  cases fin with
  | false => exact Ensures.pure fun s _ => .unfinished
  | true =>
      -- from the first answer on there is one final table that all further answers are taken from
      refine Ensures.of_imp (fun s hs => hs.2 rfl) (Ensures.of_exists ?_)
      intro t
      refine (ensures_overallProgress hb hc _).bind (Ensures.of_eq ?_)
      refine (Ensures.observe w _ ((henv.notify _).ended hb)).bind ?_
      rintro ⟨-, w'⟩
      refine Ensures.of_and ?_
      rintro ⟨-, hconfig : w'.config = w.config⟩
      refine (ensures_failures hb hc _ _ _).bind ?_
      intro failures
      refine Ensures.of_and ?_
      rintro (⟨failed, rfl, hsome, hfailed⟩ | ⟨hincomplete, hnone, rfl⟩)
      · have hsucceeded : Ensures (fun s => LocalRun.Ended w.graph t (view s)) c.succeeded
            fun a s => LocalRun.Ended w.graph t (view s) ∧ a = t.withStatus .succeeded := by
          refine (hc.succeeded.ended hb fun _ => rfl).mono ?_
          rintro _ s ⟨hs, r, hr, rfl⟩
          exact ⟨hs, congrArg (JobTable.withStatus · .succeeded) hr.table⟩
        refine hsucceeded.bind (Ensures.of_eq ?_)
        refine (ensures_statsOf hb hc .succeeded fun _ hj => hj).bind ?_
        intro succeeded
        refine Ensures.of_and ?_
        rintro ⟨entries, rfl, hentries⟩
        refine Ensures.pure fun s hs => .settled hs (.report ⟨rfl, by rw [hconfig], hsome, ?_⟩)
        rw [List.map_append, hfailed, hentries]
      · exact Ensures.pure fun s hs => .settled hs (.contradiction (hconfig ▸ hincomplete) hnone)

/-! ## A whole launch -/

theorem ensures_progress_ok (hb : JobGraph.Bound stages g) (hc : c.Drives view) {job : Job}
    (hjob : job ∈ g.jobs) : Ensures (fun s => LocalRun.Reachable g (view s)) (c.progress job.id)
      (Ensures.OrFault (fun s => LocalRun.Reachable g (view s)) fun _ _ => False) := by
  intro s hs
  obtain ⟨r, hr, ha, hr'⟩ := hc.progress job.id s
  have hreach : LocalRun.Reachable g r := hs.trans hr
  rw [ha]
  show Ensures.OrFault _ _ (r.table.progress job.id) _
  rw [hreach.progress_eq hb hjob]
  exact hreach.trans hr'

theorem ensures_poll (hb : JobGraph.Bound stages g) (hc : c.Drives view) (henv : env.Lets view)
    {w : Supervisor F} (hw : w.graph = g) :
    Ensures (fun s => LocalRun.Reachable g (view s)) (w.poll c env) fun a s =>
      (LocalRun.Reachable g (view s) ∧ a.2.graph = w.graph ∧ a.2.config = w.config) ∧
        ∃ sample, a.1 = .ok sample := by
  subst hw
  simp only [Supervisor.poll]
  refine ((hc.finished.goesOn fun _ => .refl).reachable).bind ?_
  intro finished
  refine (Ensures.overallProgress (fun _ => ensures_progress_ok hb hc) _).bind ?_
  intro a
  cases a with
  | error fault => exact fun _ hs => False.elim hs
  | ok p =>
      refine (Ensures.observe w p ((henv.notify p).reachable)).bind ?_
      intro b
      exact Ensures.pure fun s hs => ⟨hs, _, rfl⟩

theorem ensures_wait (hb : JobGraph.Bound stages g) (hc : c.Drives view) (henv : env.Lets view)
    (config : LauncherConfig F) (polls : Nat) :
    Ensures (fun s => LocalRun.Reachable g (view s)) ((Supervisor.start g config).wait c env polls)
      fun a s => ∀ answer, a.1 = some answer → Concludes g config (view s) answer := by
  have hgoes : ∀ {α : Type} {action : StateM S α} (w : Supervisor F), GoesOn view action →
      Ensures (fun s => LocalRun.Reachable g (view s) ∧ w.graph = g ∧ w.config = config) action
        fun _ s => LocalRun.Reachable g (view s) ∧ w.graph = g ∧ w.config = config :=
    fun w h s hs => ⟨hs.1.trans (h s), hs.2⟩
  refine Ensures.of_imp (fun s hs => ⟨hs, rfl, rfl⟩) (Ensures.wait
    (K := fun s => LocalRun.Reachable g (view s))
    (I := fun w s => LocalRun.Reachable g (view s) ∧ w.graph = g ∧ w.config = config)
    (Q := fun a s => ∀ answer, a = some answer → Concludes g config (view s) answer)
    ?_ ?_ ?_ ?_ ?_ ?_ ?_ polls (.start g config))
  · exact fun w => hgoes w (hc.finished.goesOn fun _ => .refl)
  · intro w
    refine Ensures.of_and ?_
    rintro ⟨hw, rfl⟩
    refine (ensures_finish hb hc henv hw).mono ?_
    intro a s hs answer ha
    exact Option.some.inj ha ▸ hs
  · intro w s hs answer ha
    cases ha
  · exact fun w n => hgoes w (henv.pause n)
  · intro w
    refine (hgoes w henv.cancelled).mono ?_
    intro cancelled s hs
    cases cancelled with
    | true => exact hs.1
    | false => exact hs
  · intro s _ answer ha
    exact Option.some.inj ha ▸ .cancelled
  · intro w
    refine Ensures.of_and ?_
    rintro ⟨hw, hconfig⟩
    refine (ensures_poll hb hc henv hw).mono ?_
    rintro ⟨-, w'⟩ s ⟨⟨hs, hgraph, hconfig'⟩, sample, rfl⟩
    exact ⟨hs, hgraph.trans hw, hconfig'.trans hconfig⟩

theorem prepare_eq_ok {compiler : CompilerConfig} {plan : PhysicalPlan} {group : String}
    (h : Engine.prepare compiler plan group = .ok g) :
    ∃ stages, StageGraph.compile compiler plan = .ok stages ∧ JobGraph.Bound stages g := by
  simp only [Engine.prepare] at h
  split at h
  · cases h
  next stages hstages => exact ⟨stages, hstages, JobGraph.bind_eq_ok h⟩

/-- A launch answers with what is wrong with its plan, or as the watch over its run ends. -/
theorem ensures_launch {e : Engine (StateM S) F} (he : e.IsLocal view) (henv : env.Lets view)
    (polls : Nat) (plan : PhysicalPlan) (group : String) :
    Ensures (fun _ => True) (e.launchWithReport env polls plan group) fun a s =>
      ∀ answer, a = some answer →
        (∃ fault, Engine.prepare e.compiler plan group = .error fault ∧ answer = .error fault) ∨
        answer = .error .cancelled ∨
        ∃ g, Engine.prepare e.compiler plan group = .ok g ∧ Concludes g e.launcher (view s) answer := by
  refine Ensures.launch (A := fun _ _ => True)
    (I := fun g c s => LocalRun.Reachable g (view s) ∧ c.Drives view)
    (W := fun g c a s => (∀ answer, a = some answer → Concludes g e.launcher (view s) answer) ∧
      Engine.prepare e.compiler plan group = .ok g ∧ c.Drives view) ?_ ?_ ?_ ?_ ?_
  · intro fault hprepare s _ answer ha
    exact Or.inl ⟨fault, hprepare, (Option.some.inj ha).symm⟩
  · intro g _ s _
    split
    · exact fun answer ha => Or.inr (Or.inl (Option.some.inj ha).symm)
    · trivial
  · intro g _
    refine (he g).mono ?_
    rintro a s ⟨c, rfl, hdrives, hreach⟩
    exact ⟨hreach, hdrives⟩
  · intro g hprepare c
    refine Ensures.of_and ?_
    intro hdrives
    obtain ⟨stages, -, hb⟩ := prepare_eq_ok hprepare
    refine (ensures_wait hb hdrives henv e.launcher polls).mono ?_
    intro a s hs
    exact ⟨hs, hprepare, hdrives⟩
  · intro g c a
    refine Ensures.of_and ?_
    rintro ⟨hprepare, hdrives⟩ s hs answer ha
    obtain ⟨stages, -, hb⟩ := prepare_eq_ok hprepare
    exact Or.inr (Or.inr ⟨g, hprepare,
      (hs answer ha).steps hb (hdrives.stop.goesOn LocalRun.steps_stop s)⟩)

/-- A launch that answers with a report has seen its run finished. -/
theorem ensures_launchWithReport {e : Engine (StateM S) F} (he : e.IsLocal view)
    (henv : env.Lets view) (polls : Nat) (plan : PhysicalPlan) (group : String) :
    Ensures (fun _ => True) (e.launchWithReport env polls plan group) fun a s =>
      ∀ report, a = some (.ok report) → ∃ g t, Engine.prepare e.compiler plan group = .ok g ∧
        LocalRun.Ended g t (view s) ∧ Outcome e.launcher t report := by
  refine (ensures_launch he henv polls plan group).mono ?_
  intro a s hs report hreport
  rcases hs (.ok report) hreport with ⟨fault, -, hfault⟩ | hcancelled | ⟨g, hprepare, hconcludes⟩
  · cases hfault
  · cases hcancelled
  · cases hconcludes with
    | settled hend hsettles =>
        cases hsettles with
        | report houtcome => exact ⟨g, _, hprepare, hend, houtcome⟩

end Watching
end Dataflow
