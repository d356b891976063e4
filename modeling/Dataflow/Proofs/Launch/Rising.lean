import Dataflow.Proofs.Launch.Growth
import Dataflow.Proofs.Launch.Record
/-!
# What the listener hears

A watch tells its listener of a progress that exceeds the one before.  It remembers the latest alone,
so that what is told could go up and down if the progress did.  But on a local engine the whole never
falls, and what the watch makes of it at a poll is never behind what it was before (`Rising`).  So the
listener hears ascending numbers, however polls and steps of the run alternate; and a report comes
with the latest of them, since the watch looks again before it reports.

**Proved here.**

    a poll tells of more than was told before          (`ensures_poll_rising`)
    a report is of what was told last                  (`ensures_finish_rising`)
    any polls and reports while the run goes on        (`Rising.watches`)
    the progress of local launches                     (`progress_rises`)
-/
namespace Dataflow

/-! ## Records of local launches -/

def Event.notified? {F : Type} : Event F → Option F
  | .notify p => some p
  | _ => none

def Recorded.heard {S F : Type} (s : Recorded S F) : List F := s.log.filterMap Event.notified?

section Recording
variable {S F : Type} [Fraction F] {view : S → LocalRun F}

theorem Asks.recorded {α : Type} {own : StateM (LocalRun F) α} {x : StateM S α}
    (h : Asks view own x) (event : α → Event F) :
    Asks (view ∘ Recorded.state) own (Recorded.call x event) :=
  fun s => h s.state

theorem Control.Drives.recorded {c : Control (StateM S) F} (h : c.Drives view) :
    c.recorded.Drives (view ∘ Recorded.state) where
  finished := h.finished.recorded _
  status j := (h.status j).recorded _
  progress j := (h.progress j).recorded _
  succeeded := h.succeeded.recorded _
  failed := h.failed.recorded _
  stats j := (h.stats j).recorded _
  stop := h.stop.recorded _

omit [Fraction F] in
theorem Recorded.heard_call {α : Type} (x : StateM S α) (event : α → Event F) (s : Recorded S F) :
    (Recorded.call x event s).2.heard = s.heard ++ (event (x s.state).1).notified?.toList := by
  show (s.log ++ [event (x s.state).1]).filterMap Event.notified? = _
  rw [List.filterMap_append, List.filterMap_cons, List.filterMap_nil]
  cases (event (x s.state).1).notified? with
  | none => rfl
  | some p => rfl

theorem ensures_call_heard {α : Type} {P : LocalRun F → List F → Prop}
    (hP : ∀ {r r' heard}, LocalRun.Steps r r' → P r heard → P r' heard) {x : StateM S α}
    (hx : GoesOn view x) {event : α → Event F} (hevent : ∀ a, (event a).notified? = none) :
    Ensures (fun s => P (view s.state) s.heard) (Recorded.call x event)
      fun _ s => P (view s.state) s.heard := by
  intro s hs
  rw [Recorded.heard_call, hevent, Option.toList_none, List.append_nil]
  exact hP (hx s.state) hs

end Recording

/-! ## Polls that rise -/

/-- Where a watch stands when its listener has heard some numbers: they ascend, the watch remembers the
last of them, and the run is not behind it. -/
structure Rising (w : Supervisor Rat) (r : LocalRun Rat) (heard : List Rat) : Prop where
  reachable : LocalRun.Reachable w.graph r
  ascending : heard.Pairwise (· < ·)
  bounded : ∀ p ∈ heard, p ≤ w.tracker.latest
  latest : heard.getLast?.getD (-1) = w.tracker.latest
  reached : w.tracker.latest ≤ r.table.overall w.config.weighting

namespace Rising
variable {w : Supervisor Rat} {r r' : LocalRun Rat} {heard : List Rat}

theorem start {g : JobGraph} (config : LauncherConfig Rat) (hr : LocalRun.Reachable g r) :
    Rising (.start g config) r [] := by
  have hstart : (Tracker.start : Tracker Rat).latest = -1 := by
    show ((0 : Nat) : Rat) - ((1 : Nat) : Rat) = -1
    norm_num
  refine ⟨hr, .nil, fun _ hp => absurd hp List.not_mem_nil, hstart.symm, ?_⟩
  show (Tracker.start : Tracker Rat).latest ≤ _
  rw [hstart]
  exact (neg_nonpos.mpr zero_le_one).trans (r.table.overall_mem _).1

theorem steps (h : Rising w r heard) (hsteps : LocalRun.Steps r r') : Rising w r' heard :=
  ⟨h.reachable.trans hsteps, h.ascending, h.bounded, h.latest,
    h.reached.trans (hsteps.overall_le h.reachable _)⟩

theorem observed (h : Rising w r heard) {p : Rat} (hp : w.tracker.latest ≤ p)
    (hreached : p ≤ r.table.overall w.config.weighting) :
    Rising { w with tracker := ⟨p⟩ } r (if w.tracker.latest < p then heard ++ [p] else heard) := by
  split
  next hlt =>
    refine ⟨h.reachable, ?_, ?_, ?_, hreached⟩
    · refine List.pairwise_append.mpr ⟨h.ascending, List.pairwise_singleton _ _, ?_⟩
      intro q hq p' hp'
      obtain rfl := List.mem_singleton.mp hp'
      exact (h.bounded q hq).trans_lt hlt
    · intro q hq
      rcases List.mem_append.mp hq with hq | hq
      · exact (h.bounded q hq).trans hp
      · exact (List.mem_singleton.mp hq).le
    · rw [List.getLast?_concat]
      rfl
  next hnot =>
    have heq : w.tracker.latest = p := le_antisymm hp (not_lt.mp hnot)
    exact ⟨h.reachable, h.ascending, heq ▸ h.bounded, h.latest.trans heq, hreached⟩

theorem getLast?_eq (h : Rising w r heard) (hnonneg : 0 ≤ w.tracker.latest) :
    heard.getLast? = some w.tracker.latest := by
  have hlatest := h.latest
  cases hlast : heard.getLast? with
  | none =>
      rw [hlast] at hlatest
      have hneg : (-1 : Rat) = w.tracker.latest := hlatest
      linarith
  | some p =>
      rw [hlast] at hlatest
      exact congrArg some hlatest

end Rising

section Watching
variable {S : Type} {view : S → LocalRun Rat} {stages : StageGraph} {g : JobGraph}
  {c : Control (StateM S) Rat} {env : Surroundings (StateM S) Rat} {w : Supervisor Rat}

theorem ensures_call_rising {α : Type} {x : StateM S α} (hx : GoesOn view x) {event : α → Event Rat}
    (hevent : ∀ a, (event a).notified? = none) :
    Ensures (fun s => Rising w (view s.state) s.heard) (Recorded.call x event)
      fun _ s => Rising w (view s.state) s.heard :=
  ensures_call_heard (P := Rising w) (fun hsteps h => h.steps hsteps) hx hevent

theorem ensures_observe_rising (henv : env.Lets view) (p : Rat) :
    Ensures (fun s => Rising w (view s.state) s.heard ∧ w.tracker.latest ≤ p ∧
        p ≤ (view s.state).table.overall w.config.weighting) (w.observe env.recorded p)
      fun a s => Rising a.2 (view s.state) s.heard ∧ a.2.graph = w.graph ∧
        a.2.tracker.latest = p := by
  simp only [Supervisor.observe]
  split
  next hincreased =>
    rintro s ⟨hs, hp, hreached⟩
    have hobserved := hs.observed hp hreached
    rw [if_pos (of_decide_eq_true hincreased)] at hobserved
    have hheard : (env.recorded.notify p s).2.heard = s.heard ++ [p] :=
      Recorded.heard_call (env.notify p) (fun _ => .notify p) s
    refine ⟨?_, rfl, rfl⟩
    show Rising _ (view (env.notify p s.state).2) (env.recorded.notify p s).2.heard
    rw [hheard]
    exact hobserved.steps (henv.notify p s.state)
  next hnot =>
    rintro s ⟨hs, hp, hreached⟩
    have hobserved := hs.observed hp hreached
    rw [if_neg fun hlt => hnot (decide_eq_true hlt)] at hobserved
    exact ⟨hobserved, rfl, rfl⟩

/-- The answer is not behind what was told before, nor ahead of the run. -/
theorem ensures_overallProgress_rising (hb : JobGraph.Bound stages w.graph) (hc : c.Drives view) :
    Ensures (fun s => Rising w (view s.state) s.heard)
      (c.recorded.overallProgress w.config.weighting w.graph) fun a s =>
        ∃ p, (Rising w (view s.state) s.heard ∧ w.tracker.latest ≤ p ∧
          p ≤ (view s.state).table.overall w.config.weighting) ∧ 0 ≤ p ∧ a = .ok p := by
  intro s hs
  obtain ⟨-, p, ha, hlow, hhigh⟩ :=
    ensures_overallProgress_between hb hc.recorded w.config.weighting hs.reachable s .refl
  have hrising := Ensures.overallProgress (P := fun s => Rising w (view s.state) s.heard)
    (E := fun _ s => Rising w (view s.state) s.heard) (g := w.graph) (c := c.recorded)
    (fun job _ => (ensures_call_rising ((hc.progress job.id).goesOn fun _ => .refl)
      fun _ => rfl).orFault) w.config.weighting s hs
  rw [ha] at hrising
  exact ⟨p, ⟨hrising, hs.reached.trans hlow, hhigh⟩, (JobTable.overall_mem _ _).1.trans hlow, ha⟩

/-- A poll tells of more than was told before, or of nothing. -/
theorem ensures_poll_rising (hb : JobGraph.Bound stages w.graph) (hc : c.Drives view)
    (henv : env.Lets view) :
    Ensures (fun s => Rising w (view s.state) s.heard) (w.poll c.recorded env.recorded)
      fun a s => Rising a.2 (view s.state) s.heard ∧ a.2.graph = w.graph := by
  simp only [Supervisor.poll]
  refine (ensures_call_rising (hc.finished.goesOn fun _ => .refl) fun _ => rfl).bind ?_
  intro finished
  refine (ensures_overallProgress_rising hb hc).bind ?_
  intro a
  refine Ensures.of_exists ?_
  intro p
  refine Ensures.of_and ?_
  rintro ⟨-, rfl⟩
  refine (ensures_observe_rising henv p).bind ?_
  intro b
  exact Ensures.pure fun s hs => ⟨hs.1, hs.2.1⟩

/-- A report is of what was told last. -/
theorem ensures_finish_rising (hb : JobGraph.Bound stages w.graph) (hc : c.Drives view)
    (henv : env.Lets view) :
    Ensures (fun s => Rising w (view s.state) s.heard) (w.finish c.recorded env.recorded)
      fun a s => (Rising a.2 (view s.state) s.heard ∧ a.2.graph = w.graph) ∧
        ∀ report, a.1 = .ok report → s.heard.getLast? = some report.progress := by
  simp only [Supervisor.finish]
  refine (ensures_call_rising (hc.finished.goesOn fun _ => .refl) fun _ => rfl).bind ?_
  intro finished
  cases finished with
  | false => exact Ensures.pure fun s hs => ⟨⟨hs, rfl⟩, fun _ ha => by cases ha⟩
  | true =>
      refine (ensures_overallProgress_rising hb hc).bind ?_
      intro a
      refine Ensures.of_exists ?_
      intro p
      refine Ensures.of_and ?_
      rintro ⟨hnonneg, rfl⟩
      refine (ensures_observe_rising henv p).bind ?_
      rintro ⟨-, w'⟩
      refine Ensures.of_and ?_
      rintro ⟨hgraph : w'.graph = w.graph, hlatest : w'.tracker.latest = p⟩
      -- nothing is told from here on
      have hstats : ∀ j, Ensures (fun s => Rising w' (view s.state) s.heard) (c.recorded.stats j)
          (Ensures.OrFault (fun s => Rising w' (view s.state) s.heard)
            fun _ s => Rising w' (view s.state) s.heard) := fun j =>
        (ensures_call_rising ((hc.stats j).goesOn fun _ => .refl) fun _ => rfl).orFault
      refine (Ensures.failures (ensures_call_rising (hc.failed.goesOn fun _ => .refl) fun _ => rfl)
        hstats (fun _ _ hs => hs) w' _ p).bind ?_
      intro failures
      cases failures with
      | error fault => exact Ensures.pure fun s hs => ⟨⟨hs, hgraph⟩, fun _ ha => by cases ha⟩
      | ok failed =>
          have hsucceeded : Ensures (fun s => Rising w' (view s.state) s.heard) c.recorded.succeeded
              fun _ s => Rising w' (view s.state) s.heard :=
            ensures_call_rising (hc.succeeded.goesOn fun _ => .refl) fun _ => rfl
          refine hsucceeded.bind ?_
          intro js
          refine (Ensures.statsOf hstats js).bind ?_
          intro succeeded
          cases succeeded with
          | error fault => exact Ensures.pure fun s hs => ⟨⟨hs, hgraph⟩, fun _ ha => by cases ha⟩
          | ok entries =>
              refine Ensures.pure fun s hs => ⟨⟨hs, hgraph⟩, ?_⟩
              rintro report ⟨⟩
              exact hlatest ▸ hs.getLast?_eq (hlatest ▸ hnonneg)

/-! ## Any polls, any reports -/

/-- What can happen to a watch and the state that it is kept in: the run goes on, the jobs are polled,
a report is asked for. -/
inductive Watches (view : S → LocalRun Rat) (c : Control (StateM S) Rat)
    (env : Surroundings (StateM S) Rat) :
    Supervisor Rat × Recorded S Rat → Supervisor Rat × Recorded S Rat → Prop
  | goesOn {w : Supervisor Rat} {s s' : Recorded S Rat} :
      LocalRun.Steps (view s.state) (view s'.state) → s'.log = s.log →
      Watches view c env (w, s) (w, s')
  | polls (w : Supervisor Rat) (s : Recorded S Rat) : Watches view c env (w, s)
      ((w.poll c.recorded env.recorded s).1.2, (w.poll c.recorded env.recorded s).2)
  | finishes (w : Supervisor Rat) (s : Recorded S Rat) : Watches view c env (w, s)
      ((w.finish c.recorded env.recorded s).1.2, (w.finish c.recorded env.recorded s).2)

/-- A watch over a run of `g` that stands as it should. -/
def WatchRises (view : S → LocalRun Rat) (g : JobGraph)
    (x : Supervisor Rat × Recorded S Rat) : Prop :=
  x.1.graph = g ∧ Rising x.1 (view x.2.state) x.2.heard

theorem Watches.rises {x y : Supervisor Rat × Recorded S Rat} (hb : JobGraph.Bound stages g)
    (hc : c.Drives view) (henv : env.Lets view) (h : Watches view c env x y)
    (hx : WatchRises view g x) : WatchRises view g y := by
  cases h with
  | goesOn hsteps hlog =>
      refine ⟨hx.1, ?_⟩
      rw [Recorded.heard, hlog]
      exact hx.2.steps hsteps
  | polls w s =>
      obtain ⟨rfl, hs⟩ := hx
      obtain ⟨hrising, hgraph⟩ := ensures_poll_rising hb hc henv s hs
      exact ⟨hgraph, hrising⟩
  | finishes w s =>
      obtain ⟨rfl, hs⟩ := hx
      obtain ⟨⟨hrising, hgraph⟩, -⟩ := ensures_finish_rising hb hc henv s hs
      exact ⟨hgraph, hrising⟩

theorem WatchRises.watches {x y : Supervisor Rat × Recorded S Rat} (hb : JobGraph.Bound stages g)
    (hc : c.Drives view) (henv : env.Lets view)
    (h : Relation.ReflTransGen (Watches view c env) x y) (hx : WatchRises view g x) :
    WatchRises view g y := by
  induction h with
  | refl => exact hx
  | tail _ hstep ih => exact hstep.rises hb hc henv ih

/-! ## A whole launch -/

/-- What the listener of a launch has heard by its answer: ascending numbers, up to the progress of the
report if there is one. -/
structure Told (heard : List Rat) (answer : Option (Except Fault (Report Rat))) : Prop where
  ascending : heard.Pairwise (· < ·)
  last : ∀ report, answer = some (.ok report) → heard.getLast? = some report.progress

theorem Rising.told {r : LocalRun Rat} {heard : List Rat} (h : Rising w r heard)
    {answer : Option (Except Fault (Report Rat))}
    (hanswer : ∀ report, answer ≠ some (.ok report)) : Told heard answer :=
  ⟨h.ascending, fun report hreport => absurd hreport (hanswer report)⟩

theorem ensures_wait_rising (hb : JobGraph.Bound stages g) (hc : c.Drives view)
    (henv : env.Lets view) (polls : Nat) (w : Supervisor Rat) :
    Ensures (fun s => Rising w (view s.state) s.heard ∧ w.graph = g)
      (w.wait c.recorded env.recorded polls) fun a s => Told s.heard a.1 := by
  have hquiet : ∀ {α : Type} {x : StateM S α} {event : α → Event Rat} (w : Supervisor Rat),
      GoesOn view x → (∀ a, (event a).notified? = none) →
      Ensures (fun s => Rising w (view s.state) s.heard ∧ w.graph = g) (Recorded.call x event)
        fun _ s => Rising w (view s.state) s.heard ∧ w.graph = g := fun w hx hevent =>
    Ensures.of_and fun hw => (ensures_call_rising hx hevent).mono fun _ _ hs => ⟨hs, hw⟩
  refine Ensures.wait (I := fun w (s : Recorded S Rat) =>
      Rising w (view s.state) s.heard ∧ w.graph = g)
    (K := fun s : Recorded S Rat => s.heard.Pairwise (· < ·))
    (Q := fun a (s : Recorded S Rat) => Told s.heard a) ?_ ?_ ?_ ?_ ?_ ?_ ?_ polls w
  · exact fun w => hquiet w (hc.finished.goesOn fun _ => .refl) fun _ => rfl
  · intro w
    refine Ensures.of_and ?_
    rintro rfl
    refine (ensures_finish_rising hb hc henv).mono ?_
    rintro a s ⟨⟨hs, -⟩, hreport⟩
    exact ⟨hs.ascending, fun report ha => hreport report (Option.some.inj ha)⟩
  · exact fun w s hs => hs.1.told nofun
  · exact fun w n => hquiet w (henv.pause n) fun _ => rfl
  · intro w
    refine (hquiet w henv.cancelled fun _ => rfl).mono ?_
    intro cancelled s hs
    cases cancelled with
    | true => exact hs.1.ascending
    | false => exact hs
  · show Ensures _ (Recorded.call c.stop fun _ => .stop) _
    refine (ensures_call_heard (P := fun _ heard => heard.Pairwise (· < ·)) (fun _ h => h)
      (hc.stop.goesOn LocalRun.steps_stop) fun _ => rfl).mono ?_
    exact fun _ _ hs => ⟨hs, nofun⟩
  · intro w
    refine Ensures.of_and ?_
    rintro rfl
    refine (ensures_poll_rising hb hc henv).mono ?_
    rintro ⟨sample, w'⟩ s ⟨hs, hgraph⟩
    cases sample with
    | ok sample => exact ⟨hs, hgraph⟩
    | error fault => exact hs.told nofun

theorem ensures_launch_rising {e : Engine (StateM S) Rat} (he : e.IsLocal view)
    (henv : env.Lets view) (polls : Nat) (plan : PhysicalPlan) (group : String) :
    Ensures (fun s => s.heard = []) (e.recorded.launchWithReport env.recorded polls plan group)
      fun a s => Told s.heard a := by
  have hnothing : ∀ fault, Told [] (some (.error fault)) := fun fault => ⟨.nil, nofun⟩
  refine Ensures.launch (A := fun _ s => s.heard = [])
    (I := fun g c s => (LocalRun.Reachable g (view s.state) ∧ s.heard = []) ∧
      ∃ c₀ : Control (StateM S) Rat, c = c₀.recorded ∧ c₀.Drives view)
    (W := fun g c a s => Told s.heard a ∧
      ∃ c₀ : Control (StateM S) Rat, c = c₀.recorded ∧ c₀.Drives view) ?_ ?_ ?_ ?_ ?_
  · intro fault _ s hs
    rw [hs]
    exact hnothing fault
  · intro g _
    refine (ensures_call_heard (P := fun _ heard => heard = []) (fun _ h => h) henv.cancelled
      fun _ => rfl).mono ?_
    intro cancelled s hs
    split
    · rw [hs]
      exact hnothing .cancelled
    · exact hs
  · intro g _ s hs
    obtain ⟨c₀, hanswer, hdrives, hreach⟩ := he g s.state trivial
    rw [e.recorded_submit, hanswer]
    refine ⟨⟨hreach, ?_⟩, c₀, rfl, hdrives⟩
    show (s.log ++ [Event.submit g _]).filterMap Event.notified? = []
    rw [List.filterMap_append]
    exact (List.append_nil _).trans hs
  · intro g hprepare c
    refine Ensures.of_and ?_
    rintro ⟨c₀, rfl, hdrives⟩
    obtain ⟨stages, -, hb⟩ := prepare_eq_ok hprepare
    rintro s ⟨hreach, hheard⟩
    have hstart : Rising (.start g e.launcher) (view s.state) s.heard := hheard ▸ .start _ hreach
    exact ⟨ensures_wait_rising hb hdrives henv polls _ s ⟨hstart, rfl⟩, c₀, rfl, hdrives⟩
  · intro g c a
    refine Ensures.of_and ?_
    rintro ⟨c₀, rfl, hdrives⟩
    exact ensures_call_heard (P := fun _ heard => Told heard a) (fun _ h => h)
      (hdrives.stop.goesOn LocalRun.steps_stop) fun _ => rfl

end Watching

/-- The progress of local launches never falls, job by job and on the whole, and is a part of the whole
at all times.  However polls, reports and steps of the run alternate, the listener hears ascending
numbers, the last of which is the progress of the report; so it is with the polls of a launch. -/
theorem progress_rises {S : Type} {view : S → LocalRun Rat} {e : Engine (StateM S) Rat}
    {env : Surroundings (StateM S) Rat} (he : e.IsLocal view) (henv : env.Lets view)
    (plan : PhysicalPlan) (group : String) :
    (∀ g, Engine.prepare e.compiler plan group = .ok g →
      (∀ r r' : LocalRun Rat, LocalRun.Reachable g r → LocalRun.Steps r r' →
        (∀ job ∈ g.jobs, ∃ p p', r.table.progress job.id = .ok p ∧
          r'.table.progress job.id = .ok p' ∧ 0 ≤ p ∧ p ≤ p' ∧ p' ≤ 1) ∧
        ∀ weighting, ∃ p p', (LocalRun.control.overallProgress weighting g r).1 = .ok p ∧
          (LocalRun.control.overallProgress weighting g r').1 = .ok p' ∧
          0 ≤ p ∧ p ≤ p' ∧ p' ≤ 1) ∧
      ∀ (c : Control (StateM S) Rat) (config : LauncherConfig Rat) (s : S), c.Drives view →
        LocalRun.Reachable g (view s) → ∀ w s',
        Relation.ReflTransGen (Watches view c env) (.start g config, ⟨s, []⟩) (w, s') →
        s'.heard.Pairwise (· < ·) ∧
        ∀ report, (w.finish c.recorded env.recorded s').1.1 = .ok report →
          (w.finish c.recorded env.recorded s').2.heard.getLast? = some report.progress) ∧
    ∀ polls s, ∃ log,
      e.recorded.launchWithReport env.recorded polls plan group ⟨s, []⟩ =
        ((e.launchWithReport env polls plan group s).1,
          ⟨(e.launchWithReport env polls plan group s).2, log⟩) ∧
      Told (log.filterMap Event.notified?) (e.launchWithReport env polls plan group s).1 := by
  refine ⟨?_, ?_⟩
  · intro g hprepare
    obtain ⟨stages, -, hb⟩ := prepare_eq_ok hprepare
    refine ⟨?_, ?_⟩
    · intro r r' hr hsteps
      refine ⟨fun job hjob => hsteps.exists_progress hb hr hjob, ?_⟩
      intro weighting
      have hr' : LocalRun.Reachable g r' := hr.trans hsteps
      rw [LocalRun.control_overallProgress hb hr, LocalRun.control_overallProgress hb hr']
      exact ⟨_, _, rfl, rfl, (r.table.overall_mem weighting).1, hsteps.overall_le hr weighting,
        (r'.table.overall_mem weighting).2⟩
    · intro c config s hc hs w s' hwatches
      obtain ⟨hw, hrising⟩ :=
        WatchRises.watches hb hc henv hwatches ⟨rfl, Rising.start config hs⟩
      refine ⟨hrising.ascending, ?_⟩
      subst hw
      exact (ensures_finish_rising hb hc henv s' hrising).2
  · intro polls s
    obtain ⟨log, hlog⟩ := exists_recorded_launchWithReport env e polls plan group s
    have htold := ensures_launch_rising he henv polls plan group ⟨s, []⟩ rfl
    rw [hlog] at htold
    exact ⟨log, hlog, htold⟩

/-! A watch over a job that reports half of its work, then less than nothing, and succeeds. -/

/-- A poll, after which the run goes on by `f`. -/
def look (f : LocalRun Rat → LocalRun Rat) (x : Supervisor Rat × Recorded (LocalRun Rat) Rat) :
    Supervisor Rat × Recorded (LocalRun Rat) Rat :=
  let polled := x.1.poll LocalRun.control.recorded boasting.recorded x.2
  (polled.1.2, { polled.2 with state := f polled.2.state })

theorem watches_look {f : LocalRun Rat → LocalRun Rat} (hf : ∀ r, LocalRun.Steps r (f r))
    (x : Supervisor Rat × Recorded (LocalRun Rat) Rat) :
    Relation.ReflTransGen (Watches id LocalRun.control boasting) x (look f x) :=
  (Relation.ReflTransGen.single (.polls x.1 x.2)).tail (.goesOn (hf _) rfl)

/-- The job has reported half of its work, and less than nothing after that. -/
def wavering (r : LocalRun Rat) : LocalRun Rat := (r.settle.report ⟨1⟩ (1 / 2)).report ⟨1⟩ (-7)

theorem steps_wavering (r : LocalRun Rat) : LocalRun.Steps r (wavering r) :=
  ((LocalRun.steps_settle r).tail (.report _ _ _)).tail (.report _ _ _)

/-- The watch and its state after two polls. -/
def looks : Supervisor Rat × Recorded (LocalRun Rat) Rat :=
  look (fun r => r.finishJob ⟨1⟩ (.ok {}))
    (look wavering (.start loneJobs bareEngine.launcher, ⟨.ofGraph loneJobs, []⟩))

theorem looks_rise :
    Engine.prepare {} lone "g" = .ok loneJobs ∧
    (∀ job ∈ loneJobs.jobs, ∃ p p', (LocalRun.ofGraph loneJobs).table.progress job.id = .ok p ∧
      (wavering (.ofGraph loneJobs)).table.progress job.id = .ok p' ∧ 0 ≤ p ∧ p ≤ p' ∧ p' ≤ 1) ∧
    looks.2.heard = [0, 1 / 2] ∧ looks.2.heard.Pairwise (· < ·) ∧
    (∃ report, (looks.1.finish LocalRun.control.recorded boasting.recorded looks.2).1.1 =
        .ok report ∧
      (looks.1.finish LocalRun.control.recorded boasting.recorded looks.2).2.heard.getLast? =
        some report.progress) ∧
    (looks.1.finish LocalRun.control.recorded boasting.recorded looks.2).2.heard = [0, 1 / 2, 1] ∧
    ∃ log, bareEngine.recorded.launchWithReport boasting.recorded 1 lone "g"
        ⟨.ofGraph ⟨"g", []⟩, []⟩ = (boast.1, ⟨boast.2, log⟩) ∧
      Told (log.filterMap Event.notified?) boast.1 := by
  have hlooks : Relation.ReflTransGen (Watches id LocalRun.control boasting)
      (.start loneJobs bareEngine.launcher, ⟨.ofGraph loneJobs, []⟩) looks :=
    (watches_look steps_wavering _).trans
      (watches_look (fun r => LocalRun.steps_finishJob r ⟨1⟩ (.ok {})) _)
  obtain ⟨hjobs, hlaunch⟩ := progress_rises (e := bareEngine) (isLocal_runEngine _)
    (lets_pausing (steps_failAt _ _)) lone "g"
  obtain ⟨hparts, hheard⟩ := hjobs loneJobs prepare_lone
  obtain ⟨hrising, hreport⟩ := hheard LocalRun.control bareEngine.launcher (.ofGraph loneJobs)
    LocalRun.drives_control .refl _ _ hlooks
  refine ⟨prepare_lone, (hparts _ _ .refl (steps_wavering _)).1, by cbv, hrising, ?_, by cbv,
    hlaunch 1 (.ofGraph ⟨"g", []⟩)⟩
  have hfinish : (looks.1.finish LocalRun.control.recorded boasting.recorded looks.2).1.1.map
      Report.progress = .ok 1 := by cbv
  cases hanswer : (looks.1.finish LocalRun.control.recorded boasting.recorded looks.2).1.1 with
  | error fault =>
      rw [hanswer] at hfinish
      cases hfinish
  | ok report => exact ⟨report, rfl, hreport report hanswer⟩

end Dataflow
