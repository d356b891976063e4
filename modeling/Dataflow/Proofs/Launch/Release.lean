import Dataflow.Proofs.Launch.Preparing
import Dataflow.Proofs.Launch.Record
/-!
# The release of submitted jobs

A launch has many ends: the plan is refused, the launch is cancelled before it has begun or between
two polls, the engine refuses the jobs, the control hands back a fault in the middle of a poll or of
the report, the jobs contradict themselves, the caller gives up.  What a launch has called by then is
on record, and all records have one of four forms (`Exit`): nothing is submitted in vain, and what was
submitted is stopped in the end and not asked any more.

**Proved here.**

    waiting keeps to questions, and stops only at its end    (`ensures_wait_recorded`)
    the record of a launch, and of its answer                (`launch_releases`)
-/
namespace Dataflow
variable {S F : Type}

/-! ## What a record says -/

/-- Whether a call belongs to the watch over jobs that are running: it asks about the jobs or the
launch, or tells of progress, and neither submits jobs nor stops them. -/
def Event.watches : Event F → Bool
  | .submit _ _ => false
  | .stop => false
  | _ => true

def Event.fault? : Event F → Option Fault
  | .submit _ (.error fault) => some fault
  | .status _ (.error fault) => some fault
  | .progress _ (.error fault) => some fault
  | .stats _ (.error fault) => some fault
  | _ => none

/-- Whether the jobs were found finished, when a call has asked for that. -/
def Event.finished? : Event F → Option Bool
  | .finished answer => some answer
  | _ => none

/-- The record of a launch that has submitted the jobs of `g`, has watched them, and has stopped them
`n` times after that. -/
def Watched (g : JobGraph) (n : Nat) (log : List (Event F)) : Prop :=
  ∃ watched, log = [.cancelled false, .submit g (.ok ())] ++ watched ++ List.replicate n .stop ∧
    ∀ ev ∈ watched, ev.watches = true

/-- The ways in which a launch goes, by what its plan is prepared as.  Nothing is submitted when the
plan is refused or the launch is cancelled already; otherwise the jobs are submitted once, and if the
engine accepts them, they are watched, then stopped, and not asked about after that. -/
inductive Exit (prepared : Except Fault JobGraph) :
    List (Event F) → Option (Except Fault (Report F)) → Prop
  | unprepared {fault : Fault} : prepared = .error fault → Exit prepared [] (some (.error fault))
  | cancelled {g : JobGraph} : prepared = .ok g →
      Exit prepared [.cancelled true] (some (.error .cancelled))
  | refused {g : JobGraph} {fault : Fault} : prepared = .ok g →
      Exit prepared [.cancelled false, .submit g (.error fault)] (some (.error fault))
  | released {g : JobGraph} {n : Nat} {log : List (Event F)}
      {answer : Option (Except Fault (Report F))} : prepared = .ok g → Watched g (n + 1) log →
      Exit prepared log answer

/-- A fault was handed back by the engine or by the control. -/
def HandedBack (log : List (Event F)) (fault : Fault) : Prop := ∃ ev ∈ log, ev.fault? = some fault

/-- The latest look at whether the jobs are finished has found that they are. -/
def FoundFinished (log : List (Event F)) : Prop :=
  (log.filterMap Event.finished?).getLast? = some true

/-- An answer that a record bears out: a launch is called cancelled when it was found cancelled, or
when that is what the engine or the control has handed back, and a report is made when the jobs were
found finished. -/
structure Founded (log : List (Event F)) (answer : Option (Except Fault (Report F))) : Prop where
  cancelled : answer = some (.error .cancelled) → .cancelled true ∈ log ∨ HandedBack log .cancelled
  finished : ∀ report, answer = some (.ok report) → FoundFinished log

section Records
variable {log : List (Event F)} {answer : Option (Except Fault (Report F))}

theorem HandedBack.append {fault : Fault} (h : HandedBack log fault) (rest : List (Event F)) :
    HandedBack (log ++ rest) fault := by
  obtain ⟨ev, hev, hfault⟩ := h
  exact ⟨ev, List.mem_append_left rest hev, hfault⟩

theorem FoundFinished.append (h : FoundFinished log) {ev : Event F} (hev : ev.finished? = none) :
    FoundFinished (log ++ [ev]) := by
  rw [FoundFinished, List.filterMap_append, List.filterMap_cons_none hev, List.filterMap_nil,
    List.append_nil]
  exact h

theorem Founded.of_error {fault : Fault} (h : fault = .cancelled → HandedBack log fault) :
    Founded log (some (.error fault)) where
  cancelled := by
    rintro ⟨⟩
    exact Or.inr (h rfl)
  finished _ := nofun

theorem Founded.of_ok {report : Report F} (h : FoundFinished log) :
    Founded log (some (.ok report)) where
  cancelled := nofun
  finished _ _ := h

theorem Founded.none : Founded log none where
  cancelled := nofun
  finished _ := nofun

theorem Founded.stop (h : Founded log answer) : Founded (log ++ [.stop]) answer where
  cancelled ha := (h.cancelled ha).imp (List.mem_append_left _) (HandedBack.append · _)
  finished report ha := (h.finished report ha).append rfl

theorem Watched.append {g : JobGraph} (h : Watched g 0 log) {ev : Event F}
    (hev : ev.watches = true) : Watched g 0 (log ++ [ev]) := by
  obtain ⟨watched, rfl, hwatched⟩ := h
  refine ⟨watched ++ [ev], by simp, ?_⟩
  intro ev' hev'
  rcases List.mem_append.mp hev' with hev' | hev'
  · exact hwatched ev' hev'
  · exact List.mem_singleton.mp hev' ▸ hev

theorem Watched.stop {g : JobGraph} {n : Nat} (h : Watched g n log) :
    Watched g (n + 1) (log ++ [.stop]) := by
  obtain ⟨watched, rfl, hwatched⟩ := h
  exact ⟨watched, by rw [List.replicate_succ', ← List.append_assoc], hwatched⟩

end Records

/-! ## Questions on record -/

/-- A property of records that goes on to hold while the jobs are watched, as long as nobody looks
whether they are finished. -/
def Outlasts (J : List (Event F) → Prop) : Prop :=
  ∀ log ev, J log → ev.watches = true → ev.finished? = none → J (log ++ [ev])

theorem outlasts_watched (g : JobGraph) : Outlasts (Watched g 0 : List (Event F) → Prop) :=
  fun _ _ h hev _ => h.append hev

theorem outlasts_finished (g : JobGraph) :
    Outlasts fun log : List (Event F) => Watched g 0 log ∧ FoundFinished log :=
  fun _ _ h hev hfin => ⟨h.1.append hev, h.2.append hfin⟩

/-- An answer with a record that has `J`: if it is that the launch was cancelled, that was handed
back. -/
abbrev Passes {α : Type} (J : List (Event F) → Prop) : Except Fault α → Recorded S F → Prop :=
  Ensures.OrFault (fun s => J s.log) fun fault s =>
    J s.log ∧ (fault = .cancelled → HandedBack s.log fault)

section Questions
variable {J : List (Event F) → Prop} {α : Type}

theorem ensures_call {P : Recorded S F → Prop} {Q : α → Recorded S F → Prop} {x : StateM S α}
    {event : α → Event F} (h : ∀ s a state, P s → Q a ⟨state, s.log ++ [event a]⟩) :
    Ensures P (Recorded.call x event) Q :=
  fun s hs => h s _ _ hs

theorem ensures_question (hJ : Outlasts J) {x : StateM S (Except Fault α)}
    {event : Except Fault α → Event F} (hwatches : ∀ a, (event a).watches = true)
    (hfinished : ∀ a, (event a).finished? = none)
    (hfault : ∀ fault, (event (.error fault)).fault? = some fault) :
    Ensures (fun s => J s.log) (Recorded.call x event) (Passes J) := by
  refine ensures_call ?_
  intro s a _ hs
  have hlog := hJ s.log _ hs (hwatches a) (hfinished a)
  cases a with
  | ok _ => exact hlog
  | error fault =>
      exact ⟨hlog, fun _ => ⟨_, List.mem_append_right s.log List.mem_cons_self, hfault fault⟩⟩

theorem ensures_plain (hJ : Outlasts J) {x : StateM S α} {event : α → Event F}
    (hwatches : ∀ a, (event a).watches = true) (hfinished : ∀ a, (event a).finished? = none) :
    Ensures (fun s => J s.log) (Recorded.call x event) fun _ s => J s.log :=
  ensures_call fun s a _ hs => hJ s.log _ hs (hwatches a) (hfinished a)

end Questions

/-! ## Watching on record -/

section Launches
variable [Fraction F] {J : List (Event F) → Prop} (c : Control (StateM S) F)
  (env : Surroundings (StateM S) F)

theorem ensures_overallProgress_recorded (hJ : Outlasts J) (w : Weighting) (g : JobGraph) :
    Ensures (fun s => J s.log) (c.recorded.overallProgress w g) (Passes J) :=
  Ensures.overallProgress
    (fun _ _ => ensures_question hJ (fun _ => rfl) (fun _ => rfl) fun _ => rfl) w

omit [Fraction F] in
theorem ensures_statsOf_recorded (hJ : Outlasts J) (js : List JobId) :
    Ensures (fun s => J s.log) (c.recorded.statsOf js) (Passes J) :=
  Ensures.statsOf (fun _ => ensures_question hJ (fun _ => rfl) (fun _ => rfl) fun _ => rfl) js

theorem ensures_observe_recorded (hJ : Outlasts J) (w : Supervisor F) (p : F) :
    Ensures (fun s => J s.log) (w.observe env.recorded p) fun _ s => J s.log :=
  (Ensures.observe w p (ensures_plain hJ (fun _ => rfl) fun _ => rfl)).mono fun _ _ hs => hs.1

omit [Fraction F] in
theorem ensures_finished_recorded (g : JobGraph) :
    Ensures (fun s => Watched g 0 s.log) c.recorded.finished fun a s =>
      Watched g 0 s.log ∧ (a = true → FoundFinished s.log) := by
  refine ensures_call ?_
  rintro s a _ hs
  refine ⟨hs.append rfl, ?_⟩
  rintro rfl
  rw [FoundFinished, List.filterMap_append]
  exact List.getLast?_concat

theorem ensures_poll_recorded (g : JobGraph) (w : Supervisor F) :
    Ensures (fun s => Watched g 0 s.log) (w.poll c.recorded env.recorded)
      fun a => Passes (Watched g 0) a.1 := by
  simp only [Supervisor.poll]
  refine (ensures_finished_recorded c g).bind ?_
  intro finished
  refine Ensures.of_imp (fun _ hs => hs.1) ?_
  refine (ensures_overallProgress_recorded c (outlasts_watched g) _ _).bind ?_
  intro a
  cases a with
  | error fault => exact Ensures.pure fun _ hs => hs
  | ok p =>
      refine (ensures_observe_recorded env (outlasts_watched g) w p).bind ?_
      intro b
      exact Ensures.pure fun _ hs => hs

theorem ensures_failures_recorded (hJ : Outlasts J) (w : Supervisor F) (completed : Bool) (p : F) :
    Ensures (fun s => J s.log) (w.failures c.recorded completed p) (Passes J) :=
  Ensures.failures (ensures_plain hJ (fun _ => rfl) fun _ => rfl)
    (fun _ => ensures_question hJ (fun _ => rfl) (fun _ => rfl) fun _ => rfl)
    (fun _ _ hs => ⟨hs, nofun⟩) w completed p

theorem ensures_finish_recorded (g : JobGraph) (w : Supervisor F) :
    Ensures (fun s => Watched g 0 s.log) (w.finish c.recorded env.recorded)
      fun a s => Watched g 0 s.log ∧ Founded s.log (some a.1) := by
  have hJ := outlasts_finished (F := F) g
  simp only [Supervisor.finish]
  refine (ensures_finished_recorded c g).bind ?_
  intro finished
  cases finished with
  | false => exact Ensures.pure fun _ hs => ⟨hs.1, .of_error fun ha => by cases ha⟩
  | true =>
      refine Ensures.of_imp (fun s hs => (⟨hs.1, hs.2 rfl⟩ :
        Watched g 0 s.log ∧ FoundFinished s.log)) ?_
      refine (ensures_overallProgress_recorded c hJ _ _).bind ?_
      intro a
      cases a with
      | error fault => exact Ensures.pure fun _ hs => ⟨hs.1.1, .of_error hs.2⟩
      | ok p =>
          refine (ensures_observe_recorded env hJ w p).bind ?_
          rintro ⟨-, w'⟩
          refine (ensures_failures_recorded c hJ w' _ p).bind ?_
          intro failures
          cases failures with
          | error fault => exact Ensures.pure fun _ hs => ⟨hs.1.1, .of_error hs.2⟩
          | ok failed =>
              have hsucceeded : Ensures (fun s => Watched g 0 s.log ∧ FoundFinished s.log)
                  c.recorded.succeeded fun _ s => Watched g 0 s.log ∧ FoundFinished s.log :=
                ensures_plain hJ (fun _ => rfl) fun _ => rfl
              refine hsucceeded.bind ?_
              intro js
              refine (ensures_statsOf_recorded c hJ js).bind ?_
              intro succeeded
              cases succeeded with
              | error fault => exact Ensures.pure fun _ hs => ⟨hs.1.1, .of_error hs.2⟩
              | ok entries => exact Ensures.pure fun _ hs => ⟨hs.1, .of_ok hs.2⟩

/-- Waiting asks and tells, and stops the jobs only when it has found the launch cancelled. -/
theorem ensures_wait_recorded (g : JobGraph) (polls : Nat) (w : Supervisor F) :
    Ensures (fun s => Watched g 0 s.log) (w.wait c.recorded env.recorded polls)
      fun a s => (∃ n, Watched g n s.log) ∧ Founded s.log a.1 := by
  refine Ensures.wait (I := fun _ (s : Recorded S F) => Watched g 0 s.log)
    (K := fun s : Recorded S F => Watched g 0 s.log ∧ .cancelled true ∈ s.log)
    (Q := fun a (s : Recorded S F) => (∃ n, Watched g n s.log) ∧ Founded s.log a)
    ?_ ?_ ?_ ?_ ?_ ?_ ?_ polls w
  · exact fun w => (ensures_finished_recorded c g).mono fun _ _ hs => hs.1
  · exact fun w => (ensures_finish_recorded c env g w).mono fun _ _ hs => ⟨⟨0, hs.1⟩, hs.2⟩
  · exact fun w s hs => ⟨⟨0, hs⟩, .none⟩
  · exact fun w n => ensures_call fun _ _ _ hs => hs.append rfl
  · intro w
    refine ensures_call ?_
    intro s cancelled _ hs
    cases cancelled with
    | true => exact ⟨hs.append rfl, List.mem_append_right s.log List.mem_cons_self⟩
    | false => exact hs.append rfl
  · show Ensures _ (Recorded.call c.stop fun _ => .stop) _
    refine ensures_call ?_
    rintro s - _ ⟨hwatched, hcancelled⟩
    exact ⟨⟨1, hwatched.stop⟩, fun _ => Or.inl (List.mem_append_left _ hcancelled), nofun⟩
  · intro w
    refine (ensures_poll_recorded c env g w).mono ?_
    rintro ⟨sample, w'⟩ s hs
    cases sample with
    | ok sample => exact hs
    | error fault => exact ⟨⟨0, hs.1⟩, .of_error hs.2⟩

/-! ## A whole launch -/

variable (e : Engine (StateM S) F) (polls : Nat) (plan : PhysicalPlan) (group : String)

theorem ensures_launch_recorded :
    Ensures (fun s => s.log = []) (e.recorded.launchWithReport env.recorded polls plan group)
      fun a s => Exit (Engine.prepare e.compiler plan group) s.log a ∧ Founded s.log a := by
  refine Ensures.launch (A := fun _ s => s.log = [.cancelled false])
    (I := fun g c s => Watched g 0 s.log ∧ ∃ c₀ : Control (StateM S) F, c = c₀.recorded)
    (W := fun g c a s => ((∃ n, Watched g n s.log) ∧ Founded s.log a) ∧
      Engine.prepare e.compiler plan group = .ok g ∧
        ∃ c₀ : Control (StateM S) F, c = c₀.recorded) ?_ ?_ ?_ ?_ ?_
  · intro fault hprepare s hs
    rw [hs]
    refine ⟨.unprepared hprepare, .of_error ?_⟩
    rintro rfl
    -- what is wrong with a plan is never called cancelled
    have hcode := code_of_prepare_eq_error hprepare
    simp [ErrorCode.ofPlans, Fault.code] at hcode
  · intro g hprepare
    refine ensures_call ?_
    intro s cancelled _ hs
    rw [hs]
    cases cancelled with
    | true => exact ⟨.cancelled hprepare, fun _ => Or.inl List.mem_cons_self, nofun⟩
    | false => rfl
  · intro g hprepare s hs
    rw [e.recorded_submit, hs]
    cases (e.submit g s.state).1 with
    | error fault =>
        refine ⟨.refused hprepare, .of_error ?_⟩
        rintro rfl
        exact ⟨_, List.mem_cons_of_mem _ List.mem_cons_self, rfl⟩
    | ok c₀ => exact ⟨⟨[], rfl, fun _ hev => absurd hev List.not_mem_nil⟩, c₀, rfl⟩
  · intro g hprepare c
    refine Ensures.of_and ?_
    rintro ⟨c₀, rfl⟩
    exact (ensures_wait_recorded c₀ env g polls _).mono fun _ _ hs => ⟨hs, hprepare, c₀, rfl⟩
  · intro g c a
    refine Ensures.of_and ?_
    rintro ⟨hprepare, c₀, rfl⟩
    show Ensures _ (Recorded.call c₀.stop fun _ => .stop) _
    refine ensures_call ?_
    rintro s - _ ⟨⟨n, hwatched⟩, hfounded⟩
    exact ⟨.released hprepare hwatched.stop, hfounded.stop⟩

/-- However a launch goes, what it has submitted is stopped before it answers, and is not asked about
after that.  Putting a launch on record leaves its answer and its state as they are. -/
theorem launch_releases (s : S) : ∃ log,
    e.recorded.launchWithReport env.recorded polls plan group ⟨s, []⟩ =
      ((e.launchWithReport env polls plan group s).1,
        ⟨(e.launchWithReport env polls plan group s).2, log⟩) ∧
    Exit (Engine.prepare e.compiler plan group) log
      (e.launchWithReport env polls plan group s).1 ∧
    Founded log (e.launchWithReport env polls plan group s).1 := by
  obtain ⟨log, hlog⟩ := exists_recorded_launchWithReport env e polls plan group s
  have hexit := ensures_launch_recorded env e polls plan group ⟨s, []⟩ rfl
  rw [hlog] at hexit
  exact ⟨log, hlog, hexit.1, hexit.2⟩

end Launches
end Dataflow
