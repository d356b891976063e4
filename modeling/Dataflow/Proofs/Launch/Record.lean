import Dataflow.Proofs.Launch.Ensures
/-!
# Launches on record

What a launch asks for, and when, can be read off a record of its calls.  The record is kept beside
the state: an engine, the controls that it hands back and the surroundings put each call on record,
with the answer to it, and otherwise do what they do without (`Control.recorded`, `Engine.recorded`,
`Surroundings.recorded`).  So a launch on record comes to the same answer and the same state.

**Proved here.**

    a launch on record is the launch    (`recorded_launchWithReport`, `exists_recorded_launchWithReport`)
-/
namespace Dataflow

/-- A call that a launch makes, with the answer to it. -/
inductive Event (F : Type) where
  | cancelled (answer : Bool)
  | submit (g : JobGraph) (answer : Except Fault Unit)
  | finished (answer : Bool)
  | status (j : JobId) (answer : Except Fault JobStatus)
  | progress (j : JobId) (answer : Except Fault F)
  | succeeded (answer : List JobId)
  | failed (answer : List JobId)
  | stats (j : JobId) (answer : Except Fault JobStats)
  | stop
  | notify (progress : F)
  | pause (length : Nat) (answer : Bool)

/-- A state, and the calls on the way to it. -/
structure Recorded (S F : Type) where
  state : S
  log : List (Event F)

section Recording
variable {S F α β : Type}

def Recorded.call (x : StateM S α) (event : α → Event F) : StateM (Recorded S F) α :=
  fun s => ((x s.state).1, ⟨(x s.state).2, s.log ++ [event (x s.state).1]⟩)

/-- The control whose calls are put on record. -/
def Control.recorded (c : Control (StateM S) F) : Control (StateM (Recorded S F)) F where
  finished := Recorded.call c.finished .finished
  status j := Recorded.call (c.status j) (.status j)
  progress j := Recorded.call (c.progress j) (.progress j)
  succeeded := Recorded.call c.succeeded .succeeded
  failed := Recorded.call c.failed .failed
  stats j := Recorded.call (c.stats j) (.stats j)
  stop := Recorded.call c.stop fun _ => .stop

/-- The surroundings whose calls are put on record. -/
def Surroundings.recorded (env : Surroundings (StateM S) F) :
    Surroundings (StateM (Recorded S F)) F where
  notify p := Recorded.call (env.notify p) fun _ => .notify p
  pause n := Recorded.call (env.pause n) (.pause n)
  cancelled := Recorded.call env.cancelled .cancelled

/-- The engine whose calls, and those of the controls that it hands back, are put on record. -/
def Engine.recorded (e : Engine (StateM S) F) : Engine (StateM (Recorded S F)) F where
  compiler := e.compiler
  launcher := e.launcher
  submit g := fun s =>
    (Control.recorded <$> (Recorded.call (e.submit g)
      (fun a => .submit g ((fun _ => ()) <$> a)) s).1,
      (Recorded.call (e.submit g) (fun a => .submit g ((fun _ => ()) <$> a)) s).2)

theorem Engine.recorded_submit (e : Engine (StateM S) F) (g : JobGraph) (s : Recorded S F) :
    e.recorded.submit g s = (Control.recorded <$> (e.submit g s.state).1,
      ⟨(e.submit g s.state).2, s.log ++ [.submit g ((fun _ => ()) <$> (e.submit g s.state).1)]⟩) :=
  rfl

/-! ## The record changes nothing -/

/-- An action on record that comes to an answer related to that of the action itself, and to the same
state. -/
def Mirrors (R : α → β → Prop) (x : StateM S α) (y : StateM (Recorded S F) β) : Prop :=
  ∀ s, R (x s.state).1 (y s).1 ∧ (y s).2.state = (x s.state).2

namespace Mirrors
variable {α' β' : Type} {R : α → β → Prop} {R' : α' → β' → Prop} {x : StateM S α}
  {y : StateM (Recorded S F) β}

theorem pure {a : α} {b : β} (h : R a b) :
    Mirrors R (Pure.pure a : StateM S α) (Pure.pure b : StateM (Recorded S F) β) :=
  fun _ => ⟨h, rfl⟩

theorem call (x : StateM S α) (event : α → Event F) : Mirrors Eq x (Recorded.call x event) :=
  fun _ => ⟨rfl, rfl⟩

theorem bind {f : α → StateM S α'} {f' : β → StateM (Recorded S F) β'} (h : Mirrors R x y)
    (hf : ∀ a b, R a b → Mirrors R' (f a) (f' b)) : Mirrors R' (x >>= f) (y >>= f') := by
  intro s
  obtain ⟨hanswer, hstate⟩ := h s
  have hrest := hf _ _ hanswer (y s).2
  rw [hstate] at hrest
  exact hrest

end Mirrors

section Launches
variable [Fraction F] (c : Control (StateM S) F) (env : Surroundings (StateM S) F)

theorem mirrors_addProgress (w : Weighting) (jobs : List Job) (done total : F) :
    Mirrors Eq (c.addProgress w jobs done total) (c.recorded.addProgress w jobs done total) := by
  induction jobs generalizing done total with
  | nil => exact .pure rfl
  | cons job jobs ih =>
      simp only [Control.addProgress]
      refine (Mirrors.call _ _).bind ?_
      rintro a _ rfl
      cases a with
      | ok p => exact ih _ _
      | error fault => exact .pure rfl

theorem mirrors_overallProgress (w : Weighting) (g : JobGraph) :
    Mirrors Eq (c.overallProgress w g) (c.recorded.overallProgress w g) := by
  simp only [Control.overallProgress]
  split
  · exact .pure rfl
  · refine (mirrors_addProgress c w g.jobs _ _).bind ?_
    rintro a _ rfl
    cases a with
    | ok sums => exact .pure rfl
    | error fault => exact .pure rfl

omit [Fraction F] in
theorem mirrors_statsOf (js : List JobId) : Mirrors Eq (c.statsOf js) (c.recorded.statsOf js) := by
  induction js with
  | nil => exact .pure rfl
  | cons j js ih =>
      simp only [Control.statsOf]
      refine (Mirrors.call _ _).bind ?_
      rintro a _ rfl
      cases a with
      | error fault => exact .pure rfl
      | ok entry =>
          refine ih.bind ?_
          rintro b _ rfl
          cases b with
          | ok entries => exact .pure rfl
          | error fault => exact .pure rfl

theorem mirrors_observe (w : Supervisor F) (p : F) :
    Mirrors Eq (w.observe env p) (w.observe env.recorded p) := by
  simp only [Supervisor.observe]
  split
  · refine (Mirrors.call (env.notify p) fun _ => .notify p).bind ?_
    rintro _ _ rfl
    exact .pure rfl
  · exact .pure rfl

theorem mirrors_poll (w : Supervisor F) :
    Mirrors Eq (w.poll c env) (w.poll c.recorded env.recorded) := by
  simp only [Supervisor.poll]
  refine (Mirrors.call _ _).bind ?_
  rintro finished _ rfl
  refine (mirrors_overallProgress c _ _).bind ?_
  rintro a _ rfl
  cases a with
  | error fault => exact .pure rfl
  | ok p =>
      refine (mirrors_observe env w p).bind ?_
      rintro b _ rfl
      exact .pure rfl

theorem mirrors_failures (w : Supervisor F) (completed : Bool) (p : F) :
    Mirrors Eq (w.failures c completed p) (w.failures c.recorded completed p) := by
  simp only [Supervisor.failures]
  split
  · exact .pure rfl
  · refine (Mirrors.call _ _).bind ?_
    rintro failed _ rfl
    split
    · exact .pure rfl
    · exact mirrors_statsOf c failed

theorem mirrors_finish (w : Supervisor F) :
    Mirrors Eq (w.finish c env) (w.finish c.recorded env.recorded) := by
  simp only [Supervisor.finish]
  refine (Mirrors.call _ _).bind ?_
  rintro finished _ rfl
  split
  · exact .pure rfl
  · refine (mirrors_overallProgress c _ _).bind ?_
    rintro a _ rfl
    cases a with
    | error fault => exact .pure rfl
    | ok p =>
        refine (mirrors_observe env w p).bind ?_
        rintro b _ rfl
        refine (mirrors_failures c _ _ _).bind ?_
        rintro failures _ rfl
        cases failures with
        | error fault => exact .pure rfl
        | ok failed =>
            refine (Mirrors.call _ _).bind ?_
            rintro js _ rfl
            refine (mirrors_statsOf c js).bind ?_
            rintro succeeded _ rfl
            cases succeeded with
            | error fault => exact .pure rfl
            | ok entries => exact .pure rfl

theorem mirrors_wait (polls : Nat) (w : Supervisor F) :
    Mirrors Eq (w.wait c env polls) (w.wait c.recorded env.recorded polls) := by
  have hfinish : ∀ w : Supervisor F, Mirrors Eq
      (w.finish c env >>= fun a => pure (some a.1, a.2))
      (w.finish c.recorded env.recorded >>= fun a => pure (some a.1, a.2)) := by
    intro w
    refine (mirrors_finish c env w).bind ?_
    rintro a _ rfl
    exact .pure rfl
  induction polls generalizing w with
  | zero =>
      simp only [Supervisor.wait]
      refine (Mirrors.call _ _).bind ?_
      rintro finished _ rfl
      split
      · exact hfinish w
      · exact .pure rfl
  | succ polls ih =>
      simp only [Supervisor.wait]
      refine (Mirrors.call _ _).bind ?_
      rintro finished _ rfl
      split
      · exact hfinish w
      · refine (Mirrors.call _ _).bind ?_
        rintro paused _ rfl
        split
        · exact .pure rfl
        · refine (Mirrors.call _ _).bind ?_
          rintro cancelled _ rfl
          split
          · refine (Mirrors.call c.stop fun _ => .stop).bind ?_
            rintro _ _ rfl
            exact .pure rfl
          · refine (mirrors_poll c env w).bind ?_
            rintro ⟨sample, w'⟩ _ rfl
            cases sample with
            | error fault => exact .pure rfl
            | ok sample => exact ih w'

omit [Fraction F] in
theorem mirrors_submit (e : Engine (StateM S) F) (g : JobGraph) :
    Mirrors (fun a b => b = Control.recorded <$> a) (e.submit g) (e.recorded.submit g) :=
  fun _ => ⟨rfl, rfl⟩

theorem mirrors_submitPlan (e : Engine (StateM S) F) (plan : PhysicalPlan) (group : String) :
    Mirrors (fun a b => b = (fun started => (started.1.recorded, started.2)) <$> a)
      (e.submitPlan env plan group) (e.recorded.submitPlan env.recorded plan group) := by
  have hcompiler : e.recorded.compiler = e.compiler := rfl
  simp only [Engine.submitPlan, hcompiler]
  cases Engine.prepare e.compiler plan group with
  | error fault => exact .pure rfl
  | ok g =>
      refine (Mirrors.call env.cancelled .cancelled).bind ?_
      rintro cancelled _ rfl
      split
      · exact .pure rfl
      · refine (mirrors_submit e g).bind ?_
        rintro a _ rfl
        cases a with
        | error fault => exact .pure rfl
        | ok c => exact .pure rfl

/-- A launch on record comes to the answer and to the state of the launch itself. -/
theorem recorded_launchWithReport (e : Engine (StateM S) F) (polls : Nat) (plan : PhysicalPlan)
    (group : String) : Mirrors Eq (e.launchWithReport env polls plan group)
      (e.recorded.launchWithReport env.recorded polls plan group) := by
  simp only [Engine.launchWithReport]
  refine (mirrors_submitPlan env e plan group).bind ?_
  rintro a _ rfl
  cases a with
  | error fault => exact .pure rfl
  | ok started =>
      obtain ⟨c, w⟩ := started
      refine (mirrors_wait c env polls w).bind ?_
      rintro result _ rfl
      refine (Mirrors.call c.stop fun _ => .stop).bind ?_
      rintro _ _ rfl
      exact .pure rfl

/-- The record of a launch, beside its answer and its state. -/
theorem exists_recorded_launchWithReport (e : Engine (StateM S) F) (polls : Nat)
    (plan : PhysicalPlan) (group : String) (s : S) : ∃ log,
      e.recorded.launchWithReport env.recorded polls plan group ⟨s, []⟩ =
        ((e.launchWithReport env polls plan group s).1,
          ⟨(e.launchWithReport env polls plan group s).2, log⟩) := by
  obtain ⟨hanswer, hstate⟩ := recorded_launchWithReport env e polls plan group ⟨s, []⟩
  refine ⟨(e.recorded.launchWithReport env.recorded polls plan group ⟨s, []⟩).2.log,
    Prod.ext hanswer.symm ?_⟩
  rw [← hstate]

end Launches
end Recording
end Dataflow
