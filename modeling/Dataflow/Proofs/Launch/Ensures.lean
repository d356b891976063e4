import Dataflow.Launch.Basic
/-!
# Pre- and postconditions of launches

What an action that answers and changes a state ensures, with one rule for each way in which launches
are put together.  The loops are here, and what is shown of launches elsewhere is not an induction any
more: asking about one job after the other (`addProgress`, `statsOf`) keeps what a single question
keeps, and `wait` says what the body of waiting has to keep.  A launch ends in few ways, and however
it does, the control that it was handed is stopped last (`launch`).
-/
namespace Dataflow

/-- From a state with `P`, an action answers and leaves the state as `Q` says. -/
def Ensures {S α : Type} (P : S → Prop) (x : StateM S α) (Q : α → S → Prop) : Prop :=
  ∀ s, P s → Q (x s).1 (x s).2

namespace Ensures

section Rules
variable {S α β : Type} {P P' : S → Prop} {Q Q' : α → S → Prop} {R : β → S → Prop} {x : StateM S α}

theorem pure {a : α} (h : ∀ s, P s → Q a s) : Ensures P (Pure.pure a) Q := h

theorem bind {f : α → StateM S β} (hx : Ensures P x Q) (hf : ∀ a, Ensures (Q a) (f a) R) :
    Ensures P (x >>= f) R :=
  fun s hs => hf (x s).1 (x s).2 (hx s hs)

theorem mono (hx : Ensures P x Q) (hQ : ∀ a s, Q a s → Q' a s) : Ensures P x Q' :=
  fun s hs => hQ _ _ (hx s hs)

theorem of_imp (hP : ∀ s, P s → P' s) (hx : Ensures P' x Q) : Ensures P x Q :=
  fun s hs => hx s (hP s hs)

theorem of_and {φ : Prop} (h : φ → Ensures P x Q) : Ensures (fun s => P s ∧ φ) x Q :=
  fun s hs => h hs.2 s hs.1

theorem of_eq {f : α → StateM S β} {v : α} (h : Ensures P (f v) R) :
    ∀ a, Ensures (fun s => P s ∧ a = v) (f a) R := by
  rintro a s ⟨hs, rfl⟩
  exact h s hs

theorem of_exists {ι : Type} {P : ι → S → Prop} (h : ∀ i, Ensures (P i) x Q) :
    Ensures (fun s => ∃ i, P i s) x Q :=
  fun s ⟨i, hi⟩ => h i s hi

end Rules

/-! ## Asking about jobs -/

/-- An answer leaves `P`, unless it is a fault; then it leaves `E`. -/
def OrFault {S α : Type} (P : S → Prop) (E : Fault → S → Prop) : Except Fault α → S → Prop
  | .ok _, s => P s
  | .error fault, s => E fault s

section Questions
variable {S F : Type} [Fraction F] {c : Control (StateM S) F} {env : Surroundings (StateM S) F}
  {P : S → Prop} {E : Fault → S → Prop}

omit [Fraction F] in
theorem orFault {α : Type} {x : StateM S (Except Fault α)} (h : Ensures P x fun _ => P) :
    Ensures P x (OrFault P fun _ => P) := by
  refine h.mono ?_
  intro a s hs
  cases a with
  | ok _ => exact hs
  | error _ => exact hs

theorem addProgress {jobs : List Job}
    (h : ∀ job ∈ jobs, Ensures P (c.progress job.id) (OrFault P E)) (w : Weighting)
    (done total : F) : Ensures P (c.addProgress w jobs done total) (OrFault P E) := by
  induction jobs generalizing done total with
  | nil => exact Ensures.pure fun _ hs => hs
  | cons job jobs ih =>
      simp only [Control.addProgress]
      refine (h job List.mem_cons_self).bind ?_
      intro a
      cases a with
      | ok p => exact ih (fun j hj => h j (List.mem_cons_of_mem _ hj)) _ _
      | error fault => exact Ensures.pure fun _ hs => hs

theorem overallProgress {g : JobGraph}
    (h : ∀ job ∈ g.jobs, Ensures P (c.progress job.id) (OrFault P E)) (w : Weighting) :
    Ensures P (c.overallProgress w g) (OrFault P E) := by
  simp only [Control.overallProgress]
  split
  · exact Ensures.pure fun _ hs => hs
  · refine (addProgress h w _ _).bind ?_
    intro a
    cases a with
    | ok sums => exact Ensures.pure fun _ hs => hs
    | error fault => exact Ensures.pure fun _ hs => hs

omit [Fraction F] in
theorem statsOf (h : ∀ j, Ensures P (c.stats j) (OrFault P E)) (js : List JobId) :
    Ensures P (c.statsOf js) (OrFault P E) := by
  induction js with
  | nil => exact Ensures.pure fun _ hs => hs
  | cons j js ih =>
      simp only [Control.statsOf]
      refine (h j).bind ?_
      intro a
      cases a with
      | error fault => exact Ensures.pure fun _ hs => hs
      | ok entry =>
          refine ih.bind ?_
          intro b
          cases b with
          | ok entries => exact Ensures.pure fun _ hs => hs
          | error fault => exact Ensures.pure fun _ hs => hs

theorem failures (hfailed : Ensures P c.failed fun _ => P)
    (hstats : ∀ j, Ensures P (c.stats j) (OrFault P E))
    (hnone : ∀ reason s, P s → E (.driverInconsistency reason) s) (w : Supervisor F)
    (completed : Bool) (p : F) : Ensures P (w.failures c completed p) (OrFault P E) := by
  simp only [Supervisor.failures]
  split
  · exact Ensures.pure fun _ hs => hs
  · refine hfailed.bind ?_
    intro failed
    split
    · exact Ensures.pure (hnone _)
    · exact statsOf hstats failed

theorem observe (w : Supervisor F) (p : F) (h : Ensures P (env.notify p) fun _ => P) :
    Ensures P (w.observe env p) fun a s =>
      P s ∧ a.2.graph = w.graph ∧ a.2.config = w.config := by
  simp only [Supervisor.observe]
  split
  next => exact h.bind fun _ => Ensures.pure fun s hs => ⟨hs, rfl, rfl⟩
  next => exact Ensures.pure fun s hs => ⟨hs, rfl, rfl⟩

end Questions

/-! ## Waiting and launching -/

section Launches
variable {S F : Type} [Fraction F] {env : Surroundings (StateM S) F}

/-- Waiting goes on as long as `I` holds of the watch and the state, and `Q` is what its answer means.
`K` holds of the state once the launch has been found cancelled. -/
theorem wait {c : Control (StateM S) F} {I : Supervisor F → S → Prop} {K : S → Prop}
    {Q : Option (Except Fault (Report F)) → S → Prop}
    (hfinished : ∀ w, Ensures (I w) c.finished fun _ => I w)
    (hfinish : ∀ w, Ensures (I w) (w.finish c env) fun a => Q (some a.1))
    (hnone : ∀ w s, I w s → Q none s)
    (hpause : ∀ w n, Ensures (I w) (env.pause n) fun _ => I w)
    (hcancelled : ∀ w, Ensures (I w) env.cancelled fun a s => if a then K s else I w s)
    (hstop : Ensures K c.stop fun _ => Q (some (.error .cancelled)))
    (hpoll : ∀ w, Ensures (I w) (w.poll c env) fun a s =>
      match a.1 with
      | .ok _ => I a.2 s
      | .error fault => Q (some (.error fault)) s)
    (polls : Nat) (w : Supervisor F) : Ensures (I w) (w.wait c env polls) fun a => Q a.1 := by
  induction polls generalizing w with
  | zero =>
      simp only [Supervisor.wait]
      refine (hfinished w).bind ?_
      intro finished
      split
      next => exact (hfinish w).bind fun _ => Ensures.pure fun _ hs => hs
      next => exact Ensures.pure fun s hs => hnone w s hs
  | succ polls ih =>
      simp only [Supervisor.wait]
      refine (hfinished w).bind ?_
      intro finished
      split
      next => exact (hfinish w).bind fun _ => Ensures.pure fun _ hs => hs
      next =>
        refine (hpause w _).bind ?_
        intro paused
        split
        next => exact Ensures.pure fun s hs => hnone w s hs
        next =>
          refine (hcancelled w).bind ?_
          intro cancelled
          cases cancelled with
          | true => exact hstop.bind fun _ => Ensures.pure fun _ hs => hs
          | false =>
              refine (hpoll w).bind ?_
              rintro ⟨sample, w'⟩
              cases sample with
              | error fault => exact Ensures.pure fun _ hs => hs
              | ok sample => exact ih w'

section Submission
variable {e : Engine (StateM S) F} {plan : PhysicalPlan} {group : String} {P : S → Prop}
  {A : JobGraph → S → Prop} {I : JobGraph → Control (StateM S) F → S → Prop} {E : Fault → S → Prop}

theorem submitPlan
    (hfault : ∀ fault, Engine.prepare e.compiler plan group = .error fault → ∀ s, P s → E fault s)
    (hcancelled : ∀ g, Engine.prepare e.compiler plan group = .ok g →
      Ensures P env.cancelled fun a s => if a then E .cancelled s else A g s)
    (hsubmit : ∀ g, Engine.prepare e.compiler plan group = .ok g →
      Ensures (A g) (e.submit g) fun a s =>
        match a with
        | .ok c => I g c s
        | .error fault => E fault s) :
    Ensures P (e.submitPlan env plan group) fun a s =>
      match a with
      | .ok (c, w) => ∃ g, I g c s ∧ Engine.prepare e.compiler plan group = .ok g ∧
          w = .start g e.launcher
      | .error fault => E fault s := by
  simp only [Engine.submitPlan]
  split
  next fault hprepare => exact Ensures.pure (hfault fault hprepare)
  next g hprepare =>
    refine (hcancelled g hprepare).bind ?_
    intro cancelled
    cases cancelled with
    | true => exact Ensures.pure fun _ hs => hs
    | false =>
        refine (hsubmit g hprepare).bind ?_
        intro a
        cases a with
        | error fault => exact Ensures.pure fun _ hs => hs
        | ok c => exact Ensures.pure fun s hs => ⟨g, hs, hprepare, rfl⟩

/-- A launch ends before it has submitted anything, or with the refusal of its engine, or with the
answer of its watch, after which its jobs are stopped. -/
theorem launch {polls : Nat} {W : JobGraph → Control (StateM S) F →
      Option (Except Fault (Report F)) → S → Prop} {Q : Option (Except Fault (Report F)) → S → Prop}
    (hfault : ∀ fault, Engine.prepare e.compiler plan group = .error fault →
      ∀ s, P s → Q (some (.error fault)) s)
    (hcancelled : ∀ g, Engine.prepare e.compiler plan group = .ok g →
      Ensures P env.cancelled fun a s => if a then Q (some (.error .cancelled)) s else A g s)
    (hsubmit : ∀ g, Engine.prepare e.compiler plan group = .ok g →
      Ensures (A g) (e.submit g) fun a s =>
        match a with
        | .ok c => I g c s
        | .error fault => Q (some (.error fault)) s)
    (hwait : ∀ g, Engine.prepare e.compiler plan group = .ok g → ∀ c,
      Ensures (I g c) ((Supervisor.start g e.launcher).wait c env polls) fun a => W g c a.1)
    (hstop : ∀ g c a, Ensures (W g c a) c.stop fun _ => Q a) :
    Ensures P (e.launchWithReport env polls plan group) Q := by
  simp only [Engine.launchWithReport]
  refine (submitPlan (E := fun fault => Q (some (.error fault))) hfault hcancelled hsubmit).bind ?_
  intro a
  cases a with
  | error fault => exact Ensures.pure fun _ hs => hs
  | ok submitted =>
      obtain ⟨c, w⟩ := submitted
      refine Ensures.of_exists ?_
      intro g
      refine Ensures.of_and ?_
      rintro ⟨hprepare, rfl⟩
      refine (hwait g hprepare c).bind ?_
      rintro ⟨result, w'⟩
      exact (hstop g c result).bind fun _ => Ensures.pure fun _ hs => hs

end Submission
end Launches
end Ensures
end Dataflow
