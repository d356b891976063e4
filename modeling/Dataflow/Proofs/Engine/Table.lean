import Dataflow.Engine.Table
/-!
# What becomes of a job's state

The changes of a job table, each read as a change of the one state that it is about.  A change is
made only of a job whose status allows it, so each is described under that condition; progress may
come from any job and is taken in from running ones.

What a job waits for depends on the statuses of its dependencies alone (`readiness_congr`).
-/
namespace Dataflow

def JobState.starting {F : Type} (now : Nat) (st : JobState F) : JobState F :=
  { st with status := .running, startedAt := some now }

/-- The state of a job that was given up after a dependency had failed. -/
def JobState.abandoned {F : Type} (now : Nat) (dependency : JobId) (st : JobState F) : JobState F :=
  { st with status := .failed, endedAt := some now,
            error := some ("dependency " ++ dependency.text ++ " failed") }

/-- The state of a job that has ended with a result. -/
def JobState.ended {F : Type} [Fraction F] (now : Nat) (result : Except String JobCounters)
    (st : JobState F) : JobState F :=
  match result with
  | .ok counters =>
    { st with status := .succeeded, endedAt := some now, progress := Fraction.one, counters }
  | .error reason => { st with status := .failed, endedAt := some now, error := some reason }

/-- The state of a running job that has reported progress. -/
def JobState.reported {F : Type} [Fraction F] (part : F) (st : JobState F) : JobState F :=
  { st with progress := Fraction.larger st.progress (Fraction.clamp part) }

namespace JobTable
variable {F : Type} {t t' : JobTable F} {j k : JobId}

theorem state?_modify (f : JobState F → JobState F) :
    (t.modify j f).state? k = if k = j then (t.state? j).map f else t.state? k := by
  obtain ⟨_ | n⟩ := j
  · split
    next h => rw [h]; rfl
    next => rfl
  · obtain ⟨_ | m⟩ := k
    · simp [state?]
    · simp only [modify, state?, List.getElem?_modify, JobId.mk.injEq, Nat.add_right_cancel_iff]
      by_cases h : m = n
      · subst h
        simp
      · rw [if_neg h]
        simp [Ne.symm h]

@[simp] theorem graph_modify (f : JobState F → JobState F) : (t.modify j f).graph = t.graph := by
  simp only [modify]
  split <;> rfl

theorem length_states_modify (f : JobState F → JobState F) :
    (t.modify j f).states.length = t.states.length := by
  simp only [modify]
  split
  · rfl
  · exact List.length_modify _ _ _

theorem status?_modify (f : JobState F → JobState F) (h : k ≠ j) :
    (t.modify j f).status? k = t.status? k := by
  rw [status?, state?_modify, if_neg h]
  rfl

theorem status?_modify_self (f : JobState F → JobState F) :
    (t.modify j f).status? j = (t.state? j).map fun st => (f st).status := by
  rw [status?, state?_modify, if_pos rfl, Option.map_map]
  rfl

theorem exists_state?_of_status? {s : JobStatus} (h : t.status? j = some s) :
    ∃ st, t.state? j = some st ∧ st.status = s :=
  Option.map_eq_some_iff.mp h

section Changes
variable {now : Nat}

theorem advance_eq {s : JobStatus} (next : JobStatus) {f : JobState F → JobState F}
    (h : t.status? j = some s) (hs : s.canBecome next = true) :
    t.advance j next f = t.modify j fun st => f { st with status := next } := by
  simp only [advance, h, hs, if_true]

theorem start_eq (h : t.status? j = some .pending) :
    t.start now j = t.modify j (JobState.starting now) :=
  advance_eq .running h rfl

theorem abandon_eq {d : JobId} (h : t.status? j = some .pending) :
    t.abandon now j d = t.modify j (JobState.abandoned now d) :=
  advance_eq .failed h rfl

variable [Fraction F]

theorem complete_eq {result : Except String JobCounters} (h : t.status? j = some .running) :
    t.complete now j result = t.modify j (JobState.ended now result) := by
  cases result with
  | ok counters =>
      simp only [complete]
      exact advance_eq .succeeded h rfl
  | error reason =>
      simp only [complete]
      exact advance_eq .failed h rfl

theorem report_eq {part : F} (h : t.status? j = some .running) :
    t.report j part = t.modify j (JobState.reported part) := by
  simp only [report, h]
  rfl

theorem report_of_ne {part : F} (h : t.status? j ≠ some .running) : t.report j part = t := by
  unfold report
  split
  next hrun => exact absurd hrun h
  next => rfl

end Changes

/-! ## Readiness -/

section Readiness

theorem readinessOf_congr {ds : List JobId} (h : ∀ d ∈ ds, t'.status? d = t.status? d) :
    t'.readinessOf ds = t.readinessOf ds := by
  induction ds with
  | nil => rfl
  | cons d ds ih =>
      have hrest : t'.readinessOf ds = t.readinessOf ds :=
        ih fun e he => h e (List.mem_cons_of_mem _ he)
      simp only [readinessOf, h d List.mem_cons_self, hrest]

theorem readiness_congr {job : Job} (h : ∀ d ∈ job.dependencies, t'.status? d = t.status? d) :
    t'.readiness job = t.readiness job :=
  readinessOf_congr h

theorem readinessOf_eq_ready {ds : List JobId} :
    t.readinessOf ds = .ready ↔ ∀ d ∈ ds, t.status? d = some .succeeded := by
  induction ds with
  | nil => simp [readinessOf]
  | cons d ds ih =>
      simp only [readinessOf]
      split
      next h => simp [h, ih]
      next h => simp [h]
      next hs hf =>
        have hno : ¬ ∀ e ∈ d :: ds, t.status? e = some .succeeded :=
          fun h => hs (h d List.mem_cons_self)
        split
        next => exact iff_of_false Readiness.noConfusion hno
        next hr => exact iff_of_false hr hno

theorem exists_of_readinessOf_eq_waiting {ds : List JobId} (h : t.readinessOf ds = .waiting) :
    ∃ d ∈ ds, t.status? d ≠ some .succeeded ∧ t.status? d ≠ some .failed := by
  induction ds with
  | nil => cases h
  | cons d ds ih =>
      simp only [readinessOf] at h
      split at h
      next =>
        obtain ⟨e, he, hstatus⟩ := ih h
        exact ⟨e, List.mem_cons_of_mem _ he, hstatus⟩
      next => cases h
      next hs hf => exact ⟨d, List.mem_cons_self, hs, hf⟩

theorem ne_failed_of_readinessOf_eq_waiting {ds : List JobId} (h : t.readinessOf ds = .waiting) :
    ∀ d ∈ ds, t.status? d ≠ some .failed := by
  induction ds with
  | nil => exact fun _ hd => absurd hd List.not_mem_nil
  | cons d ds ih =>
      simp only [readinessOf] at h
      split at h
      next hs =>
        refine List.forall_mem_cons.mpr ⟨?_, ih h⟩
        intro hf
        cases hs.symm.trans hf
      next => cases h
      next hs hf =>
        refine List.forall_mem_cons.mpr ⟨hf, ?_⟩
        split at h
        next hready =>
          intro e he hfailed
          cases (readinessOf_eq_ready.mp hready e he).symm.trans hfailed
        next => exact ih h

theorem readinessOf_eq_abandoned {ds : List JobId} (h : t.readinessOf ds = .abandoned j) :
    j ∈ ds ∧ t.status? j = some .failed := by
  induction ds with
  | nil => cases h
  | cons d ds ih =>
      have hrest : t.readinessOf ds = .abandoned j → j ∈ d :: ds ∧ t.status? j = some .failed :=
        fun h => (ih h).imp_left (List.mem_cons_of_mem _)
      simp only [readinessOf] at h
      split at h
      next => exact hrest h
      next hfailed =>
        cases h
        exact ⟨List.mem_cons_self, hfailed⟩
      next =>
        split at h
        next => cases h
        next => exact hrest h

end Readiness
end JobTable
end Dataflow
