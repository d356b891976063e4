import Dataflow.Launch.Basic
/-!
# What keeps a plan from being launched

A plan that cannot be divided into stages, or whose stages cannot be bound to jobs, is refused with a
fault of its own kind.  Nothing that is found out later, such as a cancelled launch or a driver that
contradicts itself, is ever reported for it.

**Proved here.**

    the codes of refused plans    (`code_of_prepare_eq_error`)
-/
namespace Dataflow

/-- The codes of the faults that plans are refused with. -/
def ErrorCode.ofPlans : List ErrorCode := [.traversal, .planStructure, .internal, .jobCreation]

theorem CompileError.code_fault (e : CompileError) : e.fault.code ∈ ErrorCode.ofPlans := by
  have hstructure : ErrorCode.planStructure ∈ ErrorCode.ofPlans := by decide
  have htraversal : ErrorCode.traversal ∈ ErrorCode.ofPlans := by decide
  have hinternal : ErrorCode.internal ∈ ErrorCode.ofPlans := by decide
  cases e with
  | plan e =>
      show (PlanError.fault e).code ∈ _
      simp only [PlanError.fault]
      split
      · exact hstructure
      · exact htraversal
  | arity _ _ _ => exact hstructure
  | zeroParallelism _ => exact hstructure
  | missingStage _ => exact hinternal
  | cycle _ => exact hstructure
  | emptyPlan => exact hstructure

section Binding
variable {stages : StageGraph} {g : JobGraph} {fault : Fault}

theorem JobGraph.code_of_jobsOf_eq_error {jobOf : StageId → Option JobId} {s : StageId}
    {ss : List StageId} (h : jobsOf jobOf s ss = .error fault) : fault.code = .jobCreation := by
  induction ss with
  | nil => cases h
  | cons s' ss ih =>
      simp only [jobsOf] at h
      split at h
      · cases h
        rfl
      · split at h
        · cases h
        next hrest =>
          cases h
          exact ih hrest

theorem JobGraph.code_of_jobFor_eq_error {group : String} {id : JobId}
    {jobOf : StageId → Option JobId} {s : StageId}
    (h : jobFor stages group id jobOf s = .error fault) : fault.code = .jobCreation := by
  simp only [jobFor] at h
  split at h
  · cases h
    rfl
  · split at h
    next hjobs =>
      cases h
      exact code_of_jobsOf_eq_error hjobs
    · cases h

theorem JobGraph.code_of_bindStage_eq_error {s : StageId}
    (h : bindStage stages g s = .error fault) : fault.code = .jobCreation := by
  simp only [bindStage] at h
  split at h
  next hjob =>
    cases h
    exact code_of_jobFor_eq_error hjob
  · cases h

theorem JobGraph.code_of_bindAll_eq_error {ss : List StageId}
    (h : bindAll stages ss g = .error fault) : fault.code = .jobCreation := by
  induction ss generalizing g with
  | nil => cases h
  | cons s ss ih =>
      simp only [bindAll] at h
      split at h
      · exact ih h
      next hbind =>
        cases h
        exact code_of_bindStage_eq_error hbind

theorem JobGraph.code_of_bind_eq_error {group : String} (h : bind stages group = .error fault) :
    fault.code ∈ ErrorCode.ofPlans := by
  have hcreation : fault.code = .jobCreation → fault.code ∈ ErrorCode.ofPlans := by
    intro hcode
    rw [hcode]
    decide
  simp only [bind] at h
  split at h
  · cases h
    decide
  · split at h
    · cases h
      decide
    · split at h
      · exact hcreation (code_of_bindAll_eq_error h)
      next e _ =>
        cases h
        exact e.code_fault

theorem code_of_prepare_eq_error {compiler : CompilerConfig} {plan : PhysicalPlan} {group : String}
    (h : Engine.prepare compiler plan group = .error fault) : fault.code ∈ ErrorCode.ofPlans := by
  simp only [Engine.prepare] at h
  split at h
  next e _ =>
    cases h
    exact e.code_fault
  · exact JobGraph.code_of_bind_eq_error h

end Binding
end Dataflow
