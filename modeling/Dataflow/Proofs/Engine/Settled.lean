import Dataflow.Proofs.Engine.Steps
import Dataflow.Proofs.Job.Binding
/-!
# When a run is finished

A pass of the scheduler leaves no job behind that it could have started or given up.  What carries
this is the order of the jobs: a job that a pass comes to later is no dependency of one that it has
left behind, so nothing that happens in the rest of the pass makes that one ready.  A finished run
has nothing running after such a pass, and then nothing can be pending: the first pending job would
wait for a job that has not ended.

**Proved here.**

    a pass leaves behind what has to wait         (`Passed.step`)
    all jobs of a finished run have ended         (`Reachable.ended`)
    nothing changes in a finished run             (`Ended.steps`)
-/
namespace Dataflow

theorem JobGraph.Numbered.lt_of_append {g : JobGraph} (hg : g.Numbered) {before after : List Job}
    {job : Job} (h : g.jobs = before ++ job :: after) {earlier : Job} (he : earlier ∈ before) :
    earlier.id.val < job.id.val := by
  obtain ⟨i, hi⟩ := List.mem_iff_getElem?.mp he
  obtain ⟨hlt, -⟩ := List.getElem?_eq_some_iff.mp hi
  have hearlier : g.jobs[i]? = some earlier := by rw [h, List.getElem?_append_left hlt, hi]
  have hjob : g.jobs[before.length]? = some job := by
    rw [h, List.getElem?_append_right (Nat.le_refl _), Nat.sub_self]
    rfl
  rw [hg i earlier hearlier, hg before.length job hjob]
  exact Nat.succ_lt_succ hlt

namespace JobTable
variable {F : Type} {t t' : JobTable F} {j : JobId}

theorem mem_withStatus {s : JobStatus} :
    j ∈ t.withStatus s ↔ j ∈ t.graph.ids ∧ t.status? j = some s := by
  simp [withStatus]

theorem exists_state? (hg : t.graph.Numbered) (hlen : t.states.length = t.graph.size) {job : Job}
    (hjob : job ∈ t.graph.jobs) : ∃ st, t.state? job.id = some st := by
  obtain ⟨i, hi⟩ := List.mem_iff_getElem?.mp hjob
  obtain ⟨hlt, -⟩ := List.getElem?_eq_some_iff.mp hi
  rw [hg i job hi]
  exact ⟨_, List.getElem?_eq_getElem (hlen ▸ hlt)⟩

theorem mem_ids_of_status? (hg : t.graph.Numbered) (hlen : t.states.length = t.graph.size)
    {s : JobStatus} (hs : t.status? j = some s) : j ∈ t.graph.ids := by
  obtain ⟨st, hst, -⟩ := exists_state?_of_status? hs
  obtain ⟨_ | n⟩ := j
  · cases hst
  · obtain ⟨hlt, -⟩ := List.getElem?_eq_some_iff.mp hst
    rw [hlen] at hlt
    have hjob : t.graph.jobs[n]? = some t.graph.jobs[n] := List.getElem?_eq_getElem hlt
    exact List.mem_map.mpr ⟨_, List.mem_of_getElem? hjob, hg n _ hjob⟩

theorem status?_reported [Fraction F] {part : F} {k : JobId} :
    (t.modify j (JobState.reported part)).status? k = t.status? k := by
  by_cases h : k = j
  · subst h
    rw [status?_modify_self]
    rfl
  · exact status?_modify _ h

theorem withStatus_reported [Fraction F] {part : F} (s : JobStatus) :
    (t.modify j (JobState.reported part)).withStatus s = t.withStatus s := by
  simp only [withStatus, graph_modify, status?_reported]

/-- A job that waits if it has not been started. -/
def Held (t : JobTable F) (job : Job) : Prop :=
  t.status? job.id = some .pending → t.readiness job = .waiting

theorem Held.congr {job : Job} (hjob : t'.status? job.id = t.status? job.id)
    (hdeps : ∀ d ∈ job.dependencies, t'.status? d = t.status? d) (h : t.Held job) : t'.Held job := by
  intro hpending
  rw [readiness_congr hdeps]
  exact h (hjob ▸ hpending)

end JobTable

namespace LocalRun
variable {F : Type} [Fraction F]

/-- What the scheduler has left behind has to wait. -/
def Passed (g : JobGraph) (t : JobTable F) : Phase → Prop
  | .scanning rest => ∃ before, g.jobs = before ++ rest ∧ ∀ job ∈ before, t.Held job
  | .waiting => ∀ job ∈ g.jobs, t.Held job
  | .finished => (∀ job ∈ g.jobs, t.Held job) ∧ t.withStatus .running = []
  | .aborted => True

section Passes
variable {stages : StageGraph} {g : JobGraph} {r r' : LocalRun F} {phase : Phase} {t : JobTable F}

omit [Fraction F] in
theorem Passed.held (h : Passed g t (.scanning [])) : ∀ job ∈ g.jobs, t.Held job := by
  obtain ⟨before, hjobs, hbefore⟩ := h
  rw [List.append_nil] at hjobs
  exact fun job hjob => hbefore job (hjobs ▸ hjob)

theorem Passed.reported {part : F} {j : JobId} (h : Passed g t phase) :
    Passed g (t.modify j (JobState.reported part)) phase := by
  have hheld : ∀ job, t.Held job → (t.modify j (JobState.reported part)).Held job :=
    fun job hjob => hjob.congr JobTable.status?_reported fun d _ => JobTable.status?_reported
  cases phase with
  | scanning rest =>
      obtain ⟨before, hjobs, hbefore⟩ := h
      exact ⟨before, hjobs, fun job hjob => hheld job (hbefore job hjob)⟩
  | waiting => exact fun job hjob => hheld job (h job hjob)
  | finished =>
      exact ⟨fun job hjob => hheld job (h.1 job hjob),
        (JobTable.withStatus_reported .running).trans h.2⟩
  | aborted => trivial

omit [Fraction F] in
/-- A job that the scheduler has moved on is left behind with those before it. -/
theorem Passed.moved (hb : JobGraph.Bound stages g) {job : Job} {rest : List Job}
    (h : Passed g t (.scanning (job :: rest))) {f : JobState F → JobState F}
    (hf : ∀ st, (f st).status ≠ .pending) : Passed g (t.modify job.id f) (.scanning rest) := by
  obtain ⟨before, hjobs, hbefore⟩ := h
  refine ⟨before ++ [job], by rw [hjobs, List.append_assoc]; rfl, ?_⟩
  intro earlier he
  rcases List.mem_append.mp he with he | he
  · have hlt : earlier.id.val < job.id.val := hb.numbered.lt_of_append hjobs he
    have hmem : earlier ∈ g.jobs := hjobs ▸ List.mem_append_left _ he
    have hsame : ∀ k : JobId, k.val < job.id.val → (t.modify job.id f).status? k = t.status? k :=
      fun k hk => JobTable.status?_modify f fun heq => Nat.lt_irrefl _ (heq ▸ hk)
    exact (hbefore earlier he).congr (hsame _ hlt) fun d hd =>
      hsame d (Nat.lt_trans (hb.earlier earlier hmem d hd) hlt)
  · obtain rfl := List.mem_singleton.mp he
    intro hpending
    rw [JobTable.status?_modify_self] at hpending
    obtain ⟨st, -, hst⟩ := Option.map_eq_some_iff.mp hpending
    exact absurd hst (hf st)

theorem Passed.moves (hb : JobGraph.Bound stages g) (hg : r.table.graph = g)
    (h : Passed g r.table r.phase) (hmoves : Moves r phase t) : Passed g t phase := by
  cases hmoves with
  | stays => exact h
  | reports _ => exact h.reported
  | @skips job rest hphase hwait =>
      rw [hphase] at h
      obtain ⟨before, hjobs, hbefore⟩ := h
      refine ⟨before ++ [job], by rw [hjobs, List.append_assoc]; rfl, ?_⟩
      intro earlier he
      rcases List.mem_append.mp he with he | he
      · exact hbefore earlier he
      · obtain rfl := List.mem_singleton.mp he
        exact hwait
  | abandons hphase _ _ =>
      rw [hphase] at h
      exact h.moved hb fun _ => JobStatus.noConfusion
  | starts hphase _ _ =>
      rw [hphase] at h
      exact h.moved hb fun _ => JobStatus.noConfusion
  | waits hphase =>
      rw [hphase] at h
      exact h.held
  | joins _ _ => exact ⟨[], congrArg JobGraph.jobs hg.symm, fun _ hjob => absurd hjob List.not_mem_nil⟩
  | finishes hphase hnone =>
      rw [hphase] at h
      exact ⟨h.held, hnone⟩
  | aborts _ => trivial

theorem Reachable.passed (hb : JobGraph.Bound stages g) (hr : Reachable g r) :
    Passed g r.table r.phase := by
  induction hr with
  | refl => exact ⟨[], rfl, fun _ hjob => absurd hjob List.not_mem_nil⟩
  | tail hsteps hstep ih => exact ih.moves hb (Reachable.graph hsteps) hstep.moves

end Passes

/-! ## The end of a run -/

/-- A run that has come to its end with some states. -/
structure Ended (g : JobGraph) (t : JobTable F) (r : LocalRun F) : Prop where
  reachable : Reachable g r
  phase : r.phase = .finished
  table : r.table = t

section Ending
variable {stages : StageGraph} {g : JobGraph} {r r' : LocalRun F} {t : JobTable F}

/-- When nothing is running and nothing has been left behind that could go on, every job has
succeeded or failed. -/
theorem Reachable.ended_of_held (hb : JobGraph.Bound stages g) (hr : Reachable g r)
    (hheld : ∀ job ∈ g.jobs, r.table.Held job) (hnone : r.table.withStatus .running = []) :
    ∀ job ∈ g.jobs,
      r.table.status? job.id = some .succeeded ∨ r.table.status? job.id = some .failed := by
  have hgraph := hr.graph
  have hend : ∀ n : Nat, ∀ job ∈ g.jobs, job.id.val = n →
      r.table.status? job.id = some .succeeded ∨ r.table.status? job.id = some .failed := by
    intro n
    induction n using Nat.strongRecOn with
    | ind n ih =>
        intro job hjob hn
        have hjob' : job ∈ r.table.graph.jobs := hgraph ▸ hjob
        obtain ⟨st, hst⟩ := JobTable.exists_state? (hgraph ▸ hb.numbered)
          (hgraph ▸ hr.length_states) hjob'
        have hstatus : r.table.status? job.id = some st.status := by rw [JobTable.status?, hst]; rfl
        cases hs : st.status with
        | pending =>
            -- a dependency that has not ended has a smaller number
            have hwait := hheld job hjob (hstatus.trans (congrArg some hs))
            obtain ⟨d, hd, hsucc, hfail⟩ := JobTable.exists_of_readinessOf_eq_waiting hwait
            obtain ⟨dep, hdep, rfl⟩ := hb.mem_of_dependency hjob hd
            have hlt : dep.id.val < n := hn ▸ hb.earlier job hjob _ hd
            rcases ih dep.id.val hlt dep hdep rfl with hdone | hdone
            · exact absurd hdone hsucc
            · exact absurd hdone hfail
        | running =>
            have hmem : job.id ∈ r.table.withStatus .running :=
              JobTable.mem_withStatus.mpr ⟨List.mem_map_of_mem hjob', hstatus.trans (congrArg some hs)⟩
            rw [hnone] at hmem
            exact absurd hmem List.not_mem_nil
        | succeeded => exact Or.inl (hstatus.trans (congrArg some hs))
        | failed => exact Or.inr (hstatus.trans (congrArg some hs))
  exact fun job hjob => hend job.id.val job hjob rfl

/-- In a finished run every job has succeeded or failed. -/
theorem Reachable.ended (hb : JobGraph.Bound stages g) (hr : Reachable g r)
    (hfin : r.phase = .finished) : ∀ job ∈ g.jobs,
      r.table.status? job.id = some .succeeded ∨ r.table.status? job.id = some .failed := by
  have hpassed := hr.passed hb
  rw [hfin] at hpassed
  exact hr.ended_of_held hb hpassed.1 hpassed.2

theorem Ended.step (hb : JobGraph.Bound stages g) (h : Ended g t r) (hstep : Step r r') :
    Ended g t r' := by
  have hnone : ∀ j, r.table.status? j ≠ some .running := by
    intro j hj
    have hgraph := h.reachable.graph
    have hpassed := h.reachable.passed hb
    rw [h.phase] at hpassed
    have hmem : j ∈ r.table.withStatus .running := JobTable.mem_withStatus.mpr
      ⟨JobTable.mem_ids_of_status? (hgraph ▸ hb.numbered) (hgraph ▸ h.reachable.length_states) hj, hj⟩
    rw [hpassed.2] at hmem
    exact absurd hmem List.not_mem_nil
  have hother : ∀ {rest}, r.phase ≠ .scanning rest := fun hphase => by
    cases h.phase.symm.trans hphase
  have hstays : ∀ {phase : Phase} {t' : JobTable F}, Moves r phase t' →
      phase = .finished ∧ t' = r.table := by
    intro phase t' hmoves
    cases hmoves with
    | stays => exact ⟨h.phase, rfl⟩
    | reports hrun => exact absurd hrun (hnone _)
    | skips hphase _ => exact absurd hphase hother
    | abandons hphase _ _ => exact absurd hphase hother
    | starts hphase _ _ => exact absurd hphase hother
    | waits hphase => exact absurd hphase hother
    | joins _ hrun => exact absurd hrun (hnone _)
    | finishes _ _ => exact ⟨rfl, rfl⟩
    | aborts hphase => exact absurd h.phase hphase
  obtain ⟨hphase, htable⟩ := hstays hstep.moves
  exact ⟨h.reachable.tail hstep, hphase, htable.trans h.table⟩

/-- Nothing changes in a finished run. -/
theorem Ended.steps (hb : JobGraph.Bound stages g) (h : Ended g t r) (hsteps : Steps r r') :
    Ended g t r' := by
  induction hsteps with
  | refl => exact h
  | tail _ hstep ih => exact ih.step hb hstep

end Ending
end LocalRun
end Dataflow
