import Mathlib.Logic.Relation
import Dataflow.Engine.Local
import Dataflow.Proofs.Engine.Table
/-!
# The steps of a local run

Everything that can happen to a run between two looks at it, in any order and as often as it likes:
the scheduler goes on, jobs end and report, the run is stopped or given up, time passes.  Most of it
leaves the run alone; `Moves` lists what it can do to the phase and to the states of the jobs, and
`Turns` what that means to the state of a single job.

**Proved here.**

    a step moves                                     (`Step.moves`)
    what a step can do to a job                      (`Moves.turns`)
    whole passes are steps one after the other       (`steps_settle`, `steps_finishJob`, `steps_stop`)
-/
namespace Dataflow.LocalRun
variable {F : Type} [Fraction F]

/-- What can happen to a run. -/
inductive Step : LocalRun F → LocalRun F → Prop
  | scan (r) : Step r r.scan
  | join (r j result) : Step r (r.join j result)
  | report (r j part) : Step r (r.report j part)
  | requestStop (r) : Step r r.requestStop
  | abort (r) : Step r r.abort
  | tick (r now) : Step r (r.tick now)

/-- What can happen to a run one after the other. -/
abbrev Steps : LocalRun F → LocalRun F → Prop := Relation.ReflTransGen Step

/-- The runs of a job graph. -/
def Reachable (g : JobGraph) (r : LocalRun F) : Prop := Steps (ofGraph g) r

/-- What a step can do to the phase and the states of a run. -/
inductive Moves (r : LocalRun F) : Phase → JobTable F → Prop
  | stays : Moves r r.phase r.table
  | reports {j : JobId} {part : F} : r.table.status? j = some .running →
      Moves r r.phase (r.table.modify j (JobState.reported part))
  | skips {job : Job} {rest : List Job} : r.phase = .scanning (job :: rest) →
      (r.table.status? job.id = some .pending → r.table.readiness job = .waiting) →
      Moves r (.scanning rest) r.table
  | abandons {job : Job} {rest : List Job} {d : JobId} : r.phase = .scanning (job :: rest) →
      r.table.status? job.id = some .pending → r.table.readiness job = .abandoned d →
      Moves r (.scanning rest) (r.table.modify job.id (JobState.abandoned r.now d))
  | starts {job : Job} {rest : List Job} : r.phase = .scanning (job :: rest) →
      r.table.status? job.id = some .pending → r.table.readiness job = .ready →
      Moves r (.scanning rest) (r.table.modify job.id (JobState.starting r.now))
  | waits : r.phase = .scanning [] → Moves r .waiting r.table
  | joins {j : JobId} {result : Except String JobCounters} : r.phase = .waiting →
      r.table.status? j = some .running →
      Moves r (.scanning r.table.graph.jobs) (r.table.modify j (JobState.ended r.now result))
  | finishes : r.phase = .scanning [] → r.table.withStatus .running = [] →
      Moves r .finished r.table
  | aborts : r.phase ≠ .finished → Moves r .aborted r.table

section Movement
variable {r r' : LocalRun F}

theorem moves_scan (r : LocalRun F) : Moves r r.scan.phase r.scan.table := by
  simp only [scan]
  split
  next hphase =>
    split
    next hrun => exact .finishes hphase (List.isEmpty_iff.mp hrun)
    next => exact .waits hphase
  next job rest hphase =>
    split
    next hpending =>
      split
      next hwait => exact .skips hphase fun _ => hwait
      next d hfail =>
        show Moves r (.scanning rest) (r.table.abandon r.now job.id d)
        rw [JobTable.abandon_eq hpending]
        exact .abandons hphase hpending hfail
      next hready =>
        split
        · exact .aborts (by simp [hphase])
        · show Moves r (.scanning rest) (r.table.start r.now job.id)
          rw [JobTable.start_eq hpending]
          exact .starts hphase hpending hready
    next hother => exact .skips hphase fun hpending => absurd hpending hother
  next => exact .stays

theorem moves_join (r : LocalRun F) (j : JobId) (result : Except String JobCounters) :
    Moves r (r.join j result).phase (r.join j result).table := by
  simp only [join]
  split
  next h =>
    have hrun : r.table.status? j = some .running := of_decide_eq_true h.2
    show Moves r (.scanning r.table.graph.jobs) (r.table.complete r.now j result)
    rw [JobTable.complete_eq hrun]
    exact .joins h.1 hrun
  next => exact .stays

theorem moves_report (r : LocalRun F) (j : JobId) (part : F) :
    Moves r (r.report j part).phase (r.report j part).table := by
  show Moves r r.phase (r.table.report j part)
  by_cases hrun : r.table.status? j = some .running
  · rw [JobTable.report_eq hrun]
    exact .reports hrun
  · rw [JobTable.report_of_ne hrun]
    exact .stays

theorem moves_abort (r : LocalRun F) : Moves r r.abort.phase r.abort.table := by
  simp only [abort]
  split
  next => exact .stays
  next hphase =>
    split
    · exact .aborts hphase
    · exact .stays

theorem Step.moves (h : Step r r') : Moves r r'.phase r'.table := by
  cases h with
  | scan => exact moves_scan r
  | join j result => exact moves_join r j result
  | report j part => exact moves_report r j part
  | requestStop => exact .stays
  | abort => exact moves_abort r
  | tick now => exact .stays

theorem Moves.graph {phase : Phase} {t : JobTable F} (h : Moves r phase t) :
    t.graph = r.table.graph := by
  cases h <;> simp

theorem Moves.length_states {phase : Phase} {t : JobTable F} (h : Moves r phase t) :
    t.states.length = r.table.states.length := by
  cases h <;> simp [JobTable.length_states_modify]

end Movement

/-! ## What becomes of one job -/

/-- What a step can do to the state of the job `j`. -/
inductive Turns (r : LocalRun F) (j : JobId) (st : JobState F) : JobState F → Prop
  | stays : Turns r j st st
  | reports {part : F} : st.status = .running → Turns r j st (st.reported part)
  | abandons {job : Job} {rest : List Job} {d : JobId} : r.phase = .scanning (job :: rest) →
      job.id = j → r.table.readiness job = .abandoned d → st.status = .pending →
      Turns r j st (st.abandoned r.now d)
  | starts : st.status = .pending → Turns r j st (st.starting r.now)
  | joins {result : Except String JobCounters} : st.status = .running →
      Turns r j st (st.ended r.now result)

section Turning
variable {r : LocalRun F} {phase : Phase} {t : JobTable F} {j : JobId} {st : JobState F}

/-- A step gives no job a state and takes it from none; what it does to a state is a turn. -/
theorem Moves.rel_turns (h : Moves r phase t) (j : JobId) :
    Option.Rel (Turns r j) (r.table.state? j) (t.state? j) := by
  have hstays : Option.Rel (Turns r j) (r.table.state? j) (r.table.state? j) := by
    cases r.table.state? j with
    | none => exact .none
    | some st => exact .some .stays
  have hmodify : ∀ {k : JobId} {s : JobStatus} {f : JobState F → JobState F},
      r.table.status? k = some s → (∀ st, k = j → st.status = s → Turns r j st (f st)) →
      Option.Rel (Turns r j) (r.table.state? j) ((r.table.modify k f).state? j) := by
    intro k s f hk hf
    rw [JobTable.state?_modify]
    split
    next hjk =>
      subst hjk
      rw [JobTable.status?] at hk
      cases hst : r.table.state? j with
      | none => exact .none
      | some st =>
          rw [hst] at hk
          exact .some (hf st rfl (Option.some.inj hk))
    next => exact hstays
  cases h with
  | stays => exact hstays
  | reports hrun => exact hmodify hrun fun _ _ hs => .reports hs
  | skips _ _ => exact hstays
  | abandons hphase hpending hready =>
      exact hmodify hpending fun _ hid hs => .abandons hphase hid hready hs
  | starts _ hpending _ => exact hmodify hpending fun _ _ hs => .starts hs
  | waits _ => exact hstays
  | joins _ hrun => exact hmodify hrun fun _ _ hs => .joins hs
  | finishes _ _ => exact hstays
  | aborts _ => exact hstays

theorem Moves.turns (h : Moves r phase t) (hst : r.table.state? j = some st) :
    ∃ st', t.state? j = some st' ∧ Turns r j st st' := by
  have hrel := h.rel_turns j
  rw [hst] at hrel
  generalize t.state? j = after at hrel
  cases hrel with
  | some hturns => exact ⟨_, rfl, hturns⟩

/-- What holds of the state of a pending job and outlasts everything that becomes of it. -/
structure Lasting (P : JobState F → Prop) : Prop where
  pending : P { status := .pending, progress := Fraction.zero }
  starting : ∀ now st, P st → P (st.starting now)
  abandoned : ∀ now d st, P st → P (st.abandoned now d)
  ended : ∀ now result st, P st → P (st.ended now result)
  reported : ∀ part st, st.status = .running → P st → P (st.reported part)

theorem Lasting.turns {P : JobState F → Prop} (hP : Lasting P) {st' : JobState F}
    (h : Turns r j st st') (hst : P st) : P st' := by
  cases h with
  | stays => exact hst
  | reports hrun => exact hP.reported _ st hrun hst
  | abandons _ _ _ _ => exact hP.abandoned _ _ st hst
  | starts _ => exact hP.starting _ st hst
  | joins _ => exact hP.ended _ _ st hst

theorem Lasting.moves {P : JobState F → Prop} (hP : Lasting P) (h : Moves r phase t)
    (hr : ∀ j st, r.table.state? j = some st → P st) : ∀ j st, t.state? j = some st → P st := by
  intro j st hst
  have hrel := h.rel_turns j
  rw [hst] at hrel
  generalize hbefore : r.table.state? j = before at hrel
  cases hrel with
  | some hturns => exact hP.turns hturns (hr j _ hbefore)

end Turning

/-! ## Whole passes -/

omit [Fraction F] in
theorem scans_of {R : LocalRun F → LocalRun F → Prop} (hscan : ∀ r, R r r.scan) (n : Nat)
    (r : LocalRun F) : Relation.ReflTransGen R r (r.scans n) := by
  induction n generalizing r with
  | zero => exact .refl
  | succ n ih => exact (ih r.scan).head (hscan r)

omit [Fraction F] in
theorem settle_of {R : LocalRun F → LocalRun F → Prop} (hscan : ∀ r, R r r.scan) (r : LocalRun F) :
    Relation.ReflTransGen R r r.settle := by
  simp only [settle]
  split
  · exact scans_of hscan _ _
  · exact .refl

theorem steps_scans (n : Nat) (r : LocalRun F) : Steps r (r.scans n) :=
  scans_of Step.scan n r

theorem steps_settle (r : LocalRun F) : Steps r r.settle :=
  settle_of Step.scan r

theorem steps_finishJob (r : LocalRun F) (j : JobId) (result : Except String JobCounters) :
    Steps r (r.finishJob j result) :=
  (steps_settle _).head (.join r j result)

theorem steps_stop (r : LocalRun F) : Steps r r.stop :=
  (Relation.ReflTransGen.single (.abort _)).head (.requestStop r)

/-! ## The graph of a run -/

theorem Steps.graph {r r' : LocalRun F} (h : Steps r r') : r'.table.graph = r.table.graph := by
  induction h with
  | refl => rfl
  | tail _ hstep ih => exact hstep.moves.graph.trans ih

theorem Reachable.graph {g : JobGraph} {r : LocalRun F} (h : Reachable g r) : r.table.graph = g :=
  Steps.graph h

theorem Reachable.length_states {g : JobGraph} {r : LocalRun F} (h : Reachable g r) :
    r.table.states.length = g.size := by
  induction h with
  | refl => exact List.length_map _
  | tail _ hstep ih => exact hstep.moves.length_states.trans ih

theorem state?_ofGraph {g : JobGraph} {j : JobId} {st : JobState F}
    (h : (ofGraph g).table.state? j = some st) :
    st = { status := .pending, progress := Fraction.zero } := by
  obtain ⟨_ | n⟩ := j
  · cases h
  · obtain ⟨job, -, rfl⟩ := List.mem_map.mp (List.mem_of_getElem? h)
    rfl

theorem status?_ofGraph {g : JobGraph} {j : JobId} {s : JobStatus}
    (h : (ofGraph g : LocalRun F).table.status? j = some s) : s = .pending := by
  obtain ⟨st, hst, rfl⟩ := JobTable.exists_state?_of_status? h
  rw [state?_ofGraph hst]

theorem Lasting.reachable {P : JobState F → Prop} (hP : Lasting P) {g : JobGraph} {r : LocalRun F}
    (h : Reachable g r) : ∀ j st, r.table.state? j = some st → P st := by
  induction h with
  | refl => exact fun j st hst => state?_ofGraph hst ▸ hP.pending
  | tail _ hstep ih => exact hP.moves hstep.moves ih

end Dataflow.LocalRun
