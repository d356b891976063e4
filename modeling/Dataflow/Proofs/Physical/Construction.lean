import Dataflow.Proofs.Plan.Cycles
import Dataflow.Proofs.Physical.Wiring
/-!
# Plans under construction

A builder numbers its operators by its calls.  A call that is refused leaves its operator in the plan,
fed from the inputs before the refused one, and later calls may take it as an input like any other.  So
nothing about the plan depends on whether calls succeed, except how far each operator was fed.

When the inputs of an operator are connected, all other keys of the plan are older, and it has just one
key of its own; an input that is not older is either not there yet or the operator itself, and refused
in both cases.  Therefore edges go from smaller to larger numbers, and no calls, with whatever keys,
close a cycle.

**Proved here.**

    how far a target gets with its sources                  (`connectAll_stops`)
    what one call keeps up, whether it succeeds or fails    (`Constructed.run`)
    what any calls leave in the plan                        (`constructed_runAll`)
    the plan of any calls, and its validation               (`runAll_sound`)
-/
namespace Dataflow
namespace Plan

variable {α : Type}

/-- Why a target refuses a source. -/
inductive Refuses [PlanNode α] (p : Plan α) (target a : Key) : PlanError → Prop
  | unknown : a ∉ p.keys → Refuses p target a (.unknownOperator a)
  | itself : a = target → Refuses p target a (.selfLoop a)
  | repeated : p.Feeds a target → Refuses p target a (.duplicateEdge a target)

theorem predecessors_join_self (p : Plan α) (target : Key) (sources : List Key) :
    (p.join target sources).predecessors target = p.predecessors target ++ sources := by
  simp [predecessors, join, List.filter_map, Function.comp_def]

theorem predecessors_join_of_ne (p : Plan α) {target k : Key} (hk : k ≠ target)
    (sources : List Key) : (p.join target sources).predecessors k = p.predecessors k := by
  simp [predecessors, join, List.filter_map, Function.comp_def, hk.symm]

variable [PlanNode α] {p : Plan α} {target a : Key} {taken : List Key}

theorem refuses_of_connect {e : PlanError} (ht : target ∈ p.keys)
    (h : p.connect a target = .error e) : p.Refuses target a e := by
  simp only [connect] at h
  split at h
  next ha =>
    cases h
    exact .unknown (by simpa [contains] using ha)
  next ha =>
    split at h
    next hb => simp [contains, ht] at hb
    next =>
      split at h
      next hself =>
        cases h
        exact .itself hself
      next =>
        split at h
        next hedge =>
          cases h
          exact .repeated hedge
        next => cases h

theorem Joinable.nil (ht : target ∈ p.keys) : p.Joinable target [] :=
  ⟨ht, fun _ h => absurd h List.not_mem_nil, List.not_mem_nil, List.nodup_nil,
    fun _ h => absurd h List.not_mem_nil⟩

/-- A source that is accepted comes before those that are accepted after it. -/
theorem Joinable.cons (ha : a ∈ p.keys) (hne : a ≠ target) (hnew : ¬ p.Feeds a target)
    (h : (p.join target [a]).Joinable target taken) : p.Joinable target (a :: taken) := by
  have hold : ∀ {b}, p.Feeds b target → (p.join target [a]).Feeds b target :=
    fun hb => List.mem_append_left _ hb
  have hself : (p.join target [a]).Feeds a target :=
    List.mem_append_right _ (List.mem_singleton_self _)
  refine ⟨h.target_mem, List.forall_mem_cons.mpr ⟨ha, h.mem⟩, ?_,
    List.nodup_cons.mpr ⟨fun hmem => h.fresh a hmem hself, h.nodup⟩,
    List.forall_mem_cons.mpr ⟨hnew, fun b hb hfeeds => h.fresh b hb (hold hfeeds)⟩⟩
  intro hmem
  rcases List.mem_cons.mp hmem with rfl | hmem
  · exact hne rfl
  · exact h.ne hmem

/-- A target is fed from the sources before the first one that it refuses. -/
theorem connectAll_stops (ht : target ∈ p.keys) (sources : List Key) : ∃ taken,
    (p.connectAll target sources).1 = p.join target taken ∧ p.Joinable target taken ∧
      (sources = taken ∧ (p.connectAll target sources).2 = none ∨
        ∃ a rest e, sources = taken ++ a :: rest ∧ (p.connectAll target sources).2 = some e ∧
          (p.join target taken).Refuses target a e) := by
  induction sources generalizing p with
  | nil => exact ⟨[], by simp [connectAll, join], .nil ht, .inl ⟨rfl, rfl⟩⟩
  | cons a sources ih =>
      cases hc : p.connect a target with
      | error e =>
          have hjoin : p.join target [] = p := by simp [join]
          have hall : p.connectAll target (a :: sources) = (p, some e) := by
            simp only [connectAll, hc]
          rw [hall]
          refine ⟨[], hjoin.symm, .nil ht, .inr ⟨a, sources, e, rfl, rfl, ?_⟩⟩
          rw [hjoin]
          exact refuses_of_connect ht hc
      | ok q =>
          obtain ⟨ha, -, hne, hnew, rfl⟩ := connect_eq_ok hc
          have hall : p.connectAll target (a :: sources) =
              (p.join target [a]).connectAll target sources := by
            simp only [connectAll, hc]
            rfl
          have htarget : target ∈ (p.join target [a]).keys := ht
          obtain ⟨taken, hplan, hjoinable, hstop⟩ := ih htarget
          rw [hall]
          refine ⟨a :: taken, hplan.trans (join_cons p target a taken), .cons ha hne hnew hjoinable, ?_⟩
          refine hstop.imp ?_ ?_
          · rintro ⟨rfl, hnone⟩
            exact ⟨rfl, hnone⟩
          · rintro ⟨b, rest, e, rfl, hsome, hrefuses⟩
            exact ⟨b, rest, e, rfl, hsome, join_cons p target a taken ▸ hrefuses⟩

end Plan

namespace PlanBuilder

/-- The plan of a builder with the operator of a call, which has not been fed yet. -/
def unfed (b : PlanBuilder) (key : Key) (call : Call) : PhysicalPlan :=
  ⟨b.plan.operators ++ [⟨key, call.kind, call.inputs⟩], b.plan.edges⟩

/-- One of the first keys of a scope. -/
def Drawn (scope : String) (n : Nat) (k : Key) : Prop := k.scope = scope ∧ 1 ≤ k.id ∧ k.id ≤ n

/-- Why the operator with a number refuses an input after those that it has taken. -/
inductive Refused (scope : String) (n : Nat) (taken : List Key) (a : Key) : PlanError → Prop
  /-- No call so far has drawn the key. -/
  | unknown : ¬ Drawn scope n a → Refused scope n taken a (.unknownOperator a)
  | itself : a = ⟨scope, n⟩ → Refused scope n taken a (.selfLoop a)
  | repeated : a ∈ taken → Refused scope n taken a (.duplicateEdge a ⟨scope, n⟩)

/-- The operator with a number has taken all its inputs, or those before the first refused one.
What it has taken are different older operators. -/
structure Fed (scope : String) (n : Nat) (inputs taken : List Key)
    (result : Except PlanError Key) : Prop where
  older : ∀ a ∈ taken, Drawn scope n a ∧ a.id < n
  nodup : taken.Nodup
  stops : inputs = taken ∧ result = .ok ⟨scope, n⟩ ∨
    ∃ a rest e, inputs = taken ++ a :: rest ∧ result = .error e ∧ Refused scope n taken a e

/-- What calls with given results have made of an empty builder. -/
structure Constructed (scope : String) (calls : List Call) (results : List (Except PlanError Key))
    (b : PlanBuilder) : Prop where
  keys : b.keys = ⟨scope, calls.length + 1⟩
  built : b.plan.Built
  /-- Every call has left its operator, under its number. -/
  operators : b.plan.operators =
    calls.mapIdx fun i call => ⟨⟨scope, i + 1⟩, call.kind, call.inputs⟩
  id_lt : ∀ a c, b.plan.Feeds a c → a.id < c.id
  length_eq : results.length = calls.length
  fed : ∀ i call result, calls[i]? = some call → results[i]? = some result →
    Fed scope (i + 1) call.inputs (b.plan.predecessors ⟨scope, i + 1⟩) result

section Calls
variable {scope : String} {calls done : List Call} {results : List (Except PlanError Key)}
  {b : PlanBuilder} {k : Key}

theorem constructed_ofScope (scope : String) : Constructed scope [] [] (ofScope scope) :=
  ⟨rfl, .empty, rfl, fun _ _ h => absurd h List.not_mem_nil, rfl, fun _ _ _ h => by cases h⟩

theorem Constructed.mem_keys (h : Constructed scope calls results b) :
    k ∈ b.plan.keys ↔ Drawn scope calls.length k := by
  have hkeys : b.plan.keys = calls.mapIdx fun i _ => ⟨scope, i + 1⟩ := by
    rw [Plan.keys, h.operators, List.mapIdx_eq_zipIdx_map, List.map_map, List.mapIdx_eq_zipIdx_map]
    rfl
  rw [hkeys, List.mem_mapIdx]
  constructor
  · rintro ⟨i, hi, rfl⟩
    exact ⟨rfl, Nat.le_add_left 1 i, hi⟩
  · rintro ⟨hscope, hlow, hhigh⟩
    refine ⟨k.id - 1, by omega, ?_⟩
    show (⟨scope, k.id - 1 + 1⟩ : Key) = k
    rw [← hscope, Nat.sub_add_cancel hlow]

theorem drawn_succ {n : Nat} : Drawn scope (n + 1) k ↔ Drawn scope n k ∨ k = ⟨scope, n + 1⟩ := by
  obtain ⟨s, id⟩ := k
  by_cases hs : s = scope
  · simp only [Drawn, Key.mk.injEq, hs, true_and]
    omega
  · simp [Drawn, hs]

theorem Constructed.unconnected (h : Constructed scope calls results b) :
    ⟨scope, calls.length + 1⟩ ∉ b.plan.keys ∧
      b.plan.predecessors ⟨scope, calls.length + 1⟩ = [] := by
  have hnew : ⟨scope, calls.length + 1⟩ ∉ b.plan.keys :=
    fun hk => Nat.not_succ_le_self _ (h.mem_keys.mp hk).2.2
  exact ⟨hnew, (h.built.wellFormed.unconnected hnew).1⟩

theorem Constructed.run_eq (h : Constructed scope calls results b) (call : Call) :
    call.run b =
      (answer ⟨scope, calls.length + 1⟩ ((b.unfed ⟨scope, calls.length + 1⟩ call).connectAll
        ⟨scope, calls.length + 1⟩ call.inputs).2,
      ⟨⟨scope, calls.length + 2⟩, ((b.unfed ⟨scope, calls.length + 1⟩ call).connectAll
        ⟨scope, calls.length + 1⟩ call.inputs).1⟩) := by
  let op : PhysicalOperator := ⟨⟨scope, calls.length + 1⟩, call.kind, call.inputs⟩
  have hadd : b.plan.addWithInputs op call.inputs =
      (b.unfed op.key call).connectAll op.key call.inputs := by
    rw [Plan.addWithInputs, Plan.add_of_not_mem h.unconnected.1]
    rfl
  rw [call.run_eq_add, add_eq, h.keys, ← hadd]
  rfl

theorem Constructed.mem_keys_unfed (h : Constructed scope calls results b) {call : Call} :
    k ∈ (b.unfed ⟨scope, calls.length + 1⟩ call).keys ↔ Drawn scope (calls.length + 1) k := by
  rw [drawn_succ, ← h.mem_keys]
  simp [unfed, Plan.keys, PlanNode.key]

/-- A call adds its operator under the next number, fed as far as it gets. -/
theorem Constructed.exists_fed (h : Constructed scope calls results b) (call : Call) : ∃ taken,
    (call.run b).2 = ⟨⟨scope, calls.length + 2⟩,
      (b.unfed ⟨scope, calls.length + 1⟩ call).join ⟨scope, calls.length + 1⟩ taken⟩ ∧
    Fed scope (calls.length + 1) call.inputs taken (call.run b).1 := by
  have hkey : ⟨scope, calls.length + 1⟩ ∈ (b.unfed ⟨scope, calls.length + 1⟩ call).keys :=
    h.mem_keys_unfed.mpr (drawn_succ.mpr (Or.inr rfl))
  obtain ⟨taken, hplan, hjoin, hstop⟩ := Plan.connectAll_stops hkey call.inputs
  rw [h.run_eq call]
  refine ⟨taken, by rw [hplan], ?_, hjoin.nodup, ?_⟩
  · intro a ha
    have hdrawn : Drawn scope (calls.length + 1) a := h.mem_keys_unfed.mp (hjoin.mem a ha)
    have hold : Drawn scope calls.length a := by
      refine (drawn_succ.mp hdrawn).resolve_right ?_
      rintro rfl
      exact hjoin.ne ha
    exact ⟨hdrawn, Nat.lt_succ_of_le hold.2.2⟩
  · refine hstop.imp ?_ ?_
    · rintro ⟨hinputs, hnone⟩
      exact ⟨hinputs, congrArg (answer _) hnone⟩
    · rintro ⟨a, rest, e, hinputs, hsome, hrefuses⟩
      refine ⟨a, rest, e, hinputs, congrArg (answer _) hsome, ?_⟩
      cases hrefuses with
      | unknown hunknown => exact .unknown fun hdrawn => hunknown (h.mem_keys_unfed.mpr hdrawn)
      | itself hself => exact .itself hself
      | repeated hfeeds =>
          have hfed := Plan.mem_predecessors.mpr hfeeds
          rw [Plan.predecessors_join_self] at hfed
          -- before it was fed, the operator had no producers
          have hfree : a ∉ b.plan.predecessors ⟨scope, calls.length + 1⟩ := by
            rw [h.unconnected.2]
            exact List.not_mem_nil
          exact .repeated ((List.mem_append.mp hfed).resolve_left hfree)

theorem built_run (hb : b.plan.Built) (call : Call) : (call.run b).2.plan.Built := by
  rw [call.run_eq_add, add_eq]
  exact hb.addWithInputs _ _

/-- A call keeps this up, whether it succeeds or fails. -/
theorem Constructed.run (h : Constructed scope calls results b) (call : Call) :
    Constructed scope (calls ++ [call]) (results ++ [(call.run b).1]) (call.run b).2 := by
  have hbuilt := built_run h.built call
  obtain ⟨taken, hb, hfed⟩ := h.exists_fed call
  rw [hb] at hbuilt ⊢
  refine ⟨by simp, hbuilt, ?_, ?_, by simp [h.length_eq], ?_⟩
  · rw [List.mapIdx_concat, ← h.operators]
    rfl
  · intro a c hfeeds
    rcases List.mem_append.mp hfeeds with hold | hnew
    · exact h.id_lt a c hold
    · obtain ⟨source, hsource, hedge⟩ := List.mem_map.mp hnew
      cases hedge
      exact (hfed.older _ hsource).2
  · intro i call' result hcall hresult
    by_cases hi : i < calls.length
    · have hne : (⟨scope, i + 1⟩ : Key) ≠ ⟨scope, calls.length + 1⟩ := by simp; omega
      rw [List.getElem?_append_left hi] at hcall
      rw [List.getElem?_append_left (h.length_eq.symm ▸ hi)] at hresult
      rw [Plan.predecessors_join_of_ne _ hne]
      exact h.fed i call' result hcall hresult
    · obtain rfl : i = calls.length := by
        have hlt := (List.getElem?_eq_some_iff.mp hcall).1
        simp only [List.length_append, List.length_singleton] at hlt
        omega
      obtain rfl : call = call' := by simpa using hcall
      obtain rfl : (call.run b).1 = result := by simpa [← h.length_eq] using hresult
      have hfree := h.unconnected.2
      rw [Plan.predecessors_join_self]
      show Fed scope _ _ (b.plan.predecessors _ ++ taken) _
      rw [hfree]
      exact hfed

/-- All calls together keep it up. -/
theorem Constructed.runAll (h : Constructed scope done results b) :
    Constructed scope (done ++ calls) (results ++ (PlanBuilder.runAll calls b).1)
      (PlanBuilder.runAll calls b).2 := by
  induction calls generalizing done results b with
  | nil =>
      rw [List.append_nil]
      simpa [PlanBuilder.runAll] using h
  | cons call calls ih =>
      have hnext := ih (h.run call)
      rw [List.append_assoc, List.append_assoc] at hnext
      exact hnext

theorem constructed_runAll (scope : String) (calls : List Call) :
    Constructed scope calls (runAll calls (ofScope scope)).1 (runAll calls (ofScope scope)).2 :=
  (constructed_ofScope scope).runAll

/-! ## Validation -/

theorem Constructed.exists_dependencyKeys (h : Constructed scope calls results b) :
    ∃ l, b.plan.dependencyKeys = .ok l := by
  have hacyclic : b.plan.Acyclic := not_transGen_self Key.id h.id_lt
  exact (Plan.exists_dependencyKeys_iff h.built.wellFormed).mpr hacyclic

theorem Constructed.validate_ne_cycle (h : Constructed scope calls results b) :
    b.plan.validate ≠ .error (.cycle k) := by
  intro hcycle
  obtain ⟨l, hl⟩ := h.exists_dependencyKeys
  have herror := Plan.dependencyKeys_of_validate_eq_error hcycle
  rw [hl] at herror
  cases herror

theorem Constructed.validate_eq_ok (h : Constructed scope calls results b)
    (hok : ∀ r ∈ results, ∃ key, r = .ok key) : b.plan.validate = .ok () := by
  refine Plan.validate_eq_ok.mpr ⟨?_, h.exists_dependencyKeys⟩
  rw [Plan.unresolvedInput?_eq_none, h.operators]
  intro op hop inputs hinputs a ha
  obtain ⟨i, hi, rfl⟩ := List.mem_mapIdx.mp hop
  obtain rfl := Option.some.inj hinputs
  have hi' : i < results.length := h.length_eq.symm ▸ hi
  obtain ⟨key, hkey⟩ := hok results[i] (List.getElem_mem hi')
  have hfed := h.fed i calls[i] results[i] (List.getElem?_eq_getElem hi)
    (List.getElem?_eq_getElem hi')
  obtain ⟨hall, -⟩ | ⟨_, _, e, -, herror, -⟩ := hfed.stops
  · have hmem : a ∈ b.plan.predecessors ⟨scope, i + 1⟩ := hall ▸ ha
    exact Plan.mem_predecessors.mp hmem
  · cases hkey.symm.trans herror

end Calls

/-- Whatever calls are made of a builder, with whatever keys: each has left its operator in the plan
under its number, fed from the inputs before the first refused one, edges go from smaller to larger
numbers, and validation finds no cycle.  If all calls succeeded, the plan is valid. -/
theorem runAll_sound (scope : String) (calls : List Call) :
    Constructed scope calls (runAll calls (.ofScope scope)).1 (runAll calls (.ofScope scope)).2 ∧
    (∀ k, (runAll calls (.ofScope scope)).2.plan.validate ≠ .error (.cycle k)) ∧
    ((∀ r ∈ (runAll calls (.ofScope scope)).1, ∃ key, r = .ok key) →
      (runAll calls (.ofScope scope)).2.plan.validate = .ok ()) := by
  have h := constructed_runAll scope calls
  exact ⟨h, fun _ => h.validate_ne_cycle, h.validate_eq_ok⟩

/-- A store that reads itself, a union that reads this store and another operator twice, and a filter
of a key that was never drawn: three calls fail, and the last one builds on what they have left. -/
def Call.stumbling : List Call :=
  [.store "out" ⟨"p", 1⟩, .load "in",
    .add .union [⟨"p", 2⟩, ⟨"p", 1⟩, ⟨"p", 2⟩, ⟨"p", 9⟩],
    .filter (.isNull (.column 0 .long)) ⟨"p", 9⟩, .add .union [⟨"p", 3⟩, ⟨"p", 4⟩]]

theorem stumbling_and_diamond_sound :
    Constructed "p" Call.stumbling
      [.error (.selfLoop ⟨"p", 1⟩), .ok ⟨"p", 2⟩, .error (.duplicateEdge ⟨"p", 2⟩ ⟨"p", 3⟩),
        .error (.unknownOperator ⟨"p", 9⟩), .ok ⟨"p", 5⟩]
      (runAll Call.stumbling (.ofScope "p")).2 ∧
    (runAll Call.stumbling (.ofScope "p")).2.plan.predecessors ⟨"p", 3⟩ = [⟨"p", 2⟩, ⟨"p", 1⟩] ∧
    (runAll Call.diamond (.ofScope "p")).2.plan.validate = .ok () :=
  ⟨(runAll_sound "p" Call.stumbling).1, rfl,
    (runAll_sound "p" Call.diamond).2.2 diamond_eq_ok⟩

end PlanBuilder
end Dataflow
