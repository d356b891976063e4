import Dataflow.Proofs.Logical.Sights
/-!
# Grouping plans

A cogroup is made by adding its inputs one after the other, each with the plans that group it; the
inputs and their lists of plans are kept apart, and a walk looks the plans of an input up again by its
key.  An input that was added a second time finds the plans of the first time, so its own plans are
never walked.  Whatever comes after the look-up is the same for every visitor.

**Proved here.**

    the cogroup that is made of groupings                   (`LogicalOperator.ofGroupings_eq`)
    what is found under the key of an input                 (`LogicalOperator.groupByPlans_eq_firstOf`)
    the walk as a part of a visit                           (`Visitor.accept_eq_walkChildren`)
    which plans are walked, and when they are those added   (`Visitor.walkChildren_ofGroupings`)
    the same of the visit of a cogroup                      (`Visitor.accept_ofGroupings`)
-/
namespace Dataflow

variable {σ : Type}

namespace LogicalOperator

/-- An input together with the plans that group it. -/
abbrev Grouping := Key × List (Option LogicalPlan)

/-- Adds an input to a cogroup, together with the plans that group it. -/
def withInput : LogicalOperator → Grouping → LogicalOperator
  | .cogroup k inputs groupBy parallelism, (input, plans) =>
    .cogroup k (inputs ++ [input]) (groupBy ++ [plans]) parallelism
  | op, _ => op

/-- A cogroup without inputs to which groupings are added in order. -/
def ofGroupings (k : Key) (groupings : List Grouping) : LogicalOperator :=
  groupings.foldl withInput (.cogroup k [] [] none)

theorem foldl_withInput (groupings : List Grouping) (k : Key) (inputs : List Key)
    (groupBy : List (List (Option LogicalPlan))) (parallelism : Option Nat) :
    groupings.foldl withInput (.cogroup k inputs groupBy parallelism) =
      .cogroup k (inputs ++ groupings.map Prod.fst) (groupBy ++ groupings.map Prod.snd)
        parallelism := by
  induction groupings generalizing inputs groupBy with
  | nil => simp
  | cons g groupings ih =>
      rw [List.foldl_cons, withInput, ih]
      simp

theorem ofGroupings_eq (k : Key) (groupings : List Grouping) :
    ofGroupings k groupings =
      .cogroup k (groupings.map Prod.fst) (groupings.map Prod.snd) none :=
  foldl_withInput groupings k [] [] none

/-- The plans that were added together with an input when it was added first. -/
def firstOf (groupings : List Grouping) (input : Key) : List (Option LogicalPlan) :=
  ((groupings.find? fun g => g.1 = input).map Prod.snd).getD []

theorem groupByPlans_eq_firstOf (groupings : List Grouping) (input : Key) :
    groupByPlans (groupings.map Prod.fst) (groupings.map Prod.snd) input =
      firstOf groupings input := by
  induction groupings with
  | nil => rfl
  | cons g groupings ih =>
      rw [groupByPlans, firstOf] at *
      by_cases h : g.1 = input
      · simp [h, List.findIdx_cons]
      · simpa [h, List.findIdx_cons] using ih

def present (plans : List (Option LogicalPlan)) : List LogicalPlan := plans.filterMap id

theorem children_ofGroupings (k : Key) (groupings : List Grouping) :
    (ofGroupings k groupings).children =
      (groupings.flatMap fun g => present (firstOf groupings g.1)).map Child.subPlan := by
  rw [ofGroupings_eq, children, List.flatMap_map, List.map_flatMap]
  refine congrArg (fun f => groupings.flatMap f) ?_
  funext g
  rw [groupByPlans_eq_firstOf, present, List.map_filterMap]
  rfl

/-- The plans that are there do not depend on when an input was added. -/
def Agree (groupings : List Grouping) : Prop :=
  ∀ g ∈ groupings, ∀ h ∈ groupings, g.1 = h.1 → present g.2 = present h.2

theorem exists_firstOf_eq {groupings : List Grouping} {g : Grouping} (hg : g ∈ groupings) :
    ∃ first ∈ groupings, first.1 = g.1 ∧ firstOf groupings g.1 = first.2 := by
  obtain ⟨first, hfirst⟩ : ∃ first, groupings.find? (fun h => h.1 = g.1) = some first :=
    Option.isSome_iff_exists.mp (List.find?_isSome.mpr ⟨g, hg, by simp⟩)
  refine ⟨first, List.mem_of_find?_eq_some hfirst, ?_, ?_⟩
  · simpa using List.find?_some hfirst
  · rw [firstOf, hfirst]
    rfl

theorem present_firstOf_iff_agree (groupings : List Grouping) :
    (∀ g ∈ groupings, present (firstOf groupings g.1) = present g.2) ↔ Agree groupings := by
  constructor
  · intro h g hg g' hg' heq
    rw [← h g hg, ← h g' hg', heq]
  · intro h g hg
    obtain ⟨first, hmem, hkey, hfound⟩ := exists_firstOf_eq hg
    rw [hfound]
    exact h first hmem g hg hkey

theorem Agree.of_nodup {groupings : List Grouping} (h : (groupings.map Prod.fst).Nodup) :
    Agree groupings := by
  intro g hg g' hg' heq
  rw [List.inj_on_of_nodup_map h hg hg' heq]

end LogicalOperator

namespace Visitor
open LogicalOperator

/-- Walks what an operator owns, one thing after the other, as a visitor does that has no course of
its own. -/
def walkChildren (v : Visitor σ) (op : LogicalOperator) (s : Visit σ) : Visited σ :=
  (Course.inOrder op.children fun _ => size_lt_of_mem_children).run
    (fun child _ => v.walkChild child) s

/-- A visitor without a course of its own walks the children of an operator between the two times it is
told of it. -/
theorem accept_eq_walkChildren {v : Visitor σ} {op : LogicalOperator} {s : Visit σ} {state : σ}
    (hwalk : v.walk op = .inOrder op.children fun _ => size_lt_of_mem_children)
    (henter : v.enter op s.stack s.state = (.ok true, state)) :
    v.accept op s = Visited.andThen (v.walkChildren op { s with state }) (v.leaveAt op) := by
  rw [accept_eq, henter, walkChildren, ← hwalk]

/-- Enters a nested plan with a walker of its own, visits its roots and leaves it again. -/
def walkPlan (v : Visitor σ) (plan : LogicalPlan) (s : Visit σ) : Visited σ :=
  v.walkChild (.subPlan plan) none s

theorem walkChildren_of_children (v : Visitor σ) {op : LogicalOperator} {plans : List LogicalPlan}
    (h : op.children = plans.map Child.subPlan) (s : Visit σ) :
    v.walkChildren op s = Visit.each v.walkPlan plans s := by
  rw [walkChildren, Course.run_inOrder, h]
  clear h
  induction plans generalizing s with
  | nil => rfl
  | cons plan plans ih =>
      rw [List.map_cons, Visit.each, Visit.each]
      congr 1
      funext s'
      exact ih s'

/-- For each input that was added, a walk enters the plans that were there when this input was added
first, in order and each as often as it is listed.  All of them are the plans that were added together
with the input just when inputs with the same key agree, as they do if no input was added twice, and
then the walk enters the plans that were added, in the order in which they were. -/
theorem walkChildren_ofGroupings (v : Visitor σ) (k : Key) (groupings : List Grouping)
    (s : Visit σ) :
    v.walkChildren (ofGroupings k groupings) s =
      Visit.each v.walkPlan (groupings.flatMap fun g => present (firstOf groupings g.1)) s ∧
    ((∀ g ∈ groupings, present (firstOf groupings g.1) = present g.2) ↔ Agree groupings) ∧
    ((groupings.map Prod.fst).Nodup → Agree groupings) ∧
    (Agree groupings → v.walkChildren (ofGroupings k groupings) s =
      Visit.each v.walkPlan (groupings.flatMap fun g => present g.2) s) := by
  have hwalk := v.walkChildren_of_children (children_ofGroupings k groupings) s
  refine ⟨hwalk, present_firstOf_iff_agree groupings, Agree.of_nodup, ?_⟩
  intro hagree
  rw [hwalk, List.flatMap_congr fun g hg => (present_firstOf_iff_agree groupings).mpr hagree g hg]

/-- The visit of a cogroup enters just these plans, between the two times that a visitor without a course of its own
is told of it. -/
theorem accept_ofGroupings {v : Visitor σ} {k : Key} {groupings : List Grouping} {s : Visit σ}
    {state : σ}
    (hwalk : v.walk (ofGroupings k groupings) =
      .inOrder (ofGroupings k groupings).children fun _ => size_lt_of_mem_children)
    (henter : v.enter (ofGroupings k groupings) s.stack s.state = (.ok true, state)) :
    v.accept (ofGroupings k groupings) s = Visited.andThen
      (Visit.each v.walkPlan (groupings.flatMap fun g => present (firstOf groupings g.1))
        { s with state })
      (v.leaveAt (ofGroupings k groupings)) := by
  rw [accept_eq_walkChildren hwalk henter,
    v.walkChildren_of_children (children_ofGroupings k groupings)]

/-- A visit in which nothing has been seen yet. -/
def unseen : Visit (List Sight) := ⟨⟨⟨.dependencyOrder, .empty⟩, []⟩, []⟩

/-- A grouping plan of one constant, whose value is its key. -/
def constantKey (id : Nat) : LogicalPlan :=
  .ofOperators [.const ⟨"l", id⟩ (.int (Int64.ofNat id))]

/-- An input that is grouped twice by the same plan, once with a place that is left free, and another
input in between. -/
def twiceGrouped : List Grouping :=
  [(⟨"l", 1⟩, [some (constantKey 4), none]), (⟨"l", 2⟩, [some (constantKey 5)]),
    (⟨"l", 1⟩, [some (constantKey 4)])]

theorem twiceGrouped_walkChildren :
    Agree twiceGrouped ∧
    (recorder fun _ _ => .dependencyOrder).walkChildren (ofGroupings ⟨"l", 3⟩ twiceGrouped) unseen =
      Visit.each (recorder fun _ _ => .dependencyOrder).walkPlan
        [constantKey 4, constantKey 5, constantKey 4] unseen := by
  have hagree : Agree twiceGrouped := by
    simp [Agree, twiceGrouped, present]
  exact ⟨hagree, (walkChildren_ofGroupings _ ⟨"l", 3⟩ twiceGrouped _).2.2.2 hagree⟩

/-- An input that is grouped with itself, by a plan of its own for each side. -/
def selfGrouped : List Grouping :=
  [(⟨"l", 1⟩, [some (constantKey 3)]), (⟨"l", 1⟩, [some (constantKey 4)])]

/-- A plan may group an input with itself, but the plans of the second side are not walked. -/
theorem selfGrouped_walkChildren :
    (⟨[.load ⟨"l", 1⟩ "in", ofGroupings ⟨"l", 2⟩ selfGrouped], [(⟨"l", 1⟩, ⟨"l", 2⟩)]⟩ :
      LogicalPlan).validate = .ok () ∧
    (recorder fun _ _ => .dependencyOrder).walkChildren (ofGroupings ⟨"l", 2⟩ selfGrouped) unseen ≠
      Visit.each (recorder fun _ _ => .dependencyOrder).walkPlan
        (selfGrouped.flatMap fun g => present g.2) unseen := by
  refine ⟨by cbv, ?_⟩
  intro h
  have hseen := congrArg (fun r : Visited (List Sight) =>
    r.2.state.map fun x => x.operator.key.id) h
  have hwalked : (((recorder fun _ _ => .dependencyOrder).walkChildren
      (ofGroupings ⟨"l", 2⟩ selfGrouped) unseen).2.state.map fun x => x.operator.key.id) =
      [3, 3] := by cbv
  have hadded : ((Visit.each (recorder fun _ _ => .dependencyOrder).walkPlan
      (selfGrouped.flatMap fun g => present g.2) unseen).2.state.map
        fun x => x.operator.key.id) = [3, 4] := by cbv
  exact absurd (hwalked.symm.trans (hseen.trans hadded)) (by decide)

end Visitor

end Dataflow
