import Dataflow.Logical.Analysis
import Dataflow.Proofs.Logical.Failures
import Dataflow.Proofs.Logical.Grouping
import Dataflow.Proofs.Plan.Orders
/-!
# Functions that a plan refers to

The names of functions are collected on a walk.  The walk meets every operator of the outer plan, but it
enters a nested plan at the roots only, and an operator of the nested plan that is fed by another is met
only if a root owns it.  Both the walk and an unrestricted search follow what operators own and enter
nested plans, so there is one relation for both; they differ in what they follow and in where they
enter.

**Proved here.**

    searches that look further find more                    (`Search.Finds.mono`)
    what comes into view on a tour                          (`mem_viewed_tour`)
    the names that are collected, sorted                    (`LogicalPlan.referencedFunctions_eq`)
    which names these are, and which are missed             (`LogicalPlan.referencedFunctions_sound`)
-/
namespace Dataflow

/-! ## Searches -/

namespace LogicalOperator

/-- All that an operator owns.  Of a cogroup this is every grouping plan, whatever a look-up by input
finds. -/
def owned : LogicalOperator → List Child
  | .cogroup _ _ groupBy _ => groupBy.flatMap fun plans => (present plans).map .subPlan
  | op => op.children

theorem mem_of_mem_groupByPlans {inputs : List Key} {groupBy : List (List (Option LogicalPlan))}
    {input : Key} {p : Option LogicalPlan} (h : p ∈ groupByPlans inputs groupBy input) :
    ∃ plans ∈ groupBy, p ∈ plans := by
  rw [groupByPlans] at h
  cases hplans : groupBy[inputs.findIdx fun k => decide (k = input)]? with
  | none => simp [hplans] at h
  | some plans =>
      rw [hplans] at h
      exact ⟨plans, List.mem_of_getElem? hplans, h⟩

theorem children_subset_owned (op : LogicalOperator) : op.children ⊆ op.owned := by
  cases op with
  | cogroup k inputs groupBy parallelism =>
      intro child hchild
      obtain ⟨input, -, hchild⟩ := List.mem_flatMap.mp hchild
      obtain ⟨p, hp, hchild⟩ := List.mem_filterMap.mp hchild
      obtain ⟨plan, rfl, rfl⟩ := Option.map_eq_some_iff.mp hchild
      obtain ⟨plans, hplans, hp⟩ := mem_of_mem_groupByPlans hp
      refine List.mem_flatMap.mpr ⟨plans, hplans, List.mem_map_of_mem ?_⟩
      exact List.mem_filterMap.mpr ⟨_, hp, rfl⟩
  | _ => exact List.Subset.refl _

theorem operand_mem_children {op child : LogicalOperator} (h : .operand child ∈ op.owned) :
    .operand child ∈ op.children := by
  cases op with
  | cogroup k inputs groupBy parallelism => simp [owned] at h
  | _ => exact h

end LogicalOperator

/-- How a search goes on: what it follows of that which an operator owns, and at which operators it
enters a nested plan. -/
structure Search where
  follows : LogicalOperator → List LogicalOperator.Child
  enters : LogicalPlan → List LogicalOperator

namespace Search

/-- The search that leaves nothing out. -/
def everywhere : Search := ⟨LogicalOperator.owned, Plan.operators⟩

/-- The search that goes as a walk does. -/
def walked : Search := ⟨LogicalOperator.children, Plan.roots⟩

/-- A search that starts at an operator finds another. -/
inductive Finds (search : Search) : LogicalOperator → LogicalOperator → Prop
  | here (op : LogicalOperator) : Finds search op op
  | operand {op child found : LogicalOperator} : .operand child ∈ search.follows op →
      Finds search child found → Finds search op found
  | nested {op entry found : LogicalOperator} {plan : LogicalPlan} :
      .subPlan plan ∈ search.follows op → entry ∈ search.enters plan →
      Finds search entry found → Finds search op found

/-- A search finds an operator within something that is owned. -/
def FindsIn (search : Search) (found : LogicalOperator) : LogicalOperator.Child → Prop
  | .operand op => search.Finds op found
  | .subPlan plan => ∃ entry ∈ search.enters plan, search.Finds entry found

/-- A search that starts at the operators of a plan finds a call of a function. -/
def Calls (search : Search) (plan : LogicalPlan) (function : String) : Prop :=
  ∃ op ∈ plan.operators, ∃ k args, search.Finds op (.userFunc k function args)

section Finds
variable {search search' : Search} {op between found : LogicalOperator}

theorem finds_iff : search.Finds op found ↔
    found = op ∨ ∃ child ∈ search.follows op, search.FindsIn found child := by
  constructor
  · intro h
    cases h with
    | here => exact .inl rfl
    | operand hchild h => exact .inr ⟨_, hchild, h⟩
    | nested hplan hentry h => exact .inr ⟨_, hplan, _, hentry, h⟩
  · rintro (rfl | ⟨child, hchild, h⟩)
    · exact .here _
    · cases child with
      | operand child => exact .operand hchild h
      | subPlan plan =>
          obtain ⟨entry, hentry, h⟩ := h
          exact .nested hchild hentry h

theorem Finds.trans (h : search.Finds op between) (hfound : search.Finds between found) :
    search.Finds op found := by
  induction h with
  | here => exact hfound
  | operand hchild _ ih => exact .operand hchild (ih hfound)
  | nested hplan hentry _ ih => exact .nested hplan hentry (ih hfound)

theorem Finds.mono (hfollows : ∀ op, search.follows op ⊆ search'.follows op)
    (henters : ∀ plan, search.enters plan ⊆ search'.enters plan) (h : search.Finds op found) :
    search'.Finds op found := by
  induction h with
  | here => exact .here _
  | operand hchild _ ih => exact .operand (hfollows _ hchild) ih
  | nested hplan hentry _ ih => exact .nested (hfollows _ hplan) (henters _ hentry) ih

theorem Finds.everywhere (h : walked.Finds op found) : everywhere.Finds op found :=
  h.mono LogicalOperator.children_subset_owned fun _ => List.filter_subset_self _

end Finds
end Search

/-- Nothing of what an operator owns is out of the way of a walk: its nested plans are walked, and each
of their operators is a root, or found from one. -/
def LogicalOperator.Exposed (op : LogicalOperator) : Prop :=
  ∀ plan, .subPlan plan ∈ op.owned → .subPlan plan ∈ op.children ∧
    ∀ inner ∈ plan.operators, ∃ root ∈ plan.roots, Search.walked.Finds root inner

/-- All that is found from an operator is exposed. -/
def LogicalOperator.DeeplyExposed (op : LogicalOperator) : Prop :=
  ∀ found, Search.everywhere.Finds op found → found.Exposed

/-- All that is found in a plan is exposed. -/
def LogicalPlan.DeeplyExposed (plan : LogicalPlan) : Prop :=
  ∀ op ∈ plan.operators, op.DeeplyExposed

section Exposed
variable {op found : LogicalOperator} {plan : LogicalPlan} {function : String}

theorem LogicalOperator.DeeplyExposed.expression
    (h : ∀ child ∈ op.owned, ∃ operand, child = .operand operand ∧ operand.DeeplyExposed) :
    op.DeeplyExposed := by
  intro found hfound
  rcases Search.finds_iff.mp hfound with rfl | ⟨child, hchild, hfound⟩
  · intro plan hplan
    obtain ⟨operand, heq, -⟩ := h _ hplan
    cases heq
  · obtain ⟨operand, rfl, hoperand⟩ := h child hchild
    exact hoperand found hfound

theorem LogicalOperator.DeeplyExposed.leaf (h : op.owned = []) : op.DeeplyExposed := by
  refine .expression ?_
  rw [h]
  exact fun _ hmem => absurd hmem List.not_mem_nil

theorem LogicalOperator.DeeplyExposed.forEach {k : Key} (hroots : plan.operators ⊆ plan.roots)
    (h : LogicalPlan.DeeplyExposed plan) : (LogicalOperator.forEach k plan).DeeplyExposed := by
  intro found hfound
  rcases Search.finds_iff.mp hfound with rfl | ⟨child, hchild, hfound⟩
  · intro nested hnested
    obtain rfl := LogicalOperator.Child.subPlan.inj (List.mem_singleton.mp hnested)
    exact ⟨hnested, fun inner hinner => ⟨inner, hroots hinner, .here inner⟩⟩
  · obtain rfl := List.mem_singleton.mp hchild
    obtain ⟨entry, hentry, hfound⟩ := hfound
    exact h entry hentry found hfound

theorem Search.Finds.walked (h : Search.everywhere.Finds op found) (hexposed : op.DeeplyExposed) :
    Search.walked.Finds op found := by
  induction h with
  | here => exact .here _
  | operand hchild _ ih =>
      refine .operand (LogicalOperator.operand_mem_children hchild) (ih ?_)
      exact fun between h => hexposed between (.operand hchild h)
  | nested hplan hentry _ ih =>
      obtain ⟨hchild, hroots⟩ := hexposed _ (.here _) _ hplan
      obtain ⟨root, hroot, hfinds⟩ := hroots _ hentry
      refine .nested hchild hroot (hfinds.trans (ih ?_))
      exact fun between h => hexposed between (.nested hplan hentry h)

theorem Search.Calls.everywhere (h : Search.walked.Calls plan function) :
    Search.everywhere.Calls plan function := by
  obtain ⟨op, hop, k, args, h⟩ := h
  exact ⟨op, hop, k, args, h.everywhere⟩

theorem Search.Calls.walked (h : Search.everywhere.Calls plan function)
    (hexposed : LogicalPlan.DeeplyExposed plan) : Search.walked.Calls plan function := by
  obtain ⟨op, hop, k, args, h⟩ := h
  exact ⟨op, hop, k, args, h.walked (hexposed op hop)⟩

end Exposed

/-! ## What comes into view -/

def Telling.viewed : Telling → List LogicalOperator
  | .before x => [x.operator]
  | .after _ => []

section Views
variable {choose : WalkerStack LogicalOperator → LogicalPlan → Strategy} {plan : LogicalPlan}
  {found : LogicalOperator}

theorem LogicalPlan.DeeplyAcyclic.exists_mem_inOrder (h : LogicalPlan.DeeplyAcyclic plan)
    (s : Strategy) {op : LogicalOperator} (hop : op ∈ plan.operators) :
    ∃ o ∈ Walker.inOrder ⟨s, plan⟩, o.val = op := by
  have hbuilt : plan.Built := by
    cases h with
    | intro hbuilt _ _ => exact hbuilt
  obtain ⟨-, hmem⟩ := Plan.sequence_eq_ok hbuilt.wellFormed (h.sequence s)
  exact List.mem_map.mp ((hmem op).mpr hop)

theorem mem_viewed_tour {op : LogicalOperator} (h : op.DeeplyAcyclic) (stack : WalkerStack LogicalOperator) :
    found ∈ (tour choose stack op).flatMap Telling.viewed ↔ Search.walked.Finds op found := by
  have hchild : ∀ child ∈ op.children,
      (found ∈ (tourAt choose stack child).flatMap Telling.viewed ↔
        Search.walked.FindsIn found child) := by
    intro child hmem
    have hlt := LogicalOperator.size_lt_of_mem_children hmem
    cases child with
    | operand operand =>
        have : sizeOf operand < sizeOf op := hlt
        rw [tourAt]
        exact mem_viewed_tour (h.operand hmem) stack
    | subPlan plan =>
        have hplan := h.subPlan hmem
        have hbelow : ∀ o ∈ plan.operators, ∀ stack,
            (found ∈ (tour choose stack o).flatMap Telling.viewed ↔
              Search.walked.Finds o found) := by
          intro o ho stack
          have : sizeOf o < sizeOf op :=
            Nat.lt_trans (LogicalOperator.sizeOf_lt_of_mem_operators ho) hlt
          exact mem_viewed_tour (hplan.operator ho) stack
        rw [tourAt, List.flatMap_assoc, List.mem_flatMap]
        constructor
        · rintro ⟨o, ho, hfound⟩
          refine ⟨o.val, List.mem_filter.mpr ⟨o.property, ?_⟩,
            (hbelow o.val o.property _).mp hfound⟩
          have hroot := (List.mem_filter.mp ho).2
          rw [Plan.isRoot, Bool.and_eq_true] at hroot
          exact hroot.2
        · rintro ⟨entry, hentry, hfound⟩
          obtain ⟨hop, hfed⟩ := List.mem_filter.mp hentry
          obtain ⟨o, ho, rfl⟩ := hplan.exists_mem_inOrder (choose stack plan) hop
          refine ⟨o, List.mem_filter.mpr ⟨ho, ?_⟩, (hbelow o.val hop _).mpr hfound⟩
          rw [Plan.isRoot, hfed, Bool.and_true, Plan.contains, decide_eq_true_eq]
          exact List.mem_map_of_mem hop
  rw [tour_eq, Search.finds_iff]
  simp only [List.flatMap_cons, List.flatMap_append, List.flatMap_assoc, Telling.viewed,
    List.mem_append, List.mem_flatMap, List.mem_singleton, List.flatMap_nil, List.append_nil,
    Sight.of]
  refine or_congr_right (exists_congr fun child => and_congr_right fun hmem => ?_)
  exact List.mem_flatMap.symm.trans (hchild child hmem)
termination_by sizeOf op
decreasing_by
  · assumption
  · assumption

theorem mem_viewed_tourFrom (h : LogicalPlan.DeeplyAcyclic plan) (outer : Strategy) :
    found ∈ (tourFrom choose outer plan).flatMap Telling.viewed ↔
      ∃ op ∈ plan.operators, Search.walked.Finds op found := by
  rw [tourFrom, List.flatMap_assoc, List.mem_flatMap]
  constructor
  · rintro ⟨o, -, hfound⟩
    exact ⟨o.val, o.property, (mem_viewed_tour (h.operator o.property) _).mp hfound⟩
  · rintro ⟨op, hop, hfound⟩
    obtain ⟨o, ho, rfl⟩ := h.exists_mem_inOrder outer hop
    exact ⟨o, ho, (mem_viewed_tour (h.operator hop) _).mpr hfound⟩

end Views

/-! ## The names that are collected -/

def LogicalOperator.called : LogicalOperator → List String
  | .userFunc _ function _ => [function]
  | _ => []

theorem LogicalOperator.mem_called {op : LogicalOperator} {function : String} :
    function ∈ op.called ↔ ∃ k args, op = .userFunc k function args := by
  cases op with
  | userFunc k name args => simp [called, eq_comm]
  | _ => simp [called]

namespace LogicalPlan

/-- Makes a note of the function that is called by an operator that comes into view. -/
def noting (t : Telling) (names : List String) : Except PlanError Unit × List String :=
  (.ok (), (t.viewed.flatMap LogicalOperator.called).reverse ++ names)

theorem functionCollector_eq :
    functionCollector = Visitor.listener noting fun _ _ => .dependencyOrder := by
  have henter : functionCollector.enter =
      (Visitor.listener noting fun _ _ => .dependencyOrder).enter := by
    funext op stack names
    cases op <;> rfl
  simp only [functionCollector, Visitor.listener] at henter ⊢
  rw [henter]
  rfl

theorem each_noting (l : List Telling) (s : Visit (List String)) :
    Visit.each (Visit.told noting) l s = (.ok (), { s with
      state := ((l.flatMap Telling.viewed).flatMap LogicalOperator.called).reverse ++ s.state }) := by
  induction l generalizing s with
  | nil => rfl
  | cons t l ih =>
      simp only [Visit.each, Visit.told, Visited.andThen, noting]
      rw [ih, List.flatMap_cons, List.flatMap_append, List.reverse_append, List.append_assoc]

/-- The functions that are called by what comes into view, in the order in which it does. -/
def callsInView (plan : LogicalPlan) : List String :=
  ((tourFrom (fun _ _ => .dependencyOrder) .dependencyOrder plan).flatMap Telling.viewed).flatMap
    LogicalOperator.called

theorem referencedFunctions_eq {plan : LogicalPlan} (h : DeeplyAcyclic plan) :
    plan.referencedFunctions = .ok (sortedDistinct plan.callsInView.reverse) := by
  rw [referencedFunctions, functionCollector_eq, Visitor.listener_run h, each_noting]
  simp only [List.append_nil]
  rfl

theorem mem_callsInView {plan : LogicalPlan} {function : String} (h : DeeplyAcyclic plan) :
    function ∈ plan.callsInView ↔ Search.walked.Calls plan function := by
  rw [callsInView, List.mem_flatMap]
  constructor
  · rintro ⟨found, hfound, hcalled⟩
    obtain ⟨k, args, rfl⟩ := LogicalOperator.mem_called.mp hcalled
    obtain ⟨op, hop, hfinds⟩ := (mem_viewed_tourFrom h .dependencyOrder).mp hfound
    exact ⟨op, hop, k, args, hfinds⟩
  · rintro ⟨op, hop, k, args, hfinds⟩
    exact ⟨_, (mem_viewed_tourFrom h .dependencyOrder).mpr ⟨op, hop, hfinds⟩,
      LogicalOperator.mem_called.mpr ⟨k, args, rfl⟩⟩

/-! ## Sorting them -/

theorem nodup_eraseDups (names : List String) : names.eraseDups.Nodup := by
  cases names with
  | nil => exact List.nodup_nil
  | cons name names =>
      rw [List.eraseDups_cons, List.nodup_cons]
      refine ⟨?_, nodup_eraseDups (names.filter fun other => !other == name)⟩
      simp [List.mem_eraseDups]
termination_by names.length
decreasing_by exact Nat.lt_succ_of_le (List.length_filter_le _ _)

theorem mem_sortedDistinct {names : List String} {name : String} :
    name ∈ sortedDistinct names ↔ name ∈ names := by
  rw [sortedDistinct, List.mem_mergeSort, List.mem_eraseDups]

theorem sortedDistinct_pairwise (names : List String) :
    (sortedDistinct names).Pairwise (· < ·) := by
  have hsorted : (sortedDistinct names).Pairwise fun a b => decide (a ≤ b) = true := by
    refine List.pairwise_mergeSort ?_ ?_ _
    · intro a b c hab hbc
      exact decide_eq_true (String.le_trans (of_decide_eq_true hab) (of_decide_eq_true hbc))
    · intro a b
      rw [Bool.or_eq_true, decide_eq_true_eq, decide_eq_true_eq]
      exact String.le_total a b
  have hnodup : (sortedDistinct names).Nodup :=
    (List.mergeSort_perm _ _).nodup_iff.mpr (nodup_eraseDups names)
  refine hsorted.imp₂ ?_ hnodup
  intro a b hab hne
  exact String.not_le.mp fun hba => hne (String.le_antisymm (of_decide_eq_true hab) hba)

/-- The names that are collected from an acyclic plan are sorted, and they are those of the functions
that are called by what a walk finds.  None of them is made up; and none is missing if nothing in the
plan is out of the way of a walk. -/
theorem referencedFunctions_sound {plan : LogicalPlan} (h : DeeplyAcyclic plan) :
    ∃ names, plan.referencedFunctions = .ok names ∧ names.Pairwise (· < ·) ∧
      (∀ n, n ∈ names ↔ Search.walked.Calls plan n) ∧
      (∀ n ∈ names, Search.everywhere.Calls plan n) ∧
      (DeeplyExposed plan → ∀ n, n ∈ names ↔ Search.everywhere.Calls plan n) := by
  have hnames : ∀ n, n ∈ sortedDistinct plan.callsInView.reverse ↔ Search.walked.Calls plan n := by
    intro n
    rw [mem_sortedDistinct, List.mem_reverse, mem_callsInView h]
  refine ⟨_, referencedFunctions_eq h, sortedDistinct_pairwise _, hnames, ?_, ?_⟩
  · exact fun n hn => ((hnames n).mp hn).everywhere
  · exact fun hexposed n => ⟨fun hn => ((hnames n).mp hn).everywhere,
      fun hn => (hnames n).mpr (hn.walked hexposed)⟩

/-- The nested plan is made of roots. -/
theorem scoredPlan_referencedFunctions :
    DeeplyAcyclic Visitor.scoredPlan ∧ DeeplyExposed Visitor.scoredPlan ∧
    ∃ names, Visitor.scoredPlan.referencedFunctions = .ok names ∧ names.Pairwise (· < ·) ∧
      ∀ n, n ∈ names ↔ Search.everywhere.Calls Visitor.scoredPlan n := by
  have hscore : Visitor.score.DeeplyExposed := by
    refine .expression ?_
    exact fun child hchild => ⟨_, List.mem_singleton.mp hchild, .leaf rfl⟩
  have hscores : DeeplyExposed Visitor.scores :=
    List.forall_mem_cons.mpr ⟨hscore, List.forall_mem_singleton.mpr (.leaf rfl)⟩
  have hscoring : Visitor.scoring.DeeplyExposed := .forEach (List.Subset.refl _) hscores
  have hexposed : DeeplyExposed Visitor.scoredPlan :=
    List.forall_mem_cons.mpr ⟨.leaf rfl, List.forall_mem_singleton.mpr hscoring⟩
  obtain ⟨names, hnames, hsorted, -, -, hcalls⟩ :=
    referencedFunctions_sound Visitor.scoredPlan_deeplyAcyclic
  exact ⟨Visitor.scoredPlan_deeplyAcyclic, hexposed, names, hnames, hsorted, hcalls hexposed⟩

/-- A call that is fed by another. -/
def fedCall : LogicalPlan :=
  ((Plan.ofOperators [.userFunc ⟨"l", 3⟩ "inner" [], .userFunc ⟨"l", 4⟩ "outer" []]).connectAll
    ⟨"l", 4⟩ [⟨"l", 3⟩]).1

def fedCallPlan : LogicalPlan :=
  ((Plan.ofOperators [.load ⟨"l", 1⟩ "in", .forEach ⟨"l", 2⟩ fedCall]).connectAll
    ⟨"l", 2⟩ [⟨"l", 1⟩]).1

/-- In a nested plan, a call that is fed by another is passed over. -/
theorem fedCallPlan_referencedFunctions :
    DeeplyAcyclic fedCallPlan ∧ fedCallPlan.referencedFunctions = .ok ["inner"] ∧
    Search.everywhere.Calls fedCallPlan "outer" := by
  have hcall : DeeplyAcyclic fedCall := by
    refine .of_keys (Plan.built_ofOperators _).connectAll
      (show fedCall.dependencyKeys = .ok [⟨"l", 3⟩, ⟨"l", 4⟩] by cbv) ?_
    exact List.forall_mem_cons.mpr ⟨.leaf rfl, List.forall_mem_singleton.mpr (.leaf rfl)⟩
  have hplan : DeeplyAcyclic fedCallPlan := by
    refine .of_keys (Plan.built_ofOperators _).connectAll
      (show fedCallPlan.dependencyKeys = .ok [⟨"l", 1⟩, ⟨"l", 2⟩] by cbv) ?_
    exact List.forall_mem_cons.mpr ⟨.leaf rfl, List.forall_mem_singleton.mpr (.forEach hcall)⟩
  refine ⟨hplan, by cbv, ?_⟩
  have hforEach : (.forEach ⟨"l", 2⟩ fedCall : LogicalOperator) ∈ fedCallPlan.operators :=
    List.mem_cons_of_mem _ List.mem_cons_self
  have houter : (.userFunc ⟨"l", 4⟩ "outer" [] : LogicalOperator) ∈ fedCall.operators :=
    List.mem_cons_of_mem _ List.mem_cons_self
  exact ⟨_, hforEach, _, _, .nested List.mem_cons_self houter (.here _)⟩

end LogicalPlan

end Dataflow
