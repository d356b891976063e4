import Dataflow.Logical.Analysis
import Dataflow.Proofs.Logical.Visiting
/-!
# What a visitor is shown

The clauses of `shown` say kind by kind what comes after an operator, and `shownWithin` what a nested
plan adds; they know of no courses and of no walkers that have to be removed again.  A visitor that
only takes notes is shown just this.  The clauses are compared with what an operator owns in one
place (`shown_eq`); there a grouping is the only kind that needs care, because its lists of plans are
found by input.  The rest is an induction on the size of operators, and since the walkers are the
same after each child, every child of an operator is shown with the same walkers.

**Proved here.**

    what an operator owns, compared with its clause        (`shown_eq`)
    an operator, its walkers, and what notes are taken     (`Visitor.observer_accept`)
    a whole plan, recorded and printed                     (`Visitor.shows_reference`)
-/
namespace Dataflow

/-- What a visitor is shown: an operator, the name of the walker in effect and the number of
walkers. -/
structure Sight where
  operator : LogicalOperator
  walker : String
  depth : Nat

variable {σ : Type}

/-- The operators of a plan in the order of a walker, none if it finds no order. -/
def Walker.inOrder {α : Type} [PlanNode α] (w : Walker α) : List { op : α // op ∈ w.plan.operators } :=
  w.sequence.toOption.getD []

theorem Walker.sequence_eq_inOrder {α : Type} [PlanNode α] {p : Plan α} (hbuilt : p.Built)
    (hacyclic : p.Acyclic) (s : Strategy) :
    Walker.sequence ⟨s, p⟩ = .ok (Walker.inOrder ⟨s, p⟩) := by
  obtain ⟨ks, hks⟩ := (Plan.exists_keys_iff hbuilt.wellFormed s).mpr hacyclic
  simp only [inOrder, sequence, hks]
  rfl

/-- The sight of an operator: the walker in effect is that of the nested plan that was entered last,
and each nested plan around the operator adds one to the depth. -/
def Sight.of (stack : WalkerStack LogicalOperator) (op : LogicalOperator) : Sight :=
  ⟨op, (stack.nested.head?.getD stack.base).strategy.name, 1 + stack.nested.length⟩

section Reference
variable (choose : WalkerStack LogicalOperator → LogicalPlan → Strategy)

mutual
/-- What an operator shows: itself, and then what its kind prescribes. -/
def shown (stack : WalkerStack LogicalOperator) (op : LogicalOperator) : List Sight :=
  Sight.of stack op ::
    match op with
    | .load _ _ => []
    | .store _ _ => []
    | .const _ _ => []
    | .binary _ _ lhs rhs => shown stack lhs ++ shown stack rhs
    | .unary _ _ operand => shown stack operand
    | .cogroup _ _ groupBy _ => groupBy.flatMap fun plans => plans.flatMap fun present =>
      match _h : present with
      | some plan => shownWithin stack plan
      | none => []
    | .generate _ plans _ => plans.flatMap fun plan => shownWithin stack plan
    | .sort _ plans _ _ => plans.flatMap fun plan => shownWithin stack plan
    | .filter _ condition => shownWithin stack condition
    | .split _ conditions => conditions.flatMap fun present =>
      match _h : present with
      | some plan => shownWithin stack plan
      | none => []
    | .forEach _ plan => shownWithin stack plan
    | .userFunc _ _ args => args.flatMap fun arg => shown stack arg
    | .binCond _ cond lhs rhs => shown stack cond ++ shown stack lhs ++ shown stack rhs
    | .cast _ expr _ => shown stack expr
    | .regexp _ operand _ => shown stack operand
    | .project _ expr _ sentinel => if sentinel then [] else shown stack expr
  termination_by sizeOf op
  decreasing_by
    all_goals try decreasing_tactic
    · next hplans hpresent =>
        have hlt := LogicalOperator.sizeOf_lt_of_some_mem (_h ▸ hpresent)
        have hle := List.sizeOf_lt_of_mem hplans
        simp only [LogicalOperator.cogroup.sizeOf_spec]
        omega
    · next hpresent =>
        have hlt := LogicalOperator.sizeOf_lt_of_some_mem (_h ▸ hpresent)
        simp only [LogicalOperator.split.sizeOf_spec]
        omega

/-- What a nested plan shows: what its roots show, in the order of a walker of its own. -/
def shownWithin (stack : WalkerStack LogicalOperator) (plan : LogicalPlan) : List Sight :=
  let w : Walker LogicalOperator := ⟨choose stack plan, plan⟩
  (w.inOrder.filter fun o => plan.isRoot (PlanNode.key o.val)).flatMap fun o =>
    shown (stack.push w) o.val
  termination_by sizeOf plan
  decreasing_by exact LogicalOperator.sizeOf_lt_of_mem_operators o.property
end

/-- What an outer plan shows: what its operators show, in the order of its walker. -/
def shownFrom (outer : Strategy) (plan : LogicalPlan) : List Sight :=
  let w : Walker LogicalOperator := ⟨outer, plan⟩
  w.inOrder.flatMap fun o => shown choose ⟨w, []⟩ o.val

end Reference

/-! ## Plans that can be shown -/

mutual
/-- An operator whose nested plans have an order, at any depth, and whose groupings have a list of
plans for each of different inputs. -/
inductive LogicalOperator.Orderly : LogicalOperator → Prop
  | intro {op : LogicalOperator}
    (groupings : ∀ k inputs groupBy parallelism, op = .cogroup k inputs groupBy parallelism →
      inputs.Nodup ∧ groupBy.length = inputs.length)
    (operands : ∀ child, .operand child ∈ op.children → LogicalOperator.Orderly child)
    (plans : ∀ plan, .subPlan plan ∈ op.children → LogicalPlan.Orderly plan) :
    LogicalOperator.Orderly op

/-- A plan that has an order, and so have those nested in it. -/
inductive LogicalPlan.Orderly : LogicalPlan → Prop
  | intro {plan : LogicalPlan} (built : plan.Built) (acyclic : plan.Acyclic)
    (operators : ∀ op ∈ plan.operators, LogicalOperator.Orderly op) : LogicalPlan.Orderly plan
end

section Orderly
variable {op child : LogicalOperator} {plan : LogicalPlan}

theorem LogicalOperator.Orderly.operand (h : op.Orderly) (hchild : .operand child ∈ op.children) :
    child.Orderly := by
  cases h with
  | intro _ hoperands _ => exact hoperands child hchild

theorem LogicalOperator.Orderly.subPlan (h : op.Orderly) (hplan : .subPlan plan ∈ op.children) :
    LogicalPlan.Orderly plan := by
  cases h with
  | intro _ _ hplans => exact hplans plan hplan

theorem LogicalOperator.Orderly.expression (hinputs : op.declaredInputs = none)
    (hchildren : ∀ child ∈ op.children, ∃ operand, child = .operand operand ∧ operand.Orderly) :
    op.Orderly := by
  refine .intro ?_ ?_ ?_
  · rintro k inputs groupBy parallelism rfl
    cases hinputs
  · intro child hchild
    obtain ⟨operand, heq, h⟩ := hchildren _ hchild
    cases heq
    exact h
  · intro plan hplan
    obtain ⟨operand, heq, -⟩ := hchildren _ hplan
    cases heq

theorem LogicalPlan.Orderly.operator (h : LogicalPlan.Orderly plan) (hop : op ∈ plan.operators) :
    op.Orderly := by
  cases h with
  | intro _ _ hoperators => exact hoperators op hop

theorem LogicalPlan.Orderly.sequence (h : LogicalPlan.Orderly plan) (s : Strategy) :
    Walker.sequence ⟨s, plan⟩ = .ok (Walker.inOrder ⟨s, plan⟩) := by
  cases h with
  | intro hbuilt hacyclic _ => exact Walker.sequence_eq_inOrder hbuilt hacyclic s

end Orderly

/-! ## The clauses, by what an operator owns -/

section Clauses
variable {choose : WalkerStack LogicalOperator → LogicalPlan → Strategy}
  {stack : WalkerStack LogicalOperator}

/-- What something that an operator owns shows. -/
def shownAt (choose : WalkerStack LogicalOperator → LogicalPlan → Strategy)
    (stack : WalkerStack LogicalOperator) : LogicalOperator.Child → List Sight
  | .operand op => shown choose stack op
  | .subPlan plan => shownWithin choose stack plan

theorem LogicalOperator.map_groupByPlans {inputs : List Key}
    {groupBy : List (List (Option LogicalPlan))} (hinputs : inputs.Nodup)
    (hlength : groupBy.length = inputs.length) :
    inputs.map (groupByPlans inputs groupBy) = groupBy := by
  refine List.ext_getElem (by simp [hlength]) ?_
  intro i hi hi'
  rw [List.length_map] at hi
  have hfind : inputs.findIdx (fun k => k = inputs[i]) = i := hinputs.idxOf_getElem i hi
  rw [List.getElem_map, groupByPlans, hfind, List.getElem?_eq_getElem hi']
  rfl

theorem flatMap_shownAt_present (plans : List (Option LogicalPlan)) :
    (plans.filterMap fun p => p.map LogicalOperator.Child.subPlan).flatMap (shownAt choose stack) =
      plans.flatMap fun present =>
        match _h : present with
        | some plan => shownWithin choose stack plan
        | none => [] := by
  induction plans with
  | nil => rfl
  | cons present plans ih =>
      cases present with
      | none => simpa using ih
      | some plan => simpa [shownAt] using ih

theorem shown_eq {op : LogicalOperator} (h : op.Orderly) : shown choose stack op =
    Sight.of stack op :: op.children.flatMap (shownAt choose stack) := by
  obtain ⟨hgroupings, -, -⟩ := h
  rw [shown.eq_def]
  refine congrArg _ ?_
  cases op with
  | load | store | const => rfl
  | binary k o lhs rhs => simp [LogicalOperator.children, shownAt]
  | unary k o operand => simp [LogicalOperator.children, shownAt]
  | cogroup k inputs groupBy parallelism =>
      obtain ⟨hinputs, hlength⟩ := hgroupings k inputs groupBy parallelism rfl
      have hlists : inputs.map (LogicalOperator.groupByPlans inputs groupBy) = groupBy :=
        LogicalOperator.map_groupByPlans hinputs hlength
      show _ = List.flatMap _ (inputs.flatMap fun i => _)
      rw [List.flatMap_assoc]
      simp only [flatMap_shownAt_present]
      conv_lhs => rw [← hlists, List.flatMap_map]
      rfl
  | generate k plans flatten => simp [LogicalOperator.children, shownAt, List.flatMap_map]
  | sort k plans ascending parallelism => simp [LogicalOperator.children, shownAt, List.flatMap_map]
  | filter k condition => simp [LogicalOperator.children, shownAt]
  | split k conditions => exact (flatMap_shownAt_present conditions).symm
  | forEach k plan => simp [LogicalOperator.children, shownAt]
  | userFunc k function args => simp [LogicalOperator.children, shownAt, List.flatMap_map]
  | binCond k cond lhs rhs => simp [LogicalOperator.children, shownAt]
  | cast k expr target => simp [LogicalOperator.children, shownAt]
  | regexp k operand pattern => simp [LogicalOperator.children, shownAt]
  | project k expr columns sentinel =>
      cases sentinel with
      | false => simp [LogicalOperator.children, shownAt]
      | true => simp [LogicalOperator.children]

end Clauses

/-! ## Visitors that take notes -/

/-- A visitor that takes a note of everything that it is shown, and has no other will than by which
walkers nested plans are walked. -/
def Visitor.observer (note : Sight → σ → σ)
    (choose : WalkerStack LogicalOperator → LogicalPlan → Strategy) : Visitor σ where
  enter op stack state := (.ok true, note ⟨op, stack.current.strategy.name, stack.depth⟩ state)
  nested := choose

/-- A visitor that keeps all that it is shown, in order. -/
def Visitor.recorder (choose : WalkerStack LogicalOperator → LogicalPlan → Strategy) :
    Visitor (List Sight) :=
  .observer (fun x seen => seen ++ [x]) choose

theorem Sight.of_eq (stack : WalkerStack LogicalOperator) (op : LogicalOperator) :
    Sight.of stack op = ⟨op, stack.current.strategy.name, stack.depth⟩ := by
  obtain ⟨base, nested⟩ := stack
  rw [Sight.of, Walkers.depth, Nat.add_comm]
  cases nested with
  | nil => rfl
  | cons w rest => rfl

/-- The visit after notes were taken of some sights. -/
def Visit.noted (note : Sight → σ → σ) (seen : List Sight) (s : Visit σ) : Visit σ :=
  { s with state := seen.foldl (fun state x => note x state) s.state }

section Notes
variable {note : Sight → σ → σ} {choose : WalkerStack LogicalOperator → LogicalPlan → Strategy}
  {stack : WalkerStack LogicalOperator}

@[simp] theorem Visit.stack_noted (seen : List Sight) (s : Visit σ) :
    (s.noted note seen).stack = s.stack := rfl

theorem Visit.noted_append (seen later : List Sight) (s : Visit σ) :
    s.noted note (seen ++ later) = (s.noted note seen).noted note later := by
  simp [Visit.noted, List.foldl_append]

theorem Visit.each_noted {β : Type} {visit : β → Visit σ → Visited σ} {shows : β → List Sight}
    {l : List β} (h : ∀ b ∈ l, ∀ s : Visit σ, s.stack = stack →
      visit b s = (.ok (), s.noted note (shows b)))
    {s : Visit σ} (hs : s.stack = stack) :
    Visit.each visit l s = (.ok (), s.noted note (l.flatMap shows)) := by
  induction l generalizing s with
  | nil => rfl
  | cons b l ih =>
      have hrest := ih (fun c hc => h c (List.mem_cons_of_mem _ hc))
        (s := s.noted note (shows b)) hs
      rw [List.flatMap_cons, Visit.noted_append, Visit.each, h b List.mem_cons_self s hs]
      exact hrest

theorem Visit.within_noted {w : Walker LogicalOperator} {visit : Visit σ → Visited σ}
    {seen : List Sight} {s : Visit σ} (h : ∀ s' : Visit σ, s'.stack = s.stack.push w →
      visit s' = (.ok (), s'.noted note seen)) :
    Visit.within w visit s = (.ok (), s.noted note seen) := by
  simp only [Visit.within, h { s with stack := s.stack.push w } rfl]
  rfl

theorem Course.run_inOrder {op : LogicalOperator} {children : List LogicalOperator.Child}
    (walk : LogicalOperator.Child → Option Strategy → Visit σ → Visited σ)
    (smaller : ∀ child ∈ children, child.size < sizeOf op) (s : Visit σ) :
    (Course.inOrder children smaller).run (fun child _ => walk child) s =
      Visit.each (fun child => walk child none) children s := by
  induction children generalizing s with
  | nil => rfl
  | cons child rest ih =>
      cases hwalked : walk child none s with
      | mk result s' =>
          simp only [Course.inOrder, Course.run, Visit.each, Visited.andThen, hwalked]
          cases result with
          | ok u => exact ih _ s'
          | error e => rfl

/-! ## What is shown is what the clauses say -/

theorem Visitor.observer_accept {op : LogicalOperator} (h : op.Orderly) (s : Visit σ) :
    (observer note choose).accept op s = (.ok (), s.noted note (shown choose s.stack op)) := by
  have hchild : ∀ child ∈ op.children, ∀ s₁ : Visit σ, s₁.stack = s.stack →
      (observer note choose).walkChild child none s₁ =
        (.ok (), s₁.noted note (shownAt choose s.stack child)) := by
    intro child hmem s₁ hs₁
    have hlt := LogicalOperator.size_lt_of_mem_children hmem
    rw [← hs₁]
    cases child with
    | operand operand =>
        have : sizeOf operand < sizeOf op := hlt
        exact observer_accept (h.operand hmem) s₁
    | subPlan plan =>
        have hplan := h.subPlan hmem
        have hbelow : ∀ o ∈ plan.operators, ∀ s₂ : Visit σ,
            (observer note choose).accept o s₂ =
              (.ok (), s₂.noted note (shown choose s₂.stack o)) := by
          intro o ho s₂
          have : sizeOf o < sizeOf op :=
            Nat.lt_trans (LogicalOperator.sizeOf_lt_of_mem_operators ho) hlt
          exact observer_accept (hplan.operator ho) s₂
        simp only [walkChild, shownAt]
        show Visit.within ⟨choose s₁.stack plan, plan⟩
          ((observer note choose).visitRoots ⟨choose s₁.stack plan, plan⟩) s₁ = _
        refine Visit.within_noted ?_
        intro s₂ hs₂
        rw [shownWithin, visitRoots, hplan.sequence]
        refine Visit.each_noted ?_ hs₂
        intro o _ s₃ hs₃
        rw [← hs₃]
        exact hbelow o.val o.property s₃
  have hwalked := Visit.each_noted hchild
    (s := s.noted note [Sight.of s.stack op]) (Visit.stack_noted _ s)
  have henter : (observer note choose).enter op s.stack s.state =
      (.ok true, note (Sight.of s.stack op) s.state) := by
    rw [Sight.of_eq]
    rfl
  rw [shown_eq h, ← List.singleton_append, Visit.noted_append, accept_eq, henter]
  show Visited.andThen ((Course.inOrder op.children _).run
    (fun child _ => (observer note choose).walkChild child)
    (s.noted note [Sight.of s.stack op])) _ = _
  rw [Course.run_inOrder, hwalked]
  rfl
termination_by sizeOf op
decreasing_by
  · assumption
  · assumption

theorem Visitor.observer_run {plan : LogicalPlan} (h : LogicalPlan.Orderly plan) (outer : Strategy)
    (state : σ) :
    (observer note choose).run outer plan state = (.ok (), ⟨⟨⟨outer, plan⟩, []⟩,
      (shownFrom choose outer plan).foldl (fun state x => note x state) state⟩) := by
  have hall : ∀ (o : { op // op ∈ plan.operators }) (s : Visit σ),
      s.stack = ⟨⟨outer, plan⟩, []⟩ → (observer note choose).accept o.val s =
        (.ok (), s.noted note (shown choose ⟨⟨outer, plan⟩, []⟩ o.val)) := by
    intro o s hs
    rw [← hs]
    exact observer_accept (h.operator o.property) s
  have hseq : (⟨⟨outer, plan⟩, []⟩ : WalkerStack LogicalOperator).current.sequence = .ok _ :=
    h.sequence outer
  simp only [run, visit, hseq]
  exact Visit.each_noted (fun o _ s hs => hall o s hs) rfl

end Notes

/-! ## Recording and printing -/

/-- A sight as a line of a tree, indented by two blanks for each nested plan around it. -/
def Sight.line (x : Sight) : String :=
  String.ofList (List.replicate (2 * (x.depth - 1)) ' ') ++ PlanNode.name x.operator ++ "\n"

theorem LogicalPlan.treePrinter_eq : treePrinter =
    Visitor.observer (fun x out => out ++ x.line) fun _ _ => .dependencyOrder := by
  have henter : treePrinter.enter = (Visitor.observer (fun x out => out ++ x.line)
      fun _ _ => .dependencyOrder).enter := by
    funext op stack out
    simp only [treePrinter, Visitor.observer, Sight.line, String.append_assoc]
  simp only [treePrinter, Visitor.observer] at henter ⊢
  rw [henter]

/-- A visitor without a course of its own is shown what the clauses say, whatever walkers it chooses,
and the printed tree is made of what it is shown in dependency order. -/
theorem Visitor.shows_reference {plan : LogicalPlan} (h : LogicalPlan.Orderly plan) :
    (∀ (outer : Strategy) (choose : WalkerStack LogicalOperator → LogicalPlan → Strategy),
      (recorder choose).run outer plan [] =
        (.ok (), ⟨⟨⟨outer, plan⟩, []⟩, shownFrom choose outer plan⟩)) ∧
    plan.tree = .ok (String.join
      ((shownFrom (fun _ _ => .dependencyOrder) .dependencyOrder plan).map Sight.line)) := by
  refine ⟨?_, ?_⟩
  · intro outer choose
    have hfold : ∀ l : List Sight, l.foldl (fun seen x => seen ++ [x]) [] = l := by
      intro l
      rw [List.foldl_append_eq_append (f := fun x => [x]), List.nil_append, ← List.flatMap_def,
        List.flatMap_singleton']
    rw [recorder, observer_run h, hfold]
  · have hlines : ∀ l : List Sight,
        l.foldl (fun out x => out ++ x.line) "" = String.join (l.map Sight.line) := by
      intro l
      rw [String.join, List.foldl_map]
    rw [LogicalPlan.tree, LogicalPlan.treePrinter_eq, observer_run h, hlines]
    rfl

/-- Two grouping expressions: a column that is resolved, and a negation. -/
def groupingKeys : LogicalPlan := .ofOperators
  [.project ⟨"l", 3⟩ (.load ⟨"l", 4⟩ "in") [0] true,
    .unary ⟨"l", 5⟩ .not (.const ⟨"l", 6⟩ (.boolean true))]

def groupedPlan : LogicalPlan := .ofOperators
  [.load ⟨"l", 1⟩ "in", .cogroup ⟨"l", 2⟩ [⟨"l", 1⟩] [[some groupingKeys, none]] none]

theorem grouped_shows : LogicalPlan.Orderly groupedPlan ∧
    (Visitor.recorder fun _ _ => .depthFirst).run .reverseDependencyOrder groupedPlan [] =
      (.ok (), ⟨⟨⟨.reverseDependencyOrder, groupedPlan⟩, []⟩,
        shownFrom (fun _ _ => .depthFirst) .reverseDependencyOrder groupedPlan⟩) ∧
    ((shownFrom (fun _ _ => .depthFirst) .reverseDependencyOrder groupedPlan).map
      fun x => (x.operator.key.id, x.walker, x.depth)) =
      [(2, "reverse-dependency-order", 1), (3, "depth-first", 2), (5, "depth-first", 2),
        (6, "depth-first", 2), (1, "reverse-dependency-order", 1)] := by
  have hleaf : ∀ op : LogicalOperator, op.declaredInputs = none → op.children = [] →
      op.Orderly := by
    intro op hinputs hnil
    refine .expression hinputs ?_
    rw [hnil]
    exact fun _ h => absurd h List.not_mem_nil
  have hkeys : LogicalPlan.Orderly groupingKeys := by
    have hbuilt : groupingKeys.Built := Plan.built_ofOperators _
    refine .intro hbuilt ?_ ?_
    · exact (Plan.exists_dependencyKeys_iff hbuilt.wellFormed).mp ⟨[⟨"l", 3⟩, ⟨"l", 5⟩], by cbv⟩
    · intro op hop
      have hops : groupingKeys.operators = [_, _] := rfl
      rw [hops, List.mem_cons, List.mem_singleton] at hop
      rcases hop with rfl | rfl
      · exact hleaf _ rfl rfl
      · refine .expression rfl ?_
        intro child hchild
        exact ⟨_, List.mem_singleton.mp hchild, hleaf _ rfl rfl⟩
  have hgrouped : LogicalPlan.Orderly groupedPlan := by
    have hbuilt : groupedPlan.Built := Plan.built_ofOperators _
    refine .intro hbuilt ?_ ?_
    · exact (Plan.exists_dependencyKeys_iff hbuilt.wellFormed).mp ⟨[⟨"l", 1⟩, ⟨"l", 2⟩], by cbv⟩
    · intro op hop
      have hops : groupedPlan.operators = [_, _] := rfl
      rw [hops, List.mem_cons, List.mem_singleton] at hop
      rcases hop with rfl | rfl
      · exact hleaf _ rfl rfl
      · refine .intro ?_ ?_ ?_
        · intro k inputs groupBy parallelism h
          cases h
          exact ⟨List.nodup_singleton _, rfl⟩
        · intro child hchild
          cases List.mem_singleton.mp hchild
        · intro plan hplan
          cases List.mem_singleton.mp hplan
          exact hkeys
  exact ⟨hgrouped, (Visitor.shows_reference hgrouped).1 _ _, by cbv⟩

end Dataflow
