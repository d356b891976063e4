import Dataflow.Proofs.Logical.Sights
/-!
# Tours

A visitor is told of an operator twice, before its children and after them.  A tour is everything that a
visitor is told as long as it does not fail, and it knows of no failures.  A visit is then no more than
the tour, told to the visitor until it fails; so how failures get through operands, nested plans and the
walkers that are removed behind them is settled here, once for all visitors that do nothing but hear
what they are told.

The tour follows what an operator owns, and not its kind, so there is no condition on groupings.

**Proved here.**

    what has to do with walkers only as it is told      (`Visit.each_told_stack`, `Visit.within_told`)
    an operator, and everything below it                (`Visitor.listener_accept`)
    a whole plan                                        (`Visitor.listener_run`)
-/
namespace Dataflow

/-- What a visitor is told: of an operator before its children, and again after them. -/
inductive Telling where
  | before (x : Sight)
  | after (x : Sight)

variable {σ : Type}

section Tours
variable (choose : WalkerStack LogicalOperator → LogicalPlan → Strategy)

mutual
/-- What a visitor is told of an operator and of everything below it, if it does not fail. -/
def tour (stack : WalkerStack LogicalOperator) (op : LogicalOperator) : List Telling :=
  .before (Sight.of stack op) ::
    (op.children.attach.flatMap fun child => tourAt stack child.val) ++ [.after (Sight.of stack op)]
  termination_by (sizeOf op, 0)
  decreasing_by exact Prod.Lex.left _ _ (LogicalOperator.size_lt_of_mem_children child.property)

/-- What it is told of something that an operator owns. -/
def tourAt (stack : WalkerStack LogicalOperator) : LogicalOperator.Child → List Telling
  | .operand op => tour stack op
  | .subPlan plan =>
    ((Walker.inOrder ⟨choose stack plan, plan⟩).filter fun o =>
      plan.isRoot (PlanNode.key o.val)).flatMap fun o =>
        tour (stack.push ⟨choose stack plan, plan⟩) o.val
  termination_by child => (child.size, 1)
  decreasing_by
  · exact Prod.Lex.right _ Nat.zero_lt_one
  · exact Prod.Lex.left _ _ (LogicalOperator.sizeOf_lt_of_mem_operators o.property)
end

def tourFrom (outer : Strategy) (plan : LogicalPlan) : List Telling :=
  (Walker.inOrder ⟨outer, plan⟩).flatMap fun o => tour choose ⟨⟨outer, plan⟩, []⟩ o.val

theorem tour_eq (stack : WalkerStack LogicalOperator) (op : LogicalOperator) :
    tour choose stack op = .before (Sight.of stack op) ::
      (op.children.flatMap (tourAt choose stack) ++ [.after (Sight.of stack op)]) := by
  have hchildren : (op.children.attach.flatMap fun child => tourAt choose stack child.val) =
      op.children.flatMap (tourAt choose stack) := by
    rw [List.flatMap_subtype fun _ _ => rfl, List.unattach_attach]
  rw [tour, hchildren, List.cons_append]

end Tours

/-! ## Plans that have an order -/

mutual
/-- An operator whose nested plans are acyclic, at any depth. -/
inductive LogicalOperator.DeeplyAcyclic : LogicalOperator → Prop
  | intro {op : LogicalOperator}
    (operands : ∀ child, .operand child ∈ op.children → LogicalOperator.DeeplyAcyclic child)
    (plans : ∀ plan, .subPlan plan ∈ op.children → LogicalPlan.DeeplyAcyclic plan) :
    LogicalOperator.DeeplyAcyclic op

/-- A plan that is acyclic, and so are those nested in it. -/
inductive LogicalPlan.DeeplyAcyclic : LogicalPlan → Prop
  | intro {plan : LogicalPlan} (built : plan.Built) (acyclic : plan.Acyclic)
    (operators : ∀ op ∈ plan.operators, LogicalOperator.DeeplyAcyclic op) :
    LogicalPlan.DeeplyAcyclic plan
end

section DeeplyAcyclic
variable {op child : LogicalOperator} {plan : LogicalPlan}

theorem LogicalOperator.DeeplyAcyclic.operand (h : op.DeeplyAcyclic)
    (hchild : .operand child ∈ op.children) : child.DeeplyAcyclic := by
  cases h with
  | intro hoperands _ => exact hoperands child hchild

theorem LogicalOperator.DeeplyAcyclic.subPlan (h : op.DeeplyAcyclic)
    (hplan : .subPlan plan ∈ op.children) : LogicalPlan.DeeplyAcyclic plan := by
  cases h with
  | intro _ hplans => exact hplans plan hplan

theorem LogicalPlan.DeeplyAcyclic.operator (h : LogicalPlan.DeeplyAcyclic plan)
    (hop : op ∈ plan.operators) : op.DeeplyAcyclic := by
  cases h with
  | intro _ _ hoperators => exact hoperators op hop

theorem LogicalOperator.DeeplyAcyclic.leaf (h : op.children = []) : op.DeeplyAcyclic := by
  refine .intro ?_ ?_ <;>
    · rw [h]
      exact fun _ hmem => absurd hmem List.not_mem_nil

theorem LogicalOperator.DeeplyAcyclic.forEach {k : Key} (h : LogicalPlan.DeeplyAcyclic plan) :
    (LogicalOperator.forEach k plan).DeeplyAcyclic := by
  refine .intro ?_ ?_
  · intro child hchild
    cases List.mem_singleton.mp hchild
  · intro nested hnested
    obtain rfl := LogicalOperator.Child.subPlan.inj (List.mem_singleton.mp hnested)
    exact h

theorem LogicalPlan.DeeplyAcyclic.of_keys {ks : List Key} (hbuilt : plan.Built)
    (hks : plan.dependencyKeys = .ok ks) (hops : ∀ op ∈ plan.operators, op.DeeplyAcyclic) :
    LogicalPlan.DeeplyAcyclic plan :=
  .intro hbuilt ((Plan.exists_dependencyKeys_iff hbuilt.wellFormed).mp ⟨ks, hks⟩) hops

theorem LogicalPlan.DeeplyAcyclic.sequence (h : LogicalPlan.DeeplyAcyclic plan) (s : Strategy) :
    Walker.sequence ⟨s, plan⟩ = .ok (Walker.inOrder ⟨s, plan⟩) := by
  cases h with
  | intro hbuilt hacyclic _ => exact Walker.sequence_eq_inOrder hbuilt hacyclic s

end DeeplyAcyclic

/-! ## Lists of visits -/

namespace Visit
section Each
variable {α β : Type} {visit : β → Visit σ → Visited σ}

theorem each_append (l later : List β) (s : Visit σ) :
    each visit (l ++ later) s = (each visit l s).andThen (each visit later) := by
  induction l generalizing s with
  | nil => rfl
  | cons b l ih =>
      simp only [List.cons_append, each, Visited.andThen]
      rcases visit b s with ⟨_ | _, s'⟩
      · rfl
      · exact ih s'

theorem each_flatMap (f : α → List β) (l : List α) (s : Visit σ) :
    each visit (l.flatMap f) s = each (fun a => each visit (f a)) l s := by
  induction l generalizing s with
  | nil => rfl
  | cons a l ih =>
      rw [List.flatMap_cons, each_append, each]
      congr 1
      funext s'
      exact ih s'

/-- Visits that agree while the walkers stay as they are. -/
theorem each_congr {visit' : β → Visit σ → Visited σ} {stack : WalkerStack LogicalOperator}
    {l : List β} (h : ∀ b ∈ l, ∀ s : Visit σ, s.stack = stack →
      visit b s = visit' b s ∧ (visit' b s).2.stack = stack) {s : Visit σ} (hs : s.stack = stack) :
    each visit l s = each visit' l s := by
  induction l generalizing s with
  | nil => rfl
  | cons b l ih =>
      obtain ⟨heq, hstack⟩ := h b List.mem_cons_self s hs
      simp only [each, heq, Visited.andThen]
      rcases hvisit : visit' b s with ⟨_ | _, s'⟩
      · rfl
      · rw [hvisit] at hstack
        exact ih (fun c hc => h c (List.mem_cons_of_mem _ hc)) hstack

end Each

def told (hear : Telling → σ → Except PlanError Unit × σ) (t : Telling) (s : Visit σ) : Visited σ :=
  ((hear t s.state).1, { s with state := (hear t s.state).2 })

section Told
variable {hear : Telling → σ → Except PlanError Unit × σ}

/-- What a visitor is told has to do with walkers only in so far as it says so. -/
theorem each_told_stack (tellings : List Telling) (stack : WalkerStack LogicalOperator) (s : Visit σ) :
    each (told hear) tellings { s with stack } =
      ((each (told hear) tellings s).1, { (each (told hear) tellings s).2 with stack }) := by
  induction tellings generalizing s with
  | nil => rfl
  | cons t rest ih =>
      simp only [each, told, Visited.andThen]
      rcases hear t s.state with ⟨_ | _, state⟩
      · rfl
      · exact ih { s with state }

theorem stack_each_told (tellings : List Telling) (s : Visit σ) :
    (each (told hear) tellings s).2.stack = s.stack := by
  rw [each_told_stack tellings s.stack s]

theorem within_told {w : Walker LogicalOperator} {visit : Visit σ → Visited σ}
    {tellings : List Telling} {s : Visit σ} (h : ∀ s' : Visit σ, s'.stack = s.stack.push w →
      visit s' = each (told hear) tellings s') :
    within w visit s = each (told hear) tellings s := by
  simp only [within, VisitBy.leave, h { s with stack := s.stack.push w } rfl, each_told_stack]
  refine Eq.trans ?_ (each_told_stack tellings s.stack s).symm
  cases (each (told hear) tellings s).1 <;> rfl

end Told
end Visit

/-! ## A visitor is told what the tour says -/

namespace Visitor

/-- A visitor that does nothing but hear what it is told, and that chooses the walkers of nested
plans. -/
def listener (hear : Telling → σ → Except PlanError Unit × σ)
    (choose : WalkerStack LogicalOperator → LogicalPlan → Strategy) : Visitor σ where
  enter op stack state :=
    let (result, state) := hear (.before ⟨op, stack.current.strategy.name, stack.depth⟩) state
    (result.map fun _ => true, state)
  leave op stack state := hear (.after ⟨op, stack.current.strategy.name, stack.depth⟩) state
  nested := choose

section Listeners
variable {hear : Telling → σ → Except PlanError Unit × σ}
  {choose : WalkerStack LogicalOperator → LogicalPlan → Strategy}

theorem listener_accept {op : LogicalOperator} (h : op.DeeplyAcyclic) (s : Visit σ) :
    (listener hear choose).accept op s =
      Visit.each (Visit.told hear) (tour choose s.stack op) s := by
  have hchild : ∀ child ∈ op.children, ∀ s₁ : Visit σ, s₁.stack = s.stack →
      (listener hear choose).walkChild child none s₁ =
        Visit.each (Visit.told hear) (tourAt choose s.stack child) s₁ := by
    intro child hmem s₁ hs₁
    have hlt := LogicalOperator.size_lt_of_mem_children hmem
    rw [← hs₁]
    cases child with
    | operand operand =>
        have : sizeOf operand < sizeOf op := hlt
        rw [tourAt]
        exact listener_accept (h.operand hmem) s₁
    | subPlan plan =>
        have hplan := h.subPlan hmem
        have hbelow : ∀ o ∈ plan.operators, ∀ s₂ : Visit σ, (listener hear choose).accept o s₂ =
            Visit.each (Visit.told hear) (tour choose s₂.stack o) s₂ := by
          intro o ho s₂
          have : sizeOf o < sizeOf op :=
            Nat.lt_trans (LogicalOperator.sizeOf_lt_of_mem_operators ho) hlt
          exact listener_accept (hplan.operator ho) s₂
        rw [tourAt]
        show Visit.within ⟨choose s₁.stack plan, plan⟩
          ((listener hear choose).visitRoots ⟨choose s₁.stack plan, plan⟩) s₁ = _
        refine Visit.within_told ?_
        intro s₂ hs₂
        rw [visitRoots, hplan.sequence, Visit.each_flatMap]
        refine Visit.each_congr (fun o _ s₃ hs₃ => ?_) hs₂
        rw [← hs₃]
        exact ⟨hbelow o.val o.property s₃, Visit.stack_each_told _ _⟩
  have hwalked : ∀ s₁ : Visit σ, s₁.stack = s.stack →
      ((listener hear choose).walk op).run
          (fun child _ => (listener hear choose).walkChild child) s₁ =
        Visit.each (Visit.told hear) (op.children.flatMap (tourAt choose s.stack)) s₁ := by
    intro s₁ hs₁
    rw [Visit.each_flatMap]
    refine (Course.run_inOrder _ _ s₁).trans (Visit.each_congr (fun child hmem s₂ hs₂ => ?_) hs₁)
    exact ⟨hchild child hmem s₂ hs₂, (Visit.stack_each_told _ _).trans hs₂⟩
  rw [accept_eq, tour_eq, Visit.each, Visit.told, Sight.of_eq]
  simp only [listener]
  rcases hear (.before ⟨op, s.stack.current.strategy.name, s.stack.depth⟩) s.state with ⟨_ | _, state⟩
  · rfl
  · show Visited.andThen (((listener hear choose).walk op).run
      (fun child _ => (listener hear choose).walkChild child) { s with state }) _ = _
    rw [hwalked { s with state } rfl]
    refine Eq.trans ?_ (Visit.each_append _ _ { s with state }).symm
    have hstack : (Visit.each (Visit.told hear) (op.children.flatMap (tourAt choose s.stack))
      { s with state }).2.stack = s.stack := Visit.stack_each_told _ _
    rcases hbelow : Visit.each (Visit.told hear) (op.children.flatMap (tourAt choose s.stack))
      { s with state } with ⟨_ | _, stack, state'⟩
    · rfl
    · rw [hbelow] at hstack
      obtain rfl : stack = s.stack := hstack
      simp only [Visited.andThen, leaveAt, Visit.each, Visit.told]
      rcases hear _ state' with ⟨_ | _, state''⟩ <;> rfl
termination_by sizeOf op
decreasing_by
  · assumption
  · assumption

theorem listener_run {plan : LogicalPlan} (h : LogicalPlan.DeeplyAcyclic plan) (outer : Strategy)
    (state : σ) : (listener hear choose).run outer plan state =
      Visit.each (Visit.told hear) (tourFrom choose outer plan) ⟨⟨⟨outer, plan⟩, []⟩, state⟩ := by
  have hseq : (⟨⟨outer, plan⟩, []⟩ : WalkerStack LogicalOperator).current.sequence = .ok _ :=
    h.sequence outer
  have hall : ∀ (o : { op // op ∈ plan.operators }) (s : Visit σ),
      s.stack = ⟨⟨outer, plan⟩, []⟩ → (listener hear choose).accept o.val s =
        Visit.each (Visit.told hear) (tour choose ⟨⟨outer, plan⟩, []⟩ o.val) s := by
    intro o s hs
    rw [← hs]
    exact listener_accept (h.operator o.property) s
  simp only [run, visit, hseq]
  rw [tourFrom, Visit.each_flatMap]
  exact Visit.each_congr
    (fun o _ s hs => ⟨hall o s hs, (Visit.stack_each_told _ _).trans hs⟩) rfl

end Listeners
end Visitor

end Dataflow
