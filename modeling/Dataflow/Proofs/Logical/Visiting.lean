import Mathlib.Data.List.Permutation
import Dataflow.Proofs.Logical.Reentrant
import Dataflow.Proofs.Plan.Acyclic
/-!
# What a visit leaves behind

The visitors that can be run walk only what is smaller than an operator, by the known strategies, and
so every visit ends.  They are visitors of any kind (`Visitor.toBy`), and what a visit of theirs
returns is what their code comes to; so it leaves the walkers as they were.  That is an induction on
the size of operators.  The errors that can come out are those of the visitor itself, and the cycles
that a walker finds.

**Proved here.**

    one more operator, by what it owns                 (`Visitor.accept_eq`)
    courses, and operators and everything below them   (`Visitor.runs_course`, `Visitor.runs_accept`)
    the walkers are the same before and after a visit  (`Visitor.walkers_restored`)
-/
namespace Dataflow

variable {σ : Type}

/-! ## One operator -/

namespace Visitor

/-- Visits the roots of the plan of a walker, in the order of that walker. -/
def visitRoots (v : Visitor σ) (w : Walker LogicalOperator) (s : Visit σ) : Visited σ :=
  match w.sequence with
  | .error e => (.error e, s)
  | .ok ops =>
    Visit.each (fun o s => v.accept o.val s)
      (ops.filter fun o => w.plan.isRoot (PlanNode.key o.val)) s

/-- Walks something that an operator owns. -/
def walkChild (v : Visitor σ) :
    LogicalOperator.Child → Option Strategy → Visit σ → Visited σ
  | .operand op, _, s => v.accept op s
  | .subPlan plan, strategy, s =>
    let w : Walker LogicalOperator := ⟨strategy.getD (v.nested s.stack plan), plan⟩
    Visit.within w (v.visitRoots w) s

/-- Tells the visitor of an operator after its children. -/
def leaveAt (v : Visitor σ) (op : LogicalOperator) (s : Visit σ) : Visited σ :=
  ((v.leave op s.stack s.state).1, { s with state := (v.leave op s.stack s.state).2 })

theorem accept_eq (v : Visitor σ) (op : LogicalOperator) (s : Visit σ) :
    v.accept op s =
      match v.enter op s.stack s.state with
      | (.error e, state) => (.error e, { s with state })
      | (.ok true, state) =>
        Visited.andThen ((v.walk op).run (fun child _ => v.walkChild child) { s with state })
          (v.leaveAt op)
      | (.ok false, state) => v.leaveAt op { s with state } := by
  rw [accept]
  split
  next e state henter => rw [henter]
  next descend state henter =>
    rw [henter]
    cases descend with
    | false => rfl
    | true =>
        simp only [if_true]
        congr
        funext child smaller strategy s
        cases child with
        | operand operand => rfl
        | subPlan plan => rfl

end Visitor

/-! ## Errors -/

/-- The errors that a visitor makes itself while it follows a course are in `E`.  An error that the
walk of a child has ended with may be passed on. -/
def Course.Raises {op : LogicalOperator} (E : PlanError → Prop) : Course σ op → Prop
  | .done result => ∀ e, result = .error e → E e
  | .note _ rest => ∀ stack state, (rest stack state).Raises E
  | .walk _ _ _ rest => ∀ result, (∀ e, result = .error e → E e) → (rest result).Raises E

theorem Course.raises_inOrder {op : LogicalOperator} (E : PlanError → Prop)
    {children : List LogicalOperator.Child} (smaller : ∀ child ∈ children, child.size < sizeOf op) :
    (Course.inOrder children smaller : Course σ op).Raises E := by
  induction children with
  | nil =>
      intro e he
      cases he
  | cons child rest ih =>
      intro result hresult
      cases result with
      | ok u => exact ih _
      | error e =>
          intro e' he'
          exact hresult e' he'

/-- The errors that a visitor makes itself are in `E`. -/
structure Visitor.Raises (v : Visitor σ) (E : PlanError → Prop) : Prop where
  enter : ∀ op stack state e, (v.enter op stack state).1 = .error e → E e
  walk : ∀ op, (v.walk op).Raises E
  leave : ∀ op stack state e, (v.leave op stack state).1 = .error e → E e

/-! ## The code of a visitor -/

/-- A course as the code of a visitor. -/
def Course.action {op : LogicalOperator} (v : Visitor σ) :
    Course σ op → Action (Walker LogicalOperator) σ
  | .done result => .done result
  | .note change rest => .note change fun stack state => (rest stack (change stack state)).action v
  | .walk (.operand child) _ _ rest => .accept child fun result => (rest result).action v
  | .walk (.subPlan plan) _ strategy rest =>
    .enter plan (fun stack _ => ⟨strategy.getD (v.nested stack plan), plan⟩) fun result =>
      (rest result).action v

namespace Visitor

def leaveAction (v : Visitor σ) (op : LogicalOperator) : Action (Walker LogicalOperator) σ :=
  .note (fun stack state => (v.leave op stack state).2) fun stack state =>
    .done (v.leave op stack state).1

def acceptAction (v : Visitor σ) (op : LogicalOperator) : Action (Walker LogicalOperator) σ :=
  .note (fun stack state => (v.enter op stack state).2) fun stack state =>
    match (v.enter op stack state).1 with
    | .error e => .done (.error e)
    | .ok true => ((v.walk op).action v).before (v.leaveAction op)
    | .ok false => v.leaveAction op

/-- The visitor among the visitors of any kind. -/
def toBy (v : Visitor σ) : VisitorBy (Walker LogicalOperator) σ where
  sequence w := w.sequence.map fun ops => ops.map Subtype.val
  operation := v.acceptAction

end Visitor

section Runs
variable {v : Visitor σ} {s : Visit σ}

theorem VisitorBy.Runs.before {u : VisitorBy (Walker LogicalOperator) σ}
    {a next : Action (Walker LogicalOperator) σ} {x : Visited σ} {f : Visit σ → Visited σ}
    (h : u.Runs a s x) (hnext : ∀ s, u.Runs next s (f s)) :
    u.Runs (a.before next) s (x.andThen f) := by
  induction h with
  | @done result s =>
      cases result with
      | ok => exact hnext s
      | error e => exact .done
  | note _ ih => exact .note ih
  | accept h _ _ ih => exact .accept h ih
  | enter h _ _ ih => exact .enter h ih
  | walkCurrent h _ _ ih => exact .walkCurrent h ih

theorem VisitorBy.runs_each {β : Type} {u : VisitorBy (Walker LogicalOperator) σ}
    {visit : β → Visit σ → Visited σ} {f : β → LogicalOperator} {l : List β}
    (h : ∀ b ∈ l, ∀ s, u.Runs (u.dispatch (f b)) s (visit b s)) :
    u.Runs (.each (l.map f)) s (Visit.each visit l s) := by
  induction l generalizing s with
  | nil => exact .done
  | cons b l ih =>
      refine .accept (h b List.mem_cons_self s) ?_
      have hrest := fun s => ih (s := s) fun c hc => h c (List.mem_cons_of_mem _ hc)
      rw [Visit.each]
      obtain ⟨result, s'⟩ := visit b s
      cases result with
      | ok => exact hrest s'
      | error e => exact .done

theorem Course.Raises.action {E : PlanError → Prop} {op : LogicalOperator} {c : Course σ op}
    (h : c.Raises E) : (c.action v).Raises E := by
  induction c with
  | done result => exact h
  | note change rest ih => exact fun stack state => ih _ _ (h _ _)
  | walk child smaller strategy rest ih =>
      cases child with
      | operand child => exact fun result hresult => ih result (h result hresult)
      | subPlan plan => exact fun result hresult => ih result (h result hresult)

namespace Visitor

theorem runs_walkBy {w : Walker LogicalOperator} (keep : LogicalOperator → Bool)
    (h : ∀ o ∈ w.plan.operators, ∀ s, v.toBy.Runs (v.toBy.dispatch o) s (v.accept o s)) :
    v.toBy.Runs (v.toBy.walkBy w keep) s
      (match w.sequence with
      | .error e => (.error e, s)
      | .ok ops => Visit.each (fun o s => v.accept o.val s) (ops.filter fun o => keep o.val) s) := by
  have hsequence : v.toBy.sequence w = w.sequence.map fun ops => ops.map Subtype.val := rfl
  rw [VisitorBy.walkBy, hsequence]
  cases w.sequence with
  | error e => exact .done
  | ok ops =>
      show v.toBy.Runs (.each ((ops.map Subtype.val).filter keep)) _ _
      rw [List.filter_map]
      exact VisitorBy.runs_each fun o _ => h o.val o.property

theorem runs_course {op : LogicalOperator}
    (hoperand : ∀ child, sizeOf child < sizeOf op → ∀ s,
      v.toBy.Runs (v.toBy.dispatch child) s (v.accept child s)) (c : Course σ op) (s : Visit σ) :
    v.toBy.Runs (c.action v) s (c.run (fun child _ => v.walkChild child) s) := by
  induction c generalizing s with
  | done result => exact .done
  | note change rest ih => exact .note (ih _ _ _)
  | walk child smaller strategy rest ih =>
      cases child with
      | operand child => exact .accept (hoperand child smaller s) (ih _ _)
      | subPlan plan =>
          let w : Walker LogicalOperator := ⟨strategy.getD (v.nested s.stack plan), plan⟩
          have hroots : v.toBy.Runs (v.toBy.walkBy w fun op => plan.isRoot (PlanNode.key op))
              { s with stack := s.stack.push w }
              (v.visitRoots w { s with stack := s.stack.push w }) :=
            runs_walkBy _ fun o ho =>
              hoperand o ((LogicalOperator.sizeOf_lt_of_mem_operators ho).trans smaller)
          have hwalked : v.walkChild (.subPlan plan) strategy s =
              VisitBy.leave (v.visitRoots w { s with stack := s.stack.push w }) := rfl
          refine .enter hroots ?_
          rw [← hwalked]
          exact ih _ _

/-- The visit of an operator is what the code of the visitor comes to. -/
theorem runs_accept (v : Visitor σ) (op : LogicalOperator) (s : Visit σ) :
    v.toBy.Runs (v.toBy.dispatch op) s (v.accept op s) := by
  have hleave : ∀ s, v.toBy.Runs (v.leaveAction op) s (v.leaveAt op s) := fun s => .note .done
  have hcourse := runs_course (fun child _ => runs_accept v child) (v.walk op)
  refine .note ?_
  rw [accept_eq]
  cases henter : v.enter op s.stack s.state with
  | mk result state =>
      cases result with
      | error e => exact .done
      | ok descend =>
          cases descend with
          | true => exact (hcourse _).before hleave
          | false => exact hleave _
termination_by sizeOf op

theorem runs_visit (v : Visitor σ) (s : Visit σ) : v.toBy.Runs v.toBy.visit s (v.visit s) := by
  have hwalk := runs_walkBy (v := v) (s := s) (w := s.stack.current) (fun _ => true)
    fun o _ => v.runs_accept o
  have hvisit : v.toBy.Runs (v.toBy.walkBy s.stack.current fun _ => true) s (v.visit s) := by
    rw [visit]
    cases hseq : s.stack.current.sequence with
    | error e => simpa only [hseq] using hwalk
    | ok ops => simpa only [hseq, List.filter_true] using hwalk
  exact .walkCurrent hvisit .done

theorem Raises.toBy {E : PlanError → Prop} (hv : v.Raises E) (hcycle : ∀ k, E (.cycle k)) :
    v.toBy.Raises E := by
  refine ⟨?_, ?_, ?_, ?_⟩
  · intro w e he
    have hsequence : w.sequence = .error e := by
      cases hseq : w.sequence with
      | ok ops => simp [Visitor.toBy, hseq, Except.map] at he
      | error e' => simpa [Visitor.toBy, hseq, Except.map] using he
    obtain ⟨k, rfl⟩ := Plan.sequence_eq_error hsequence
    exact hcycle k
  · intro op e he
    cases he
  · intro op stack state
    have hleave : (v.leaveAction op).Raises E := fun stack state => hv.leave op stack state
    show Action.Raises E (match (v.enter op stack state).1 with
      | .error e => .done (.error e)
      | .ok true => ((v.walk op).action v).before (v.leaveAction op)
      | .ok false => v.leaveAction op)
    split
    next e henter =>
      intro e' he'
      cases he'
      exact hv.enter op stack state e henter
    next => exact (hv.walk op).action.before hleave
    next => exact hleave
  · intro result hresult
    exact hresult

/-- However the visit of an operator or of a whole plan ends, the walkers are the same as before.  That
the outermost walker would be removed is never reported, unless the visitor itself says so. -/
theorem walkers_restored (v : Visitor σ) :
    (∀ op s, (v.accept op s).2.stack = s.stack) ∧ (∀ s, (v.visit s).2.stack = s.stack) ∧
      (v.Raises (· ≠ .stackUnderflow) →
        (∀ op s, (v.accept op s).1 ≠ .error .stackUnderflow) ∧
          ∀ s, (v.visit s).1 ≠ .error .stackUnderflow) := by
  obtain ⟨haccept, hvisit, herror⟩ := v.toBy.walkers_restored_of_runs
  refine ⟨?_, ?_, ?_⟩
  · intro op s
    exact haccept op s _ (v.runs_accept op s)
  · intro s
    exact hvisit s _ (v.runs_visit s)
  · intro hv
    obtain ⟨haccept', hvisit'⟩ := herror (hv.toBy fun _ => PlanError.noConfusion)
    refine ⟨?_, ?_⟩
    · intro op s
      exact haccept' op s _ (v.runs_accept op s)
    · intro s
      exact hvisit' s _ (v.runs_visit s)

end Visitor
end Runs

/-- Two operators that feed each other, as the condition of a filter. -/
def loopedFilter : LogicalOperator :=
  .filter ⟨"l", 1⟩ ⟨[.load ⟨"l", 2⟩ "a", .load ⟨"l", 3⟩ "b"],
    [(⟨"l", 2⟩, ⟨"l", 3⟩), (⟨"l", 3⟩, ⟨"l", 2⟩)]⟩

/-- Tries the condition of a filter in a second order when it has failed, and then gives up. -/
def insistent : Visitor Nat where
  enter _ _ n := (.ok true, n + 1)
  walk
    | .filter k condition =>
      have smaller : (LogicalOperator.Child.subPlan condition).size <
          sizeOf (LogicalOperator.filter k condition) :=
        LogicalOperator.size_lt_of_mem_children (List.mem_singleton_self _)
      .walk (.subPlan condition) smaller (some .depthFirst) fun
        | .ok _ => .done (.ok ())
        | .error _ => .walk (.subPlan condition) smaller (some .reverseDependencyOrder) fun
          | .ok _ => .done (.ok ())
          | .error _ => .done (.error (.aborted k "rejected"))
    | op => .inOrder op.children fun _ => LogicalOperator.size_lt_of_mem_children

theorem insistent_restores :
    insistent.Raises (· ≠ .stackUnderflow) ∧
    (insistent.accept loopedFilter ⟨⟨⟨.dependencyOrder, .empty⟩, []⟩, 0⟩).1 =
      .error (.aborted ⟨"l", 1⟩ "rejected") ∧
    (insistent.accept loopedFilter ⟨⟨⟨.dependencyOrder, .empty⟩, []⟩, 0⟩).2.stack =
      ⟨⟨.dependencyOrder, .empty⟩, []⟩ ∧
    (insistent.accept loopedFilter ⟨⟨⟨.dependencyOrder, .empty⟩, []⟩, 0⟩).1 ≠
      .error .stackUnderflow := by
  have hraises : insistent.Raises (· ≠ .stackUnderflow) := by
    refine ⟨?_, ?_, ?_⟩
    · intro _ _ _ e he
      cases he
    · intro op
      simp only [insistent]
      split
      · rintro (_ | _) _
        · rintro (_ | _) _ e he
          · cases he
            exact PlanError.noConfusion
          · cases he
        · intro e he
          cases he
      · exact Course.raises_inOrder _ _
    · intro _ _ _ e he
      cases he
  obtain ⟨hstack, -, hunder⟩ := insistent.walkers_restored
  exact ⟨hraises, by cbv, hstack _ _, (hunder hraises).1 _ _⟩

end Dataflow
