import Dataflow.Logical.Traversal
/-!
# Visitors of any kind

What a visitor does at an operator is code of its own.  It may have any operator visited, of whatever
size and as often as it likes, enter any plan with any walker, and walk the plan of the walker in
effect all over again; it may look at the walkers and at its state before each of these, and go on
after a failure.  Such a visit need not end.  One that ends is a derivation (`VisitorBy.Runs`), and
the walkers are pushed and removed by two of its rules only, around the derivation for the plan that
is entered.  So it is by induction on derivations that the walkers are the same before and after.

**Proved here.**

    a visit that ends leaves the walkers as they were   (`VisitorBy.Runs.returns`)
    operators and whole plans                           (`VisitorBy.walkers_restored_of_runs`)
-/
namespace Dataflow

/-- What the code of a visitor with walkers of type `W` and a state of type `σ` does next. -/
inductive Action (W σ : Type) where
  /-- It returns. -/
  | done (result : Except PlanError Unit)
  /-- It looks at the walkers and at its state, changes the state, and decides how to go on. -/
  | note (change : Walkers W → σ → σ) (rest : Walkers W → σ → Action W σ)
  /-- It has an operator visited. -/
  | accept (op : LogicalOperator) (rest : Except PlanError Unit → Action W σ)
  /-- It enters a plan and has the roots of it visited. -/
  | enter (plan : LogicalPlan) (walker : Walkers W → σ → W)
    (rest : Except PlanError Unit → Action W σ)
  /-- It walks the plan of the walker in effect. -/
  | walkCurrent (rest : Except PlanError Unit → Action W σ)

/-- A visitor that does whatever it likes, with walkers that find orders of their own. -/
structure VisitorBy (W σ : Type) where
  sequence : W → Except PlanError (List LogicalOperator)
  /-- What comes before the operation at every operator. -/
  hook : LogicalOperator → Action W σ := fun _ => .done (.ok ())
  operation : LogicalOperator → Action W σ
  visit : Action W σ := .walkCurrent .done

variable {W σ : Type}

namespace Action

/-- One operator is visited after the other, up to the first failure. -/
def each : List LogicalOperator → Action W σ
  | [] => .done (.ok ())
  | op :: rest => .accept op fun result =>
    match result with
    | .ok _ => each rest
    | .error e => .done (.error e)

/-- Goes on with `next` unless something failed. -/
def before : Action W σ → (next : Action W σ) → Action W σ
  | .done (.ok _), next => next
  | .done (.error e), _ => .done (.error e)
  | .note change rest, next => .note change fun stack state => (rest stack state).before next
  | .accept op rest, next => .accept op fun result => (rest result).before next
  | .enter plan walker rest, next => .enter plan walker fun result => (rest result).before next
  | .walkCurrent rest, next => .walkCurrent fun result => (rest result).before next

end Action

namespace VisitorBy

def dispatch (v : VisitorBy W σ) (op : LogicalOperator) : Action W σ :=
  (v.hook op).before (v.operation op)

/-- Visits some operators in the order of a walker. -/
def walkBy (v : VisitorBy W σ) (w : W) (keep : LogicalOperator → Bool) : Action W σ :=
  match v.sequence w with
  | .error e => .done (.error e)
  | .ok ops => .each (ops.filter keep)

/-- The code `a` of a visitor, begun at a visit, ends with `x`. -/
inductive Runs (v : VisitorBy W σ) :
    Action W σ → VisitBy W σ → Except PlanError Unit × VisitBy W σ → Prop
  | done {result : Except PlanError Unit} {s : VisitBy W σ} : Runs v (.done result) s (result, s)
  | note {change : Walkers W → σ → σ} {rest : Walkers W → σ → Action W σ} {s : VisitBy W σ}
      {x : Except PlanError Unit × VisitBy W σ} :
      Runs v (rest s.stack s.state) { s with state := change s.stack s.state } x →
      Runs v (.note change rest) s x
  | accept {op : LogicalOperator} {rest : Except PlanError Unit → Action W σ} {s : VisitBy W σ}
      {x y : Except PlanError Unit × VisitBy W σ} :
      Runs v (v.dispatch op) s y → Runs v (rest y.1) y.2 x → Runs v (.accept op rest) s x
  | enter {plan : LogicalPlan} {walker : Walkers W → σ → W}
      {rest : Except PlanError Unit → Action W σ} {s : VisitBy W σ}
      {x y : Except PlanError Unit × VisitBy W σ} :
      Runs v (v.walkBy (walker s.stack s.state) fun op => plan.isRoot (PlanNode.key op))
        { s with stack := s.stack.push (walker s.stack s.state) } y →
      Runs v (rest (VisitBy.leave y).1) (VisitBy.leave y).2 x →
      Runs v (.enter plan walker rest) s x
  | walkCurrent {rest : Except PlanError Unit → Action W σ} {s : VisitBy W σ}
      {x y : Except PlanError Unit × VisitBy W σ} :
      Runs v (v.walkBy s.stack.current fun _ => true) s y → Runs v (rest y.1) y.2 x →
      Runs v (.walkCurrent rest) s x

end VisitorBy

/-- The errors that the code makes itself are in `E`.  An error that something else has ended with may
be passed on. -/
def Action.Raises (E : PlanError → Prop) : Action W σ → Prop
  | .done result => ∀ e, result = .error e → E e
  | .note _ rest => ∀ stack state, (rest stack state).Raises E
  | .accept _ rest => ∀ result, (∀ e, result = .error e → E e) → (rest result).Raises E
  | .enter _ _ rest => ∀ result, (∀ e, result = .error e → E e) → (rest result).Raises E
  | .walkCurrent rest => ∀ result, (∀ e, result = .error e → E e) → (rest result).Raises E

/-- The errors that a visitor and its walkers make themselves are in `E`. -/
structure VisitorBy.Raises (v : VisitorBy W σ) (E : PlanError → Prop) : Prop where
  sequence : ∀ w e, v.sequence w = .error e → E e
  hook : ∀ op, (v.hook op).Raises E
  operation : ∀ op, (v.operation op).Raises E
  visit : v.visit.Raises E

section Actions
variable {E : PlanError → Prop}

theorem Action.raises_true (a : Action W σ) : a.Raises fun _ => True := by
  induction a with
  | done result => exact fun _ _ => trivial
  | note change rest ih => exact fun stack state => ih stack state
  | accept op rest ih | enter plan walker rest ih | walkCurrent rest ih =>
      exact fun result _ => ih result

theorem Action.raises_each (ops : List LogicalOperator) :
    (Action.each ops : Action W σ).Raises E := by
  induction ops with
  | nil =>
      intro e he
      cases he
  | cons op ops ih =>
      intro result hresult
      cases result with
      | ok u => exact ih
      | error e =>
          intro e' he'
          exact hresult e' he'

theorem Action.Raises.before {a next : Action W σ} (ha : a.Raises E) (hnext : next.Raises E) :
    (a.before next).Raises E := by
  induction a with
  | done result =>
      cases result with
      | ok u => exact hnext
      | error e => exact ha
  | note change rest ih => exact fun stack state => ih stack state (ha stack state)
  | accept op rest ih | enter plan walker rest ih | walkCurrent rest ih =>
      exact fun result hresult => ih result (ha result hresult)

end Actions

namespace VisitorBy
variable {v : VisitorBy W σ} {E : PlanError → Prop}

theorem Raises.dispatch (hv : v.Raises E) (op : LogicalOperator) : (v.dispatch op).Raises E :=
  (hv.hook op).before (hv.operation op)

theorem Raises.walkBy (hv : v.Raises E) (w : W) (keep : LogicalOperator → Bool) :
    (v.walkBy w keep).Raises E := by
  simp only [VisitorBy.walkBy]
  split
  next e hseq =>
    intro e' he'
    cases he'
    exact hv.sequence w e hseq
  next ops _ => exact Action.raises_each _

/-- What has ended has left the walkers as they were, and if it has failed, then with an error in
`E`. -/
theorem Runs.returns (hv : v.Raises E) {a : Action W σ} {s : VisitBy W σ}
    {x : Except PlanError Unit × VisitBy W σ} (h : v.Runs a s x) (ha : a.Raises E) :
    x.2.stack = s.stack ∧ ∀ e, x.1 = .error e → E e := by
  induction h with
  | done => exact ⟨rfl, ha⟩
  | note _ ih => exact ih (ha _ _)
  | accept _ _ ih ihrest =>
      obtain ⟨hstack, herror⟩ := ih (hv.dispatch _)
      obtain ⟨hstack', herror'⟩ := ihrest (ha _ herror)
      exact ⟨hstack'.trans hstack, herror'⟩
  | @enter plan walker rest s x y _ _ ih ihrest =>
      obtain ⟨hstack, herror⟩ := ih (hv.walkBy _ _)
      -- the walker that was pushed is on top again, so it is the one that is removed
      have hpop : y.2.stack.pop = .ok (walker s.stack s.state, s.stack) := by
        rw [show y.2.stack = s.stack.push (walker s.stack s.state) from hstack]
        rfl
      have hleave : VisitBy.leave y = (y.1, { y.2 with stack := s.stack }) := by
        rw [VisitBy.leave, hpop]
      rw [hleave] at ihrest
      exact ihrest (ha _ herror)
  | walkCurrent _ _ ih ihrest =>
      obtain ⟨hstack, herror⟩ := ih (hv.walkBy _ _)
      obtain ⟨hstack', herror'⟩ := ihrest (ha _ herror)
      exact ⟨hstack'.trans hstack, herror'⟩

/-- However the visit of an operator or of a whole plan ends, the walkers are the same as before.  That
the outermost walker would be removed is never reported, unless the visitor itself says so. -/
theorem walkers_restored_of_runs (v : VisitorBy W σ) :
    (∀ op s x, v.Runs (v.dispatch op) s x → x.2.stack = s.stack) ∧
    (∀ s x, v.Runs v.visit s x → x.2.stack = s.stack) ∧
    (v.Raises (· ≠ .stackUnderflow) →
      (∀ op s x, v.Runs (v.dispatch op) s x → x.1 ≠ .error .stackUnderflow) ∧
        ∀ s x, v.Runs v.visit s x → x.1 ≠ .error .stackUnderflow) := by
  have hany : v.Raises fun _ => True :=
    ⟨fun _ _ _ => trivial, fun op => (v.hook op).raises_true, fun op => (v.operation op).raises_true,
      v.visit.raises_true⟩
  refine ⟨?_, ?_, ?_⟩
  · intro op s x h
    exact (h.returns hany (hany.dispatch op)).1
  · intro s x h
    exact (h.returns hany hany.visit).1
  · intro hv
    refine ⟨?_, ?_⟩
    · intro op s x h hx
      exact (h.returns hv (hv.dispatch op)).2 _ hx rfl
    · intro s x h hx
      exact (h.returns hv hv.visit).2 _ hx rfl

end VisitorBy

/-- Walks lists as they are, and begins anew as often as its state says. -/
def restless : VisitorBy (List LogicalOperator) Nat where
  sequence := .ok
  operation _ := .note (fun _ n => n - 1) fun _ n =>
    if n = 0 then .done (.ok ()) else .walkCurrent .done

example : restless.Runs restless.visit ⟨⟨[.load ⟨"l", 1⟩ "a"], []⟩, 1⟩
    (.ok (), ⟨⟨[.load ⟨"l", 1⟩ "a"], []⟩, 0⟩) :=
  .walkCurrent (.accept (.note (.walkCurrent (.accept (.note .done) .done) .done)) .done) .done

end Dataflow
