import Dataflow.Proofs.Logical.Touring
/-!
# Where a failure cuts a visit

A visitor that rejects some operators ends its visit at the first of them.  If it rejects an operator
before the children are walked, that is the first one to come into view; if it does so after the
children, it is the first one to be left, and then the subtree of this operator is what came into view
last, since a visitor has been told of everything below an operator by then (`Bracketed`).

**Proved here.**

    a tour is made of brackets                                   (`bracketed_tour`)
    what is recorded up to a failure                             (`each_recording_of_error`)
    both kinds of rejection, and none                            (`Visitor.failure_cuts`)
-/
namespace Dataflow

/-- The sight of an operator that comes into view. -/
def Telling.entered : Telling → List Sight
  | .before x => [x]
  | .after _ => []

/-! ## Brackets -/

section Brackets
variable (choose : WalkerStack LogicalOperator → LogicalPlan → Strategy)

/-- Where a visitor is told of an operator after its children, it has just been told of everything
below. -/
def Bracketed (tellings : List Telling) : Prop :=
  ∀ walked x later, tellings = walked ++ .after x :: later →
    ∃ front stack, x = Sight.of stack x.operator ∧
      walked ++ [.after x] = front ++ tour choose stack x.operator

variable {choose}

theorem Bracketed.append {l l' : List Telling} (h : Bracketed choose l) (h' : Bracketed choose l') :
    Bracketed choose (l ++ l') := by
  intro walked x later heq
  have hlater : ∀ between, l' = between ++ .after x :: later → walked = l ++ between →
      ∃ front stack, x = Sight.of stack x.operator ∧
        walked ++ [.after x] = front ++ tour choose stack x.operator := by
    rintro between hl' rfl
    obtain ⟨front, stack, hx, htour⟩ := h' between x later hl'
    exact ⟨l ++ front, stack, hx, by rw [List.append_assoc, htour, List.append_assoc]⟩
  rcases List.append_eq_append_iff.mp heq with ⟨between, hwalked, hl'⟩ | ⟨rest, hl, hrest⟩
  · exact hlater between hl' hwalked
  · cases rest with
    | nil => exact hlater [] hrest.symm (by rw [hl, List.append_nil, List.append_nil])
    | cons t rest =>
        obtain ⟨rfl, -⟩ := List.cons.inj hrest
        exact h walked x rest hl

theorem Bracketed.flatMap {β : Type} {f : β → List Telling} {l : List β}
    (h : ∀ b ∈ l, Bracketed choose (f b)) : Bracketed choose (l.flatMap f) := by
  induction l with
  | nil =>
      intro walked x later heq
      exact absurd heq.symm (by simp)
  | cons b l ih =>
      rw [List.flatMap_cons]
      exact (h b List.mem_cons_self).append (ih fun c hc => h c (List.mem_cons_of_mem _ hc))

theorem bracketed_tour (stack : WalkerStack LogicalOperator) (op : LogicalOperator) :
    Bracketed choose (tour choose stack op) := by
  have hchild : ∀ child ∈ op.children, Bracketed choose (tourAt choose stack child) := by
    intro child hmem
    have hlt := LogicalOperator.size_lt_of_mem_children hmem
    cases child with
    | operand operand =>
        have : sizeOf operand < sizeOf op := hlt
        rw [tourAt]
        exact bracketed_tour stack operand
    | subPlan plan =>
        rw [tourAt]
        refine .flatMap fun o _ => ?_
        have : sizeOf o.val < sizeOf op :=
          Nat.lt_trans (LogicalOperator.sizeOf_lt_of_mem_operators o.property) hlt
        exact bracketed_tour _ o.val
  intro walked x later heq
  rw [tour_eq] at heq
  cases walked with
  | nil => cases heq
  | cons t walked =>
      obtain ⟨rfl, hbody⟩ := List.cons.inj heq
      rcases later.eq_nil_or_concat' with rfl | ⟨later, t, rfl⟩
      · -- the operator itself
        obtain ⟨rfl, hlast⟩ := List.append_inj' hbody rfl
        obtain rfl := Telling.after.inj (List.singleton_inj.mp hlast)
        exact ⟨[], stack, rfl, (tour_eq choose stack op).symm⟩
      · have hbelow : op.children.flatMap (tourAt choose stack) ++ [.after (Sight.of stack op)] =
            (walked ++ .after x :: later) ++ [t] := by
          rw [hbody, List.append_assoc]
          rfl
        obtain ⟨hbelow, -⟩ := List.append_inj' hbelow rfl
        obtain ⟨front, stack', hx, htour⟩ := Bracketed.flatMap hchild walked x later hbelow
        exact ⟨_ :: front, stack', hx, congrArg _ htour⟩
termination_by sizeOf op
decreasing_by
  · assumption
  · assumption

end Brackets

/-! ## Visitors that take notes and fail -/

/-- Records what it makes of a telling, and fails where it is to fail. -/
def recording {α : Type} (verdict : Telling → Except PlanError Unit) (noted : Telling → List α)
    (t : Telling) (notes : List α) : Except PlanError Unit × List α :=
  (verdict t, notes ++ noted t)

section Recording
variable {α : Type} {verdict : Telling → Except PlanError Unit} {noted : Telling → List α}

theorem each_recording_of_ok {l : List Telling} (h : ∀ t ∈ l, verdict t = .ok ())
    (s : Visit (List α)) : Visit.each (Visit.told (recording verdict noted)) l s =
      (.ok (), { s with state := s.state ++ l.flatMap noted }) := by
  induction l generalizing s with
  | nil => simp [Visit.each]
  | cons t l ih =>
      obtain ⟨ht, hl⟩ := List.forall_mem_cons.mp h
      simp only [Visit.each, Visit.told, Visited.andThen, recording, ht]
      rw [ih hl, List.flatMap_cons, List.append_assoc]

/-- The first failure is the end of a visit. -/
theorem each_recording_of_error {earlier later : List Telling} {t : Telling} {e : PlanError}
    (h : ∀ t ∈ earlier, verdict t = .ok ()) (ht : verdict t = .error e) (s : Visit (List α)) :
    Visit.each (Visit.told (recording verdict noted)) (earlier ++ t :: later) s =
      (.error e, { s with state := s.state ++ earlier.flatMap noted ++ noted t }) := by
  rw [Visit.each_append, each_recording_of_ok h]
  simp only [Visited.andThen, Visit.each, Visit.told, recording, ht]

end Recording

/-! ## Visitors that reject -/

/-- What a visitor answers of an operator, if it does not put up with bad ones. -/
def rejection (bad : LogicalOperator → Bool) (reason : LogicalOperator → String)
    (op : LogicalOperator) : Except PlanError Unit :=
  if bad op then .error (.aborted op.key (reason op)) else .ok ()

/-- What comes into view of an outer plan, if nothing fails. -/
def sightsFrom (choose : WalkerStack LogicalOperator → LogicalPlan → Strategy) (outer : Strategy)
    (plan : LogicalPlan) : List Sight :=
  (tourFrom choose outer plan).flatMap Telling.entered

theorem exists_of_entered_eq {l : List Telling} {earlier later : List Sight} {x : Sight}
    (h : l.flatMap Telling.entered = earlier ++ x :: later) :
    ∃ walked rest, l = walked ++ .before x :: rest ∧ walked.flatMap Telling.entered = earlier := by
  induction l generalizing earlier with
  | nil => exact absurd h.symm (by simp)
  | cons t l ih =>
      cases t with
      | before y =>
          cases earlier with
          | nil =>
              obtain ⟨rfl, -⟩ := List.cons.inj h
              exact ⟨[], l, rfl, rfl⟩
          | cons z earlier =>
              obtain ⟨rfl, hrest⟩ := List.cons.inj h
              obtain ⟨walked, rest, rfl, rfl⟩ := ih hrest
              exact ⟨.before y :: walked, rest, rfl, rfl⟩
      | after y =>
          obtain ⟨walked, rest, rfl, hwalked⟩ := ih h
          exact ⟨.after y :: walked, rest, rfl, hwalked⟩

namespace Visitor
section Rejecting
variable (bad : LogicalOperator → Bool) (reason : LogicalOperator → String)
  (choose : WalkerStack LogicalOperator → LogicalPlan → Strategy)

/-- Keeps all that it is told, in order. -/
def tracer : Visitor (List Telling) :=
  listener (recording (fun _ => .ok ()) fun t => [t]) choose

/-- Keeps all that it is shown, in order, and fails on a bad operator before it walks the children. -/
def early : Visitor (List Sight) where
  enter op stack seen := ((rejection bad reason op).map fun _ => true,
    seen ++ [⟨op, stack.current.strategy.name, stack.depth⟩])
  nested := choose

/-- Keeps all that it is shown, in order, and fails on a bad operator after it has walked the
children. -/
def late : Visitor (List Sight) where
  enter op stack seen := (.ok true, seen ++ [⟨op, stack.current.strategy.name, stack.depth⟩])
  leave op _ seen := (rejection bad reason op, seen)
  nested := choose

/-- Rejects before the children. -/
def earlyVerdict : Telling → Except PlanError Unit
  | .before x => rejection bad reason x.operator
  | .after _ => .ok ()

/-- Rejects after the children. -/
def lateVerdict : Telling → Except PlanError Unit
  | .before _ => .ok ()
  | .after x => rejection bad reason x.operator

theorem recorder_eq : recorder choose =
    listener (recording (fun _ => .ok ()) Telling.entered) choose := by
  simp only [recorder, observer, listener, recording, Telling.entered, List.append_nil]
  rfl

theorem early_eq : early bad reason choose =
    listener (recording (earlyVerdict bad reason) Telling.entered) choose := by
  simp only [early, listener, recording, Telling.entered, List.append_nil, earlyVerdict]

theorem late_eq : late bad reason choose =
    listener (recording (lateVerdict bad reason) Telling.entered) choose := by
  simp only [late, listener, recording, Telling.entered, List.append_nil, lateVerdict]
  rfl

variable {bad reason}

theorem rejection_of_bad {op : LogicalOperator} (h : bad op = true) :
    rejection bad reason op = .error (.aborted op.key (reason op)) :=
  if_pos h

theorem rejection_of_not_bad {op : LogicalOperator} (h : bad op = false) :
    rejection bad reason op = .ok () :=
  if_neg (Bool.eq_false_iff.mp h)

theorem earlyVerdict_of_entered {tellings : List Telling}
    (h : ∀ y ∈ tellings.flatMap Telling.entered, bad y.operator = false) :
    ∀ t ∈ tellings, earlyVerdict bad reason t = .ok () := by
  intro t ht
  cases t with
  | before y => exact rejection_of_not_bad (h y (List.mem_flatMap.mpr ⟨_, ht, List.mem_cons_self⟩))
  | after y => rfl

theorem lateVerdict_of_after {tellings : List Telling}
    (h : ∀ y, .after y ∈ tellings → bad y.operator = false) :
    ∀ t ∈ tellings, lateVerdict bad reason t = .ok () := by
  intro t ht
  cases t with
  | before y => rfl
  | after y => exact rejection_of_not_bad (h y ht)

end Rejecting

variable {plan : LogicalPlan} (h : LogicalPlan.DeeplyAcyclic plan) (outer : Strategy)
  (choose : WalkerStack LogicalOperator → LogicalPlan → Strategy) (bad : LogicalOperator → Bool)
  (reason : LogicalOperator → String)
include h

theorem early_run {earlier later : List Sight} {x : Sight}
    (hsplit : sightsFrom choose outer plan = earlier ++ x :: later)
    (hearlier : ∀ y ∈ earlier, bad y.operator = false) (hx : bad x.operator = true) :
    (early bad reason choose).run outer plan [] =
      (.error (.aborted x.operator.key (reason x.operator)),
        ⟨⟨⟨outer, plan⟩, []⟩, earlier ++ [x]⟩) := by
  obtain ⟨walked, rest, htour, rfl⟩ := exists_of_entered_eq hsplit
  have hverdict : earlyVerdict bad reason (.before x) = .error _ := rejection_of_bad hx
  rw [early_eq, listener_run h, htour,
    each_recording_of_error (earlyVerdict_of_entered hearlier) hverdict]
  rfl

theorem late_run {walked later : List Telling} {x : Sight}
    (hsplit : tourFrom choose outer plan = walked ++ .after x :: later)
    (hwalked : ∀ y, .after y ∈ walked → bad y.operator = false) (hx : bad x.operator = true) :
    (late bad reason choose).run outer plan [] =
      (.error (.aborted x.operator.key (reason x.operator)),
        ⟨⟨⟨outer, plan⟩, []⟩, walked.flatMap Telling.entered⟩) := by
  have hverdict : lateVerdict bad reason (.after x) = .error _ := rejection_of_bad hx
  rw [late_eq, listener_run h, hsplit,
    each_recording_of_error (lateVerdict_of_after hwalked) hverdict]
  simp [Telling.entered]

theorem tracer_run : (tracer choose).run outer plan [] =
    (.ok (), ⟨⟨⟨outer, plan⟩, []⟩, tourFrom choose outer plan⟩) := by
  rw [tracer, listener_run h, each_recording_of_ok fun _ _ => rfl]
  simp

theorem recorder_run : (recorder choose).run outer plan [] =
    (.ok (), ⟨⟨⟨outer, plan⟩, []⟩, sightsFrom choose outer plan⟩) := by
  rw [recorder_eq, listener_run h, each_recording_of_ok fun _ _ => rfl]
  rfl

omit h

theorem bracketed_tourFrom : Bracketed choose (tourFrom choose outer plan) :=
  .flatMap fun o _ => bracketed_tour _ o.val

/-- The subtree of the operator of which a visitor has just been told after its children is the last
that has come into view. -/
theorem exists_subtree {walked later : List Telling} {x : Sight}
    (hsplit : tourFrom choose outer plan = walked ++ .after x :: later) :
    ∃ front stack, x = Sight.of stack x.operator ∧ walked.flatMap Telling.entered =
      front ++ (tour choose stack x.operator).flatMap Telling.entered := by
  obtain ⟨front, stack, hx, htour⟩ := bracketed_tourFrom outer choose walked x later hsplit
  refine ⟨front.flatMap Telling.entered, stack, hx, ?_⟩
  rw [← List.flatMap_append, ← htour, List.flatMap_append]
  exact (List.append_nil _).symm

theorem mem_sightsFrom_of_after {x : Sight} (hx : .after x ∈ tourFrom choose outer plan) :
    x ∈ sightsFrom choose outer plan := by
  obtain ⟨walked, later, hsplit⟩ := List.append_of_mem hx
  obtain ⟨front, stack, hof, hsubtree⟩ := exists_subtree outer choose hsplit
  rw [sightsFrom, hsplit, List.flatMap_append, hsubtree, tour_eq, ← hof]
  simp [Telling.entered]

/-- A failure cuts a visit where it happens.  Without one everything comes into view.  A visitor that
fails on a bad operator before its children has seen what comes into view up to the first bad operator,
which is the last that it has seen.  One that fails after the children has seen everything up to the end
of the subtree of the bad operator that is left first.  The failure is the one of this operator. -/
theorem failure_cuts {plan : LogicalPlan} (h : LogicalPlan.DeeplyAcyclic plan) (outer : Strategy)
    (choose : WalkerStack LogicalOperator → LogicalPlan → Strategy) (bad : LogicalOperator → Bool)
    (reason : LogicalOperator → String) :
    (tracer choose).run outer plan [] =
      (.ok (), ⟨⟨⟨outer, plan⟩, []⟩, tourFrom choose outer plan⟩) ∧
    (recorder choose).run outer plan [] =
      (.ok (), ⟨⟨⟨outer, plan⟩, []⟩, sightsFrom choose outer plan⟩) ∧
    (∀ earlier x later, sightsFrom choose outer plan = earlier ++ x :: later →
      (∀ y ∈ earlier, bad y.operator = false) → bad x.operator = true →
      (early bad reason choose).run outer plan [] =
        (.error (.aborted x.operator.key (reason x.operator)),
          ⟨⟨⟨outer, plan⟩, []⟩, earlier ++ [x]⟩)) ∧
    (∀ walked x later, tourFrom choose outer plan = walked ++ .after x :: later →
      (∀ y, .after y ∈ walked → bad y.operator = false) → bad x.operator = true →
      (late bad reason choose).run outer plan [] =
        (.error (.aborted x.operator.key (reason x.operator)),
          ⟨⟨⟨outer, plan⟩, []⟩, walked.flatMap Telling.entered⟩) ∧
      walked.flatMap Telling.entered <+: sightsFrom choose outer plan ∧
      ∃ front stack, x = Sight.of stack x.operator ∧ walked.flatMap Telling.entered =
        front ++ (tour choose stack x.operator).flatMap Telling.entered) ∧
    ((∀ y ∈ sightsFrom choose outer plan, bad y.operator = false) →
      (early bad reason choose).run outer plan [] =
        (.ok (), ⟨⟨⟨outer, plan⟩, []⟩, sightsFrom choose outer plan⟩) ∧
      (late bad reason choose).run outer plan [] =
        (.ok (), ⟨⟨⟨outer, plan⟩, []⟩, sightsFrom choose outer plan⟩)) := by
  refine ⟨tracer_run h outer choose, recorder_run h outer choose, ?_, ?_, ?_⟩
  · intro earlier x later hsplit hearlier hx
    exact early_run h outer choose bad reason hsplit hearlier hx
  · intro walked x later hsplit hwalked hx
    refine ⟨late_run h outer choose bad reason hsplit hwalked hx, ?_, ?_⟩
    · rw [sightsFrom, hsplit, List.flatMap_append]
      exact List.prefix_append _ _
    · exact exists_subtree outer choose hsplit
  · intro hgood
    refine ⟨?_, ?_⟩
    · rw [early_eq, listener_run h, each_recording_of_ok (earlyVerdict_of_entered hgood)]
      rfl
    · have hafter : ∀ y, .after y ∈ tourFrom choose outer plan → bad y.operator = false :=
        fun y hy => hgood y (mem_sightsFrom_of_after outer choose hy)
      rw [late_eq, listener_run h, each_recording_of_ok (lateVerdict_of_after hafter)]
      rfl

def one : LogicalOperator := .const ⟨"v", 4⟩ (.int 1)

def two : LogicalOperator := .const ⟨"v", 5⟩ (.int 2)

def score : LogicalOperator := .userFunc ⟨"v", 3⟩ "score" [one]

/-- A function of a constant, and another constant. -/
def scores : LogicalPlan := .ofOperators [score, two]

def input : LogicalOperator := .load ⟨"v", 1⟩ "in"

def scoring : LogicalOperator := .forEach ⟨"v", 2⟩ scores

def scoredPlan : LogicalPlan := .ofOperators [input, scoring]

def isFunction : LogicalOperator → Bool
  | .userFunc _ _ _ => true
  | _ => false

theorem scores_deeplyAcyclic : LogicalPlan.DeeplyAcyclic scores := by
  have hscore : score.DeeplyAcyclic := by
    refine .intro ?_ ?_
    · intro child hchild
      obtain rfl := LogicalOperator.Child.operand.inj (List.mem_singleton.mp hchild)
      exact .leaf rfl
    · intro plan hplan
      cases List.mem_singleton.mp hplan
  refine .of_keys (Plan.built_ofOperators _)
    (show scores.dependencyKeys = .ok [⟨"v", 3⟩, ⟨"v", 5⟩] by cbv) ?_
  exact List.forall_mem_cons.mpr ⟨hscore, List.forall_mem_singleton.mpr (.leaf rfl)⟩

theorem scoredPlan_deeplyAcyclic : LogicalPlan.DeeplyAcyclic scoredPlan := by
  have hscoring : scoring.DeeplyAcyclic := .forEach scores_deeplyAcyclic
  refine .of_keys (Plan.built_ofOperators _)
    (show scoredPlan.dependencyKeys = .ok [⟨"v", 1⟩, ⟨"v", 2⟩] by cbv) ?_
  exact List.forall_mem_cons.mpr ⟨.leaf rfl, List.forall_mem_singleton.mpr hscoring⟩

theorem scored_cut :
    LogicalPlan.DeeplyAcyclic scoredPlan ∧
    (early isFunction (fun _ => "not allowed") fun _ _ => .dependencyOrder).run .depthFirst
      scoredPlan [] = (.error (.aborted ⟨"v", 3⟩ "not allowed"), ⟨⟨⟨.depthFirst, scoredPlan⟩, []⟩,
        [⟨input, "depth-first", 1⟩, ⟨scoring, "depth-first", 1⟩, ⟨score, "dependency-order", 2⟩]⟩) ∧
    (late isFunction (fun _ => "not allowed") fun _ _ => .dependencyOrder).run .depthFirst
      scoredPlan [] = (.error (.aborted ⟨"v", 3⟩ "not allowed"), ⟨⟨⟨.depthFirst, scoredPlan⟩, []⟩,
        [⟨input, "depth-first", 1⟩, ⟨scoring, "depth-first", 1⟩, ⟨score, "dependency-order", 2⟩,
          ⟨one, "dependency-order", 2⟩]⟩) := by
  obtain ⟨-, -, hearly, hlate, -⟩ := failure_cuts scoredPlan_deeplyAcyclic .depthFirst
    (fun _ _ => .dependencyOrder) isFunction fun _ => "not allowed"
  have hsights : sightsFrom (fun _ _ => .dependencyOrder) .depthFirst scoredPlan =
      [⟨input, "depth-first", 1⟩, ⟨scoring, "depth-first", 1⟩] ++ ⟨score, "dependency-order", 2⟩ ::
        [⟨one, "dependency-order", 2⟩, ⟨two, "dependency-order", 2⟩] := by cbv
  have htour : tourFrom (fun _ _ => .dependencyOrder) .depthFirst scoredPlan =
      [.before ⟨input, "depth-first", 1⟩, .after ⟨input, "depth-first", 1⟩,
        .before ⟨scoring, "depth-first", 1⟩, .before ⟨score, "dependency-order", 2⟩,
        .before ⟨one, "dependency-order", 2⟩, .after ⟨one, "dependency-order", 2⟩] ++
      .after ⟨score, "dependency-order", 2⟩ ::
        [.before ⟨two, "dependency-order", 2⟩, .after ⟨two, "dependency-order", 2⟩,
          .after ⟨scoring, "depth-first", 1⟩] := by cbv
  refine ⟨scoredPlan_deeplyAcyclic, hearly _ _ _ hsights ?_ rfl, (hlate _ _ _ htour ?_ rfl).1⟩
  · simp [isFunction, input, scoring]
  · simp [isFunction, input, one]

end Visitor
end Dataflow
