import Dataflow.Plan.Basic
/-!
# Orders of a plan

Three orders of the operators of a plan: producers first, consumers first, and depth first from the
roots.  The first two run one search with an explicit stack over the producers or the consumers;
it either settles every operator after all of its neighbours or meets one that is still suspended,
which closes a cycle.  The search ends because each step settles, discards or newly suspends
something, and only finitely many operators can be suspended for the first time.
-/
namespace Dataflow.Plan

/-- An operator whose settling is suspended until the pending neighbours are settled. -/
structure Frame where
  key : Key
  pending : List Key

/-- Whether an operator is suspended on the stack. -/
def suspended (stack : List Frame) (k : Key) : Bool :=
  stack.any fun f => decide (f.key = k)

/-- The number of operators that are neither settled nor suspended. -/
def untouched (keys : List Key) (stack : List Frame) (settled : List Key) : Nat :=
  (keys.filter fun k => !(decide (k ∈ settled) || suspended stack k)).length

/-- The number of steps that the stack itself still allows. -/
def pendingSteps (stack : List Frame) : Nat :=
  stack.foldr (fun f steps => f.pending.length + 1 + steps) 0

theorem length_filter_lt {β : Type} {p q : β → Bool} {l : List β} (h : ∀ x, q x → p x)
    {a : β} (ha : a ∈ l) (hp : p a) (hq : q a = false) :
    (l.filter q).length < (l.filter p).length := by
  induction l with
  | nil => simp at ha
  | cons b l ih =>
    have hle : (l.filter q).length ≤ (l.filter p).length := by
      simpa [List.countP_eq_length_filter] using
        List.countP_mono_left (p := q) (q := p) (l := l) (fun x _ hx => h x hx)
    rcases List.mem_cons.1 ha with rfl | hm
    · simp [hp, hq]; omega
    · have hlt := ih hm
      by_cases hqb : q b
      · simp [hqb, h b hqb]; omega
      · by_cases hpb : p b
        · simp [hqb, hpb]; omega
        · simp [hqb, hpb]; omega

theorem untouched_pop (keys : List Key) (k : Key) (rest : List Frame) (settled : List Key) :
    untouched keys rest (settled ++ [k]) = untouched keys (⟨k, []⟩ :: rest) settled := by
  unfold untouched suspended
  congr 2
  funext x
  by_cases hx : x = k
  · simp [hx]
  · have : ¬ k = x := fun e => hx e.symm
    simp [hx, this]

theorem untouched_pending (keys : List Key) (k : Key) (ds es : List Key) (rest : List Frame)
    (settled : List Key) :
    untouched keys (⟨k, ds⟩ :: rest) settled = untouched keys (⟨k, es⟩ :: rest) settled := rfl

theorem untouched_push {keys : List Key} {d : Key} {ds : List Key} {stack : List Frame}
    {settled : List Key} (hd : d ∈ keys) (hs : d ∉ settled) (hst : suspended stack d = false) :
    untouched keys (⟨d, ds⟩ :: stack) settled < untouched keys stack settled := by
  unfold untouched
  refine length_filter_lt (fun x hx => ?_) hd (by simp [hs, hst]) (by simp [suspended])
  simp only [Bool.not_eq_true', Bool.or_eq_false_iff] at hx ⊢
  refine ⟨hx.1, ?_⟩
  have h2 := hx.2
  unfold suspended at h2 ⊢
  simp only [List.any_cons, Bool.or_eq_false_iff] at h2
  exact h2.2

/-- Settles the operators on the stack, each after its neighbours.  The error names an operator
that was met again while it was suspended.  Neighbours outside of `keys` do not count. -/
def settle (keys : List Key) (before : Key → List Key) (stack : List Frame)
    (settled : List Key) : Except Key (List Key) :=
  match stack with
  | [] => .ok settled
  | ⟨k, []⟩ :: rest => settle keys before rest (settled ++ [k])
  | ⟨k, d :: ds⟩ :: rest =>
    if _hskip : d ∈ settled ∨ d ∉ keys then settle keys before (⟨k, ds⟩ :: rest) settled
    else if _hsus : suspended (⟨k, ds⟩ :: rest) d then .error d
    else settle keys before (⟨d, before d⟩ :: ⟨k, ds⟩ :: rest) settled
  termination_by (untouched keys stack settled, pendingSteps stack)
  decreasing_by
  · rw [untouched_pop]
    exact Prod.Lex.right _ (by simp [pendingSteps])
  · rw [untouched_pending keys k ds (d :: ds)]
    exact Prod.Lex.right _ (by simp [pendingSteps])
  · refine Prod.Lex.left _ _ ?_
    rw [untouched_pending keys k (d :: ds) ds]
    simp only [not_or, Decidable.not_not] at _hskip
    exact untouched_push _hskip.2 _hskip.1 (by simpa using _hsus)

/-- Settles everything that can be reached from each start in turn. -/
def settleFrom (keys : List Key) (before : Key → List Key) :
    List Key → List Key → Except Key (List Key)
  | [], settled => .ok settled
  | s :: starts, settled =>
    if s ∈ settled then settleFrom keys before starts settled
    else
      match settle keys before [⟨s, before s⟩] settled with
      | .ok settled' => settleFrom keys before starts settled'
      | .error k => .error k

/-- Every key after its neighbours, beginning from `starts`.  An operator that no start reaches
lies behind a cycle without a way out; the first such operator is named. -/
def ordered (keys : List Key) (before : Key → List Key) (starts : List Key) :
    Except Key (List Key) :=
  match settleFrom keys before starts [] with
  | .error k => .error k
  | .ok settled =>
    match keys.find? fun k => decide (k ∉ settled) with
    | none => .ok settled
    | some k => .error k

/-- Walks depth first from the stack: an operator is emitted when it is taken from the stack for
the first time, and what follows it goes on top. -/
def preorder (keys : List Key) (after : Key → List Key) (stack emitted : List Key) : List Key :=
  match stack with
  | [] => emitted
  | k :: rest =>
    if _hskip : k ∈ emitted ∨ k ∉ keys then preorder keys after rest emitted
    else preorder keys after (after k ++ rest) (emitted ++ [k])
  termination_by ((keys.filter fun k => decide (k ∉ emitted)).length, stack.length)
  decreasing_by
  · exact Prod.Lex.right _ (by simp)
  · refine Prod.Lex.left _ _ ?_
    simp only [not_or, Decidable.not_not] at _hskip
    refine length_filter_lt (fun x hx => ?_) _hskip.2 (by simpa using _hskip.1) (by simp)
    simp only [List.mem_append, decide_eq_true_eq, not_or] at hx ⊢
    exact hx.1

variable {α : Type} [PlanNode α]

/-- The keys with every producer before its consumers, or the error that names a cycle. -/
def dependencyKeys (p : Plan α) : Except PlanError (List Key) :=
  (ordered p.keys p.predecessors (p.leaves.map PlanNode.key)).mapError .cycle

/-- The keys with every consumer before its producers, or the error that names a cycle. -/
def reverseDependencyKeys (p : Plan α) : Except PlanError (List Key) :=
  (ordered p.keys p.successors (p.roots.map PlanNode.key)).mapError .cycle

/-- The keys depth first from the roots along the consumers; a cycle is refused beforehand. -/
def depthFirstKeys (p : Plan α) : Except PlanError (List Key) :=
  match p.dependencyKeys with
  | .error e => .error e
  | .ok _ => .ok (preorder p.keys p.successors (p.roots.map PlanNode.key) [])

/-- The operators that carry the given keys, each with the fact that it belongs to the plan. -/
def resolve (p : Plan α) (ks : List Key) : List { op : α // op ∈ p.operators } :=
  ks.filterMap fun k => p.operators.attach.find? fun op => decide (PlanNode.key op.val = k)

/-- The first declared input, in operator order, that does not feed its operator. -/
def unresolvedInput? (p : Plan α) : Option (Key × Key) :=
  p.operators.findSome? fun op =>
    match PlanNode.declaredInputs op with
    | none => none
    | some inputs =>
      (inputs.find? fun i => decide (i ∉ p.predecessors (PlanNode.key op))).map
        fun i => (PlanNode.key op, i)

/-- A plan is valid when every declared input feeds its operator and there is no cycle. -/
def validate (p : Plan α) : Except PlanError Unit :=
  match p.unresolvedInput? with
  | some (operator, input) => .error (.unresolvedInput operator input)
  | none => p.dependencyKeys.map fun _ => ()

end Dataflow.Plan
