import Mathlib.Logic.Function.Basic
import Dataflow.Proofs.Plan.Cycles
import Dataflow.Proofs.Plan.Recursion
/-!
# The loop behind the orders

The search for an order runs as one loop.  It keeps a mark for every operator and a stack of the
operators in progress, each with the position of the neighbour to look at next.  In a round it looks at
one neighbour, leaves an operator that has none left, or takes the next start.

Each round keeps three things in view.  The marks say where an operator is: on the stack, in the order,
or in neither (`Marked`).  What the search would still answer from here stays the same (`outcome`).  And
there is less left to do (`left`): a start, a neighbour, or an operator to leave; what is pushed was
counted before, as long as it was not seen.  The last does not ask for a plan without cycles, so the
loop ends on every plan, after at most one round for each start, operator and edge.

**Proved here.**

    what a round keeps, and what it uses up                    (`Marked.step`)
    the loop ends, with the answer of the search               (`Marked.run`)
    how long it takes on a plan                                (`left_start`)
    the two orders of a plan as recursions, found in time      (`orders_eq_recursion`)
-/
namespace Dataflow
namespace Plan

/-! ## The loop -/

/-- What the search knows of an operator. -/
inductive Mark where
  | unseen
  /-- It is on the stack. -/
  | inProgress
  | done
  deriving DecidableEq

/-- The search between two rounds: the starts that are left, the marks, the operators in progress with
the position of the neighbour to look at next, innermost first, and what is settled. -/
structure Descent where
  starts : List Key
  marks : Key → Mark
  stack : List (Key × Nat)
  order : List Key

namespace Descent

/-- How a round ends. -/
inductive Round where
  | goesOn (d : Descent)
  | over (answer : Except Key (List Key))

def start (starts : List Key) : Descent := ⟨starts, fun _ => .unseen, [], []⟩

/-- Puts an operator on the stack, with its first neighbour to look at. -/
def enter (d : Descent) (k : Key) : Descent :=
  { d with marks := Function.update d.marks k .inProgress, stack := (k, 0) :: d.stack }

/-- The answer when nothing is left to do.  If operators are missing, the first of them is named. -/
def answer (keys : List Key) (d : Descent) : Except Key (List Key) :=
  if d.order.length < keys.length then
    .error ((keys.find? fun k => decide (d.marks k ≠ .done)).getD (keys.headD default))
  else .ok d.order

def step (keys : List Key) (before : Key → List Key) (d : Descent) : Round :=
  match d.stack with
  | [] =>
    match d.starts with
    | [] => .over (d.answer keys)
    | s :: starts =>
      let d' := { d with starts }
      if d.marks s = .unseen then .goesOn (d'.enter s) else .goesOn d'
  | (k, i) :: rest =>
    match (before k)[i]? with
    | none =>
      .goesOn { d with
        marks := Function.update d.marks k .done, stack := rest, order := d.order ++ [k] }
    | some n =>
      let d' := { d with stack := (k, i + 1) :: rest }
      match d.marks n with
      | .unseen => .goesOn (d'.enter n)
      | .inProgress => .over (.error n)
      | .done => .goesOn d'

/-- The answer of the loop, if it ends within the given number of rounds. -/
def run (keys : List Key) (before : Key → List Key) : Nat → Descent → Option (Except Key (List Key))
  | 0, _ => none
  | rounds + 1, d =>
    match d.step keys before with
    | .goesOn d' => d'.run keys before rounds
    | .over answer => some answer

/-! ## What is kept in view -/

/-- The stack with what is left of each operator's neighbours. -/
def frames (before : Key → List Key) (stack : List (Key × Nat)) : List Frame :=
  stack.map fun f => ⟨f.1, (before f.1).drop f.2⟩

/-- What is settled in the end, unless something is missing. -/
def conclude (keys settled : List Key) : Except Key (List Key) :=
  match keys.find? fun k => decide (k ∉ settled) with
  | none => .ok settled
  | some k => .error k

/-- What the search answers from here on. -/
def outcome (keys : List Key) (before : Key → List Key) (d : Descent) : Except Key (List Key) := do
  let settled ← settle keys before (frames before d.stack) d.order
  let settled ← settleFrom keys before d.starts settled
  conclude keys settled

/-- The rounds that are spent on operators not seen so far: one for each neighbour, and one to leave. -/
def unseenRounds (before : Key → List Key) (marks : Key → Mark) : List Key → Nat
  | [] => 0
  | k :: keys =>
    (if marks k = .unseen then (before k).length + 1 else 0) + unseenRounds before marks keys

/-- The rounds that are left at most before the last one. -/
def left (keys : List Key) (before : Key → List Key) (d : Descent) : Nat :=
  d.starts.length + pendingSteps (frames before d.stack) + unseenRounds before d.marks keys

/-- The marks say where an operator is, and it is nowhere twice. -/
structure Marked (keys : List Key) (d : Descent) : Prop where
  nodup : (d.order ++ d.stack.map Prod.fst).Nodup
  subset : d.order ++ d.stack.map Prod.fst ⊆ keys
  starts : d.starts ⊆ keys
  done_iff : ∀ k, d.marks k = .done ↔ k ∈ d.order
  inProgress_iff : ∀ k, d.marks k = .inProgress ↔ k ∈ d.stack.map Prod.fst

section Rounds
variable {keys : List Key} {before : Key → List Key} {d : Descent} {marks : Key → Mark}
  {stack rest : List (Key × Nat)} {starts order : List Key} {k n : Key} {i : Nat}

theorem suspended_frames (stack : List (Key × Nat)) :
    suspended (frames before stack) n = true ↔ n ∈ stack.map Prod.fst := by
  simp only [suspended, frames, List.any_map, List.any_eq_true, Function.comp_apply,
    decide_eq_true_eq, List.mem_map]

theorem frames_cons_of_some (hn : (before k)[i]? = some n) :
    frames before ((k, i) :: rest) =
      ⟨k, n :: (before k).drop (i + 1)⟩ :: frames before rest := by
  obtain ⟨hi, rfl⟩ := List.getElem?_eq_some_iff.mp hn
  rw [frames, List.map_cons, List.drop_eq_getElem_cons hi]
  rfl

theorem frames_cons_of_none (hn : (before k)[i]? = none) :
    frames before ((k, i) :: rest) = ⟨k, []⟩ :: frames before rest := by
  rw [frames, List.map_cons, List.drop_eq_nil_of_le (List.getElem?_eq_none_iff.mp hn)]
  rfl

theorem Marked.unseen_iff (h : Marked keys d) :
    d.marks k = .unseen ↔ k ∉ d.order ∧ k ∉ d.stack.map Prod.fst := by
  rw [← h.done_iff, ← h.inProgress_iff]
  cases d.marks k <;> simp

theorem Marked.start (hstarts : starts ⊆ keys) : Marked keys (start starts) :=
  ⟨List.nodup_nil, List.nil_subset _, hstarts, by simp [Descent.start], by simp [Descent.start]⟩

theorem Marked.pass (h : Marked keys ⟨k :: starts, marks, stack, order⟩) :
    Marked keys ⟨starts, marks, stack, order⟩ :=
  ⟨h.nodup, h.subset, (List.cons_subset.mp h.starts).2, h.done_iff, h.inProgress_iff⟩

theorem Marked.advance (h : Marked keys ⟨starts, marks, (k, i) :: rest, order⟩) :
    Marked keys ⟨starts, marks, (k, i + 1) :: rest, order⟩ :=
  ⟨h.nodup, h.subset, h.starts, h.done_iff, h.inProgress_iff⟩

theorem Marked.enter (h : Marked keys d) (hk : k ∈ keys) (hunseen : d.marks k = .unseen) :
    Marked keys (d.enter k) := by
  obtain ⟨horder, hstack⟩ := h.unseen_iff.mp hunseen
  refine ⟨?_, ?_, h.starts, ?_, ?_⟩
  · have hnew : k ∉ d.order ++ d.stack.map Prod.fst := by simp [horder, hstack]
    exact List.nodup_middle.mpr (List.nodup_cons.mpr ⟨hnew, h.nodup⟩)
  · obtain ⟨hleft, hright⟩ := List.append_subset.mp h.subset
    exact List.append_subset.mpr ⟨hleft, List.cons_subset.mpr ⟨hk, hright⟩⟩
  · intro a
    by_cases ha : a = k
    · subst ha
      simp [Descent.enter, horder]
    · simp [Descent.enter, ha, h.done_iff]
  · intro a
    by_cases ha : a = k
    · subst ha
      simp [Descent.enter]
    · simp [Descent.enter, ha, h.inProgress_iff]

theorem Marked.leave (h : Marked keys ⟨starts, marks, (k, i) :: rest, order⟩) :
    Marked keys ⟨starts, Function.update marks k .done, rest, order ++ [k]⟩ := by
  have hnodup : (order ++ k :: rest.map Prod.fst).Nodup := h.nodup
  have hrest : k ∉ rest.map Prod.fst :=
    (List.nodup_cons.mp (List.nodup_append.mp hnodup).2.1).1
  refine ⟨?_, ?_, h.starts, ?_, ?_⟩
  · rwa [List.append_assoc]
  · rw [List.append_assoc]
    exact h.subset
  · intro a
    by_cases ha : a = k
    · subst ha
      simp
    · simp [ha, h.done_iff]
  · intro a
    by_cases ha : a = k
    · subst ha
      simpa using hrest
    · simp [ha, h.inProgress_iff]

/-! ### What is left to do -/

theorem unseenRounds_append (l₁ l₂ : List Key) : unseenRounds before marks (l₁ ++ l₂) =
    unseenRounds before marks l₁ + unseenRounds before marks l₂ := by
  induction l₁ with
  | nil => simp [unseenRounds]
  | cons a l₁ ih => rw [List.cons_append, unseenRounds, ih, unseenRounds, Nat.add_assoc]

theorem unseenRounds_update_le {m : Mark} (hm : m ≠ .unseen) (l : List Key) :
    unseenRounds before (Function.update marks k m) l ≤ unseenRounds before marks l := by
  induction l with
  | nil => exact Nat.le_refl _
  | cons a l ih =>
      refine Nat.add_le_add ?_ ih
      by_cases ha : a = k
      · subst ha
        rw [Function.update_self, if_neg hm]
        exact Nat.zero_le _
      · rw [Function.update_of_ne ha]

/-- What is entered was unseen, with all its rounds. -/
theorem unseenRounds_enter_le (hk : k ∈ keys) (hunseen : marks k = .unseen) :
    unseenRounds before (Function.update marks k .inProgress) keys + ((before k).length + 1) ≤
      unseenRounds before marks keys := by
  obtain ⟨l₁, l₂, rfl⟩ := List.append_of_mem hk
  have hle : ∀ l, unseenRounds before (Function.update marks k .inProgress) l ≤
      unseenRounds before marks l := unseenRounds_update_le Mark.noConfusion
  have hleft := hle l₁
  have hright := hle l₂
  simp only [unseenRounds_append, unseenRounds, Function.update_self, if_pos hunseen,
    if_neg (show Mark.inProgress ≠ .unseen from Mark.noConfusion)]
  omega

theorem left_enter_le (hk : k ∈ keys) (hunseen : d.marks k = .unseen) :
    (d.enter k).left keys before ≤ d.left keys before := by
  have hrounds : unseenRounds before (Function.update d.marks k .inProgress) keys +
      ((before k).length + 1) ≤ unseenRounds before d.marks keys := unseenRounds_enter_le hk hunseen
  have hpush : pendingSteps (frames before ((k, 0) :: d.stack)) =
      (before k).length + 1 + pendingSteps (frames before d.stack) := rfl
  simp only [left, Descent.enter, hpush]
  omega

theorem left_pass : left keys before ⟨k :: starts, marks, stack, order⟩ =
    left keys before ⟨starts, marks, stack, order⟩ + 1 := by
  simp only [left, List.length_cons]
  omega

theorem left_advance (hn : (before k)[i]? = some n) :
    left keys before ⟨starts, marks, (k, i) :: rest, order⟩ =
      left keys before ⟨starts, marks, (k, i + 1) :: rest, order⟩ + 1 := by
  have hnext : frames before ((k, i + 1) :: rest) =
      ⟨k, (before k).drop (i + 1)⟩ :: frames before rest := rfl
  simp only [left, frames_cons_of_some hn, hnext, pendingSteps, List.foldr_cons, List.length_cons]
  omega

theorem left_leave_lt (hn : (before k)[i]? = none) :
    left keys before ⟨starts, Function.update marks k .done, rest, order ++ [k]⟩ <
      left keys before ⟨starts, marks, (k, i) :: rest, order⟩ := by
  have hseen : unseenRounds before (Function.update marks k .done) keys ≤
      unseenRounds before marks keys := unseenRounds_update_le Mark.noConfusion keys
  simp only [left, frames_cons_of_none hn, pendingSteps, List.foldr_cons, List.length_nil]
  omega

/-! ### What is answered in the end -/

theorem outcome_nil : outcome keys before ⟨starts, marks, [], order⟩ =
    settleFrom keys before starts order >>= conclude keys := by
  show settle keys before [] order >>= (fun settled =>
    settleFrom keys before starts settled >>= conclude keys) = _
  rw [settle]
  rfl

theorem outcome_start : (start starts).outcome keys before = ordered keys before starts := by
  rw [start, outcome_nil, ordered]
  cases settleFrom keys before starts [] with
  | error k => rfl
  | ok settled => rfl

theorem outcome_pass (hk : k ∈ order) : outcome keys before ⟨k :: starts, marks, [], order⟩ =
    outcome keys before ⟨starts, marks, [], order⟩ := by
  rw [outcome_nil, outcome_nil, settleFrom, if_pos hk]

theorem outcome_begin (hk : k ∉ order) : outcome keys before ⟨k :: starts, marks, [], order⟩ =
    outcome keys before (Descent.enter ⟨starts, marks, [], order⟩ k) := by
  rw [outcome_nil, settleFrom, if_neg hk]
  show _ = settle keys before [⟨k, before k⟩] order >>= fun settled =>
    settleFrom keys before starts settled >>= conclude keys
  cases settle keys before [⟨k, before k⟩] order with
  | error a => rfl
  | ok settled => rfl

theorem outcome_leave (hn : (before k)[i]? = none) :
    outcome keys before ⟨starts, marks, (k, i) :: rest, order⟩ =
      outcome keys before ⟨starts, Function.update marks k .done, rest, order ++ [k]⟩ := by
  simp only [outcome, frames_cons_of_none hn, settle]

section Neighbour
variable (hn : (before k)[i]? = some n)
include hn

theorem outcome_skip (hdone : n ∈ order) :
    outcome keys before ⟨starts, marks, (k, i) :: rest, order⟩ =
      outcome keys before ⟨starts, marks, (k, i + 1) :: rest, order⟩ := by
  simp only [outcome, frames_cons_of_some hn]
  rw [settle, dif_pos (Or.inl hdone)]
  rfl

theorem outcome_push (hkeys : n ∈ keys) (hnew : n ∉ order)
    (hstack : n ∉ ((k, i) :: rest).map Prod.fst) :
    outcome keys before ⟨starts, marks, (k, i) :: rest, order⟩ =
      outcome keys before (Descent.enter ⟨starts, marks, (k, i + 1) :: rest, order⟩ n) := by
  have hskip : ¬ (n ∈ order ∨ n ∉ keys) := by simp [hnew, hkeys]
  have hsus : ¬ suspended (⟨k, (before k).drop (i + 1)⟩ :: frames before rest) n = true :=
    fun h => hstack ((suspended_frames ((k, i + 1) :: rest)).mp h)
  simp only [outcome, frames_cons_of_some hn]
  rw [settle, dif_neg hskip, dif_neg hsus]
  rfl

theorem outcome_met (hkeys : n ∈ keys) (hnew : n ∉ order)
    (hstack : n ∈ ((k, i) :: rest).map Prod.fst) :
    outcome keys before ⟨starts, marks, (k, i) :: rest, order⟩ = .error n := by
  have hskip : ¬ (n ∈ order ∨ n ∉ keys) := by simp [hnew, hkeys]
  have hsus : suspended (⟨k, (before k).drop (i + 1)⟩ :: frames before rest) n = true :=
    (suspended_frames ((k, i + 1) :: rest)).mpr hstack
  simp only [outcome, frames_cons_of_some hn]
  rw [settle, dif_neg hskip, dif_pos hsus]
  rfl

end Neighbour

theorem Marked.answer_eq (h : Marked keys ⟨[], marks, [], order⟩) (hkeys : keys.Nodup) :
    Descent.answer keys ⟨[], marks, [], order⟩ = conclude keys order := by
  have hnodup : order.Nodup := by simpa using h.nodup
  have hsubset : order ⊆ keys := by simpa using h.subset
  have hmissing : (keys.find? fun k => decide (marks k ≠ .done)) =
      keys.find? fun k => decide (k ∉ order) := by
    simp only [ne_eq, h.done_iff]
  rw [Descent.answer, conclude, hmissing]
  cases hfind : keys.find? fun k => decide (k ∉ order) with
  | none =>
      have hall : keys ⊆ order := fun k hk => by simpa using List.find?_eq_none.mp hfind k hk
      have hlength : keys.length ≤ order.length := (List.subperm_of_subset hkeys hall).length_le
      exact if_neg (Nat.not_lt.mpr hlength)
  | some k =>
      have hk : k ∈ keys := List.mem_of_find?_eq_some hfind
      have hleft : k ∉ order := by simpa using List.find?_some hfind
      refine if_pos (Nat.lt_of_not_le fun hle => hleft ?_)
      exact ((List.subperm_of_subset hnodup hsubset).perm_of_length_le hle).mem_iff.mpr hk

/-! ### Rounds -/

/-- A round keeps the marks right and the answer as it was, and leaves less to do. -/
structure Advances (keys : List Key) (before : Key → List Key) (d d' : Descent) : Prop where
  marked : Marked keys d'
  outcome_eq : d'.outcome keys before = d.outcome keys before
  left_lt : d'.left keys before < d.left keys before

theorem Advances.pass (h : Marked keys ⟨k :: starts, marks, [], order⟩) (hseen : marks k ≠ .unseen) :
    Advances keys before ⟨k :: starts, marks, [], order⟩ ⟨starts, marks, [], order⟩ := by
  have hdone : k ∈ order := by
    by_contra hk
    exact hseen (h.unseen_iff.mpr ⟨hk, List.not_mem_nil⟩)
  refine ⟨h.pass, (outcome_pass hdone).symm, ?_⟩
  rw [left_pass]
  exact Nat.lt_succ_self _

theorem Advances.begin (h : Marked keys ⟨k :: starts, marks, [], order⟩) (hunseen : marks k = .unseen) :
    Advances keys before ⟨k :: starts, marks, [], order⟩
      (Descent.enter ⟨starts, marks, [], order⟩ k) := by
  have hk : k ∈ keys := h.starts List.mem_cons_self
  refine ⟨h.pass.enter hk hunseen, (outcome_begin (h.unseen_iff.mp hunseen).1).symm, ?_⟩
  rw [left_pass]
  exact Nat.lt_succ_of_le (left_enter_le hk hunseen)

theorem Advances.leave (h : Marked keys ⟨starts, marks, (k, i) :: rest, order⟩)
    (hn : (before k)[i]? = none) : Advances keys before ⟨starts, marks, (k, i) :: rest, order⟩
      ⟨starts, Function.update marks k .done, rest, order ++ [k]⟩ :=
  ⟨h.leave, (outcome_leave hn).symm, left_leave_lt hn⟩

theorem Advances.skip (h : Marked keys ⟨starts, marks, (k, i) :: rest, order⟩)
    (hn : (before k)[i]? = some n) (hdone : marks n = .done) :
    Advances keys before ⟨starts, marks, (k, i) :: rest, order⟩
      ⟨starts, marks, (k, i + 1) :: rest, order⟩ := by
  refine ⟨h.advance, (outcome_skip hn ((h.done_iff n).mp hdone)).symm, ?_⟩
  rw [left_advance hn]
  exact Nat.lt_succ_self _

theorem Advances.push (h : Marked keys ⟨starts, marks, (k, i) :: rest, order⟩)
    (hn : (before k)[i]? = some n) (hk : n ∈ keys) (hunseen : marks n = .unseen) :
    Advances keys before ⟨starts, marks, (k, i) :: rest, order⟩
      (Descent.enter ⟨starts, marks, (k, i + 1) :: rest, order⟩ n) := by
  obtain ⟨horder, hstack⟩ := h.unseen_iff.mp hunseen
  refine ⟨h.advance.enter hk hunseen, (outcome_push hn hk horder hstack).symm, ?_⟩
  rw [left_advance hn]
  exact Nat.lt_succ_of_le (left_enter_le hk hunseen)

/-- A round goes on in this way, or it ends the search with its answer. -/
theorem Marked.step (h : Marked keys d) (hkeys : keys.Nodup) (hbefore : ∀ k, before k ⊆ keys) :
    (∃ d', d.step keys before = .goesOn d' ∧ Advances keys before d d') ∨
      d.step keys before = .over (d.outcome keys before) := by
  obtain ⟨starts, marks, stack, order⟩ := d
  -- one case for each way through the loop
  match stack, starts with
  | [], [] =>
      refine .inr ?_
      rw [outcome_nil]
      exact congrArg Round.over (h.answer_eq hkeys)
  | [], s :: starts =>
      by_cases hs : marks s = .unseen
      · exact .inl ⟨_, if_pos hs, .begin h hs⟩
      · exact .inl ⟨_, if_neg hs, .pass h hs⟩
  | (k, i) :: rest, starts =>
      cases hn : (before k)[i]? with
      | none => exact .inl ⟨_, by simp only [Descent.step, hn], .leave h hn⟩
      | some n =>
          have hk : n ∈ keys := hbefore k (List.mem_of_getElem? hn)
          cases hm : marks n with
          | unseen => exact .inl ⟨_, by simp only [Descent.step, hn, hm], .push h hn hk hm⟩
          | done => exact .inl ⟨_, by simp only [Descent.step, hn, hm], .skip h hn hm⟩
          | inProgress =>
              have hmet := (h.inProgress_iff n).mp hm
              have hnew : n ∉ order := fun ho => by
                cases hm.symm.trans ((h.done_iff n).mpr ho)
              refine .inr ?_
              rw [outcome_met hn hk hnew hmet]
              simp only [Descent.step, hn, hm]

/-- The loop ends, with or without cycles, and its answer is that of the search. -/
theorem Marked.run (h : Marked keys d) (hkeys : keys.Nodup) (hbefore : ∀ k, before k ⊆ keys)
    {rounds : Nat} (hrounds : d.left keys before < rounds) :
    d.run keys before rounds = some (d.outcome keys before) := by
  induction rounds generalizing d with
  | zero => exact absurd hrounds (Nat.not_lt_zero _)
  | succ rounds ih =>
      rw [Descent.run]
      rcases h.step hkeys hbefore with ⟨d', hstep, hnext⟩ | hstep
      · rw [hstep]
        rw [← hnext.outcome_eq]
        exact ih hnext.marked (Nat.lt_of_lt_of_le hnext.left_lt (Nat.le_of_lt_succ hrounds))
      · rw [hstep]

theorem run_start (hkeys : keys.Nodup) (hbefore : ∀ k, before k ⊆ keys) (hstarts : starts ⊆ keys)
    {rounds : Nat} (hrounds : (start starts).left keys before < rounds) :
    (start starts).run keys before rounds = some (ordered keys before starts) := by
  rw [(Marked.start hstarts).run hkeys hbefore hrounds, outcome_start]

theorem unseenRounds_start : unseenRounds before (fun _ => .unseen) keys =
    keys.length + (keys.flatMap before).length := by
  induction keys with
  | nil => rfl
  | cons k keys ih =>
      rw [unseenRounds, if_pos rfl, ih, List.flatMap_cons, List.length_append, List.length_cons]
      omega

theorem left_start : (start starts).left keys before =
    starts.length + (keys.length + (keys.flatMap before).length) := by
  rw [← unseenRounds_start]
  rfl

end Rounds

end Descent

/-! ## The loop on a plan -/

theorem length_flatMap_filter_le {keys : List Key} {edges : List (Key × Key)} (hkeys : keys.Nodup)
    (hedges : edges.Nodup) (f : Key × Key → Key) :
    (keys.flatMap fun k => edges.filter fun e => f e = k).length ≤ edges.length := by
  refine (List.subperm_of_subset ?_ ?_).length_le
  · refine List.nodup_flatMap.mpr ⟨fun k _ => hedges.filter _, hkeys.imp ?_⟩
    intro a b hab e ha hb
    simp only [List.mem_filter, decide_eq_true_eq] at ha hb
    exact hab (ha.2.symm.trans hb.2)
  · intro e he
    obtain ⟨k, -, hek⟩ := List.mem_flatMap.mp he
    exact List.mem_of_mem_filter hek

variable {α : Type} [PlanNode α] {p : Plan α}

theorem WellFormed.length_flatMap_predecessors_le (hp : p.WellFormed) :
    (p.keys.flatMap p.predecessors).length ≤ p.edges.length := by
  have hmap : p.keys.flatMap p.predecessors =
      (p.keys.flatMap fun k => p.edges.filter fun e => e.2 = k).map Prod.fst :=
    List.map_flatMap.symm
  rw [hmap, List.length_map]
  exact length_flatMap_filter_le hp.keys_nodup hp.edges_nodup Prod.snd

theorem WellFormed.length_flatMap_successors_le (hp : p.WellFormed) :
    (p.keys.flatMap p.successors).length ≤ p.edges.length := by
  have hmap : p.keys.flatMap p.successors =
      (p.keys.flatMap fun k => p.edges.filter fun e => e.1 = k).map Prod.snd :=
    List.map_flatMap.symm
  rw [hmap, List.length_map]
  exact length_flatMap_filter_le hp.keys_nodup hp.edges_nodup Prod.fst

theorem WellFormed.run_start (hp : p.WellFormed) {before : Key → List Key} {starts : List Key}
    (hbefore : ∀ k, before k ⊆ p.keys)
    (hedges : (p.keys.flatMap before).length ≤ p.edges.length) (hstarts : starts ⊆ p.keys)
    {rounds : Nat} (hrounds : starts.length + p.size + p.edges.length < rounds) :
    (Descent.start starts).run p.keys before rounds = some (ordered p.keys before starts) := by
  refine Descent.run_start hp.keys_nodup hbefore hstarts ?_
  have hsize : p.keys.length = p.size := List.length_map _
  rw [Descent.left_start, hsize]
  omega

/-- Both dependency orders of a plan without cycles are what the recursion settles: producers first
from the leaves, consumers first from the roots.  On any plan the loop ends in time, with what the
orders of the plan answer. -/
theorem orders_eq_recursion (hp : p.Built) :
    (∀ hacyclic : p.Acyclic,
      (∃ l, Walker.sequence ⟨.dependencyOrder, p⟩ = .ok l ∧
        (l.map fun op => PlanNode.key op.val) = (p.leaves.map PlanNode.key).foldl
          (visitLast (hp.wellFormed.wellFounded_predecessors hacyclic)) []) ∧
      ∃ l, Walker.sequence ⟨.reverseDependencyOrder, p⟩ = .ok l ∧
        (l.map fun op => PlanNode.key op.val) = (p.roots.map PlanNode.key).foldl
          (visitLast (hp.wellFormed.wellFounded_successors hacyclic)) []) ∧
    (∀ rounds, p.leaves.length + p.size + p.edges.length < rounds →
      ((Descent.start (p.leaves.map PlanNode.key)).run p.keys p.predecessors rounds).map
        (Except.mapError PlanError.cycle) = some p.dependencyKeys) ∧
    ∀ rounds, p.roots.length + p.size + p.edges.length < rounds →
      ((Descent.start (p.roots.map PlanNode.key)).run p.keys p.successors rounds).map
        (Except.mapError PlanError.cycle) = some p.reverseDependencyKeys := by
  have hwf := hp.wellFormed
  refine ⟨fun hacyclic => ⟨?_, ?_⟩, ?_, ?_⟩
  · obtain ⟨ks, hks⟩ := (exists_keys_iff hwf .dependencyOrder).mpr hacyclic
    obtain ⟨l, hl, rfl⟩ := exists_sequence_of_keys hwf hks
    exact ⟨l, hl, ordered_eq_foldl_visitLast _ hwf.predecessors_subset
      (ordered_of_mapError_eq_ok hks)⟩
  · obtain ⟨ks, hks⟩ := (exists_keys_iff hwf .reverseDependencyOrder).mpr hacyclic
    obtain ⟨l, hl, rfl⟩ := exists_sequence_of_keys hwf hks
    exact ⟨l, hl, ordered_eq_foldl_visitLast _ hwf.successors_subset
      (ordered_of_mapError_eq_ok hks)⟩
  · intro rounds hrounds
    rw [hwf.run_start hwf.predecessors_subset hwf.length_flatMap_predecessors_le
      p.leaves_subset_keys (by rwa [List.length_map])]
    rfl
  · intro rounds hrounds
    rw [hwf.run_start hwf.successors_subset hwf.length_flatMap_successors_le
      p.roots_subset_keys (by rwa [List.length_map])]
    rfl

/-- The recursions on a plan without cycles, and the loop on one that has no way out. -/
theorem shortcut_and_bridge_orders :
    (∃ (hp : shortcut.Built) (hacyclic : shortcut.Acyclic),
      (shortcut.leaves.map PlanNode.key).foldl
        (visitLast (hp.wellFormed.wellFounded_predecessors hacyclic)) [] =
          [⟨"p", 1⟩, ⟨"p", 2⟩, ⟨"p", 3⟩, ⟨"p", 4⟩] ∧
      (shortcut.roots.map PlanNode.key).foldl
        (visitLast (hp.wellFormed.wellFounded_successors hacyclic)) [] =
          [⟨"p", 3⟩, ⟨"p", 4⟩, ⟨"p", 2⟩, ⟨"p", 1⟩]) ∧
    bridge.Built ∧ ((Descent.start (bridge.leaves.map PlanNode.key)).run bridge.keys
      bridge.predecessors 12).map (Except.mapError PlanError.cycle) =
        some (.error (.cycle ⟨"p", 1⟩)) := by
  have hwf := built_shortcut.wellFormed
  obtain ⟨hrecursion, -, -⟩ := orders_eq_recursion built_shortcut
  obtain ⟨⟨l, hl, hkeys⟩, l', hl', hkeys'⟩ := hrecursion acyclic_shortcut
  obtain ⟨-, hrun, -⟩ := orders_eq_recursion built_bridge
  refine ⟨⟨built_shortcut, acyclic_shortcut, ?_, ?_⟩, built_bridge, ?_⟩
  · have hwalk : Walker.keys ⟨.dependencyOrder, shortcut⟩ =
        .ok [⟨"p", 1⟩, ⟨"p", 2⟩, ⟨"p", 3⟩, ⟨"p", 4⟩] := by cbv
    rw [← hkeys]
    exact Except.ok.inj ((sequence_eq_ok hwf hl).1.symm.trans hwalk)
  · have hwalk : Walker.keys ⟨.reverseDependencyOrder, shortcut⟩ =
        .ok [⟨"p", 3⟩, ⟨"p", 4⟩, ⟨"p", 2⟩, ⟨"p", 1⟩] := by cbv
    rw [← hkeys']
    exact Except.ok.inj ((sequence_eq_ok hwf hl').1.symm.trans hwalk)
  · have hsize : bridge.leaves.length + bridge.size + bridge.edges.length < 12 := by cbv
    have hcycle : bridge.dependencyKeys = .error (.cycle ⟨"p", 1⟩) := by cbv
    rw [hrun 12 hsize, hcycle]

end Plan
end Dataflow
