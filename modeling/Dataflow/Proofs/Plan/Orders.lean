import Mathlib.Data.List.Permutation
import Dataflow.Physical.Operator
import Dataflow.Proofs.Plan.Acyclic
/-!
# What the walkers list

Every walker lists each operator of a plan once, or finds that there is a cycle.  For the two
dependency orders this is what the search of `Plan.settle` leaves behind.  The walk from the roots
takes a key from a stack, emits it and puts what follows it on top; `Emitting` says that whatever
follows an emitted key is emitted or on the stack.  When the stack is empty, the emitted keys are
closed under what follows them, and they hold all roots; in a plan without cycles only all keys are
such a set.

The searches look keys up among those of the plan all the time.  The indexed searches here end at
the first key that is not found, and still give the same answers: no lookup fails.

**Proved here.**

    the walk from the roots lists every operator once          (`depthFirstKeys_eq_ok`)
    no search looks a key up in vain                           (`keysIndexed_eq`)
    what the walkers and the validation answer                 (`orders_sound`)
-/
namespace Dataflow
namespace Plan

/-! ## The walk from the roots -/

/-- A walk under way: what follows an emitted key is emitted, or on the stack. -/
structure Emitting (keys : List Key) (after : Key → List Key) (stack emitted : List Key) : Prop where
  nodup : emitted.Nodup
  subset : emitted ⊆ keys
  followed : ∀ k ∈ emitted, ∀ d ∈ after k, d ∈ keys → d ∈ emitted ∨ d ∈ stack

section Walk
variable {keys : List Key} {after : Key → List Key} {stack rest emitted : List Key} {k : Key}

theorem Emitting.skip (h : Emitting keys after (k :: rest) emitted) (hk : k ∈ emitted ∨ k ∉ keys) :
    Emitting keys after rest emitted := by
  refine ⟨h.nodup, h.subset, ?_⟩
  intro a ha d hd hdk
  rcases h.followed a ha d hd hdk with hd | hd
  · exact Or.inl hd
  · rcases List.mem_cons.mp hd with rfl | hd
    · exact Or.inl (hk.resolve_right fun hn => hn hdk)
    · exact Or.inr hd

theorem Emitting.emit (h : Emitting keys after (k :: rest) emitted) (hk : k ∈ keys)
    (hnew : k ∉ emitted) : Emitting keys after (after k ++ rest) (emitted ++ [k]) := by
  refine ⟨?_, ?_, ?_⟩
  · rw [← List.concat_eq_append]
    exact h.nodup.concat hnew
  · intro a ha
    rcases List.mem_append.mp ha with ha | ha
    · exact h.subset ha
    · exact List.mem_singleton.mp ha ▸ hk
  · intro a ha d hd hdk
    rcases List.mem_append.mp ha with ha | ha
    · rcases h.followed a ha d hd hdk with hd | hd
      · exact Or.inl (List.mem_append_left _ hd)
      · rcases List.mem_cons.mp hd with rfl | hd
        · exact Or.inl (List.mem_append_right _ (List.mem_singleton_self _))
        · exact Or.inr (List.mem_append_right _ hd)
    · obtain rfl := List.mem_singleton.mp ha
      exact Or.inr (List.mem_append_left _ hd)

theorem Emitting.preorder (h : Emitting keys after stack emitted) :
    Emitting keys after [] (Plan.preorder keys after stack emitted) := by
  fun_induction Plan.preorder keys after stack emitted with
  | case1 => exact h
  | case2 emitted k rest hskip ih => exact ih (h.skip hskip)
  | case3 emitted k rest hskip ih =>
      simp only [not_or, Decidable.not_not] at hskip
      exact ih (h.emit hskip.2 hskip.1)

theorem mem_preorder (hk : k ∈ keys) (h : k ∈ emitted ∨ k ∈ stack) :
    k ∈ preorder keys after stack emitted := by
  fun_induction preorder keys after stack emitted with
  | case1 emitted => exact h.resolve_right List.not_mem_nil
  | case2 emitted a rest hskip ih =>
      refine ih (h.elim Or.inl fun h => ?_)
      rcases List.mem_cons.mp h with rfl | h
      · exact Or.inl (hskip.resolve_right fun hn => hn hk)
      · exact Or.inr h
  | case3 emitted a rest hskip ih =>
      refine ih ?_
      rcases h with h | h
      · exact Or.inl (List.mem_append_left _ h)
      · rcases List.mem_cons.mp h with rfl | h
        · exact Or.inl (List.mem_append_right _ (List.mem_singleton_self _))
        · exact Or.inr (List.mem_append_right _ h)

end Walk

variable {α : Type} [PlanNode α]

theorem depthFirstKeys_eq_ok {p : Plan α} (hp : p.WellFormed) {l : List Key}
    (h : p.depthFirstKeys = .ok l) : l.Nodup ∧ ∀ k, k ∈ l ↔ k ∈ p.keys := by
  have hacyclic : p.Acyclic := (exists_depthFirstKeys_iff hp).mp ⟨l, h⟩
  simp only [depthFirstKeys] at h
  split at h
  · cases h
  cases h
  have hnil : Emitting p.keys p.successors (p.roots.map PlanNode.key) [] :=
    ⟨List.nodup_nil, List.nil_subset _, fun _ hk => absurd hk List.not_mem_nil⟩
  have hend := hnil.preorder
  refine ⟨hend.nodup, fun k => ⟨fun hk => hend.subset hk, ?_⟩⟩
  intro hk
  by_contra hleft
  -- a key that the walk has not reached would lead back to a cycle
  obtain ⟨c, -, hc⟩ := exists_cycle_of_notMem (fun a ha hroot => hp.fed_of_notMem_roots ha hroot)
    (fun r hr => mem_preorder (roots_subset_keys p hr) (Or.inr hr))
    (fun b hb a hab ha => (hend.followed b hb a hab ha).resolve_right List.not_mem_nil) hk hleft
  exact hacyclic c (transGen_successors.mp hc)

/-! ## Lookups -/

/-- The search of `settle`, with every neighbour looked up before anything is asked of it. -/
def settleIndexed (keys : List Key) (before : Key → List Key) (stack : List Frame)
    (settled : List Key) : Except PlanError (List Key) :=
  match stack with
  | [] => .ok settled
  | ⟨k, []⟩ :: rest => settleIndexed keys before rest (settled ++ [k])
  | ⟨k, d :: ds⟩ :: rest =>
    if _hfound : d ∉ keys then .error (.unknownOperator d)
    else if _hset : d ∈ settled then settleIndexed keys before (⟨k, ds⟩ :: rest) settled
    else if _hsus : suspended (⟨k, ds⟩ :: rest) d then .error (.cycle d)
    else settleIndexed keys before (⟨d, before d⟩ :: ⟨k, ds⟩ :: rest) settled
  termination_by (untouched keys stack settled, pendingSteps stack)
  decreasing_by
  · rw [untouched_pop]
    exact Prod.Lex.right _ (by simp [pendingSteps])
  · rw [untouched_pending keys k ds (d :: ds)]
    exact Prod.Lex.right _ (by simp [pendingSteps])
  · refine Prod.Lex.left _ _ ?_
    rw [untouched_pending keys k (d :: ds) ds]
    exact untouched_push (Decidable.not_not.mp _hfound) _hset (by simpa using _hsus)

/-- The search of `settleFrom`, with every start looked up. -/
def settleFromIndexed (keys : List Key) (before : Key → List Key) :
    List Key → List Key → Except PlanError (List Key)
  | [], settled => .ok settled
  | s :: starts, settled =>
    if s ∉ keys then .error (.unknownOperator s)
    else if s ∈ settled then settleFromIndexed keys before starts settled
    else
      match settleIndexed keys before [⟨s, before s⟩] settled with
      | .ok settled' => settleFromIndexed keys before starts settled'
      | .error e => .error e

/-- The search of `ordered`, with every key looked up that is met on the way. -/
def orderedIndexed (keys : List Key) (before : Key → List Key) (starts : List Key) :
    Except PlanError (List Key) :=
  match settleFromIndexed keys before starts [] with
  | .error e => .error e
  | .ok settled =>
    match keys.find? fun k => decide (k ∉ settled) with
    | none => .ok settled
    | some k => .error (.cycle k)

/-- The walk of `preorder`, with a key looked up when it is put on the stack and when it is taken
from there. -/
def preorderIndexed (keys : List Key) (after : Key → List Key) (stack emitted : List Key) :
    Except PlanError (List Key) :=
  match stack with
  | [] => .ok emitted
  | k :: rest =>
    if _hfound : k ∉ keys then .error (.unknownOperator k)
    else if _hemitted : k ∈ emitted then preorderIndexed keys after rest emitted
    else
      match (after k).find? fun d => d ∉ keys with
      | some d => .error (.unknownOperator d)
      | none => preorderIndexed keys after (after k ++ rest) (emitted ++ [k])
  termination_by ((keys.filter fun k => decide (k ∉ emitted)).length, stack.length)
  decreasing_by
  · exact Prod.Lex.right _ (by simp)
  · refine Prod.Lex.left _ _ ?_
    refine length_filter_lt (fun x hx => ?_) (Decidable.not_not.mp _hfound)
      (by simpa using _hemitted) (by simp)
    simp only [List.mem_append, decide_eq_true_eq, not_or] at hx ⊢
    exact hx.1

section Lookup
variable {keys : List Key} {before after : Key → List Key} {stack : List Frame}
  {starts settled emitted : List Key}

theorem settleIndexed_eq (hbefore : ∀ k, before k ⊆ keys) (hstack : ∀ f ∈ stack, f.pending ⊆ keys) :
    settleIndexed keys before stack settled =
      (settle keys before stack settled).mapError .cycle := by
  have hfound : ∀ {k d ds} {rest : List Frame}, (∀ f ∈ ⟨k, d :: ds⟩ :: rest, f.pending ⊆ keys) →
      d ∈ keys ∧ ∀ f ∈ ⟨k, ds⟩ :: rest, f.pending ⊆ keys := by
    intro k d ds rest h
    obtain ⟨htop, hrest⟩ := List.forall_mem_cons.mp h
    obtain ⟨hd, hds⟩ := List.cons_subset.mp htop
    exact ⟨hd, List.forall_mem_cons.mpr ⟨hds, hrest⟩⟩
  fun_induction settle keys before stack settled with
  | case1 settled =>
      rw [settleIndexed]
      rfl
  | case2 settled k rest ih =>
      rw [settleIndexed]
      exact ih (List.forall_mem_cons.mp hstack).2
  | case3 settled k d ds rest hskip ih =>
      obtain ⟨hd, hnext⟩ := hfound hstack
      have hset : d ∈ settled := hskip.resolve_right fun hn => hn hd
      rw [settleIndexed, dif_neg (not_not_intro hd), dif_pos hset]
      exact ih hnext
  | case4 settled k d ds rest hskip hsus =>
      obtain ⟨hd, -⟩ := hfound hstack
      rw [settleIndexed, dif_neg (not_not_intro hd), dif_neg fun hset => hskip (Or.inl hset),
        dif_pos hsus]
      rfl
  | case5 settled k d ds rest hskip hsus ih =>
      obtain ⟨hd, hnext⟩ := hfound hstack
      rw [settleIndexed, dif_neg (not_not_intro hd), dif_neg fun hset => hskip (Or.inl hset),
        dif_neg hsus]
      exact ih (List.forall_mem_cons.mpr ⟨hbefore d, hnext⟩)

theorem settleFromIndexed_eq (hbefore : ∀ k, before k ⊆ keys) (hstarts : starts ⊆ keys) :
    settleFromIndexed keys before starts settled =
      (settleFrom keys before starts settled).mapError .cycle := by
  induction starts generalizing settled with
  | nil => rfl
  | cons s starts ih =>
      obtain ⟨hs, hrest⟩ := List.cons_subset.mp hstarts
      have hsettle : settleIndexed keys before [⟨s, before s⟩] settled =
          (settle keys before [⟨s, before s⟩] settled).mapError .cycle :=
        settleIndexed_eq hbefore fun f hf => List.mem_singleton.mp hf ▸ hbefore s
      rw [settleFromIndexed, if_neg (not_not_intro hs), settleFrom, hsettle]
      split
      · exact ih hrest
      · cases settle keys before [⟨s, before s⟩] settled with
        | ok settled' => exact ih hrest
        | error k => rfl

theorem orderedIndexed_eq (hbefore : ∀ k, before k ⊆ keys) (hstarts : starts ⊆ keys) :
    orderedIndexed keys before starts = (ordered keys before starts).mapError .cycle := by
  rw [orderedIndexed, settleFromIndexed_eq hbefore hstarts, ordered]
  cases settleFrom keys before starts [] with
  | error k => rfl
  | ok settled =>
      dsimp only [Except.mapError]
      cases keys.find? fun k => decide (k ∉ settled) with
      | none => rfl
      | some k => rfl

theorem preorderIndexed_eq {stack : List Key} (hafter : ∀ k, after k ⊆ keys)
    (hstack : stack ⊆ keys) :
    preorderIndexed keys after stack emitted = .ok (preorder keys after stack emitted) := by
  fun_induction preorder keys after stack emitted with
  | case1 emitted => rw [preorderIndexed]
  | case2 emitted k rest hskip ih =>
      obtain ⟨hk, hrest⟩ := List.cons_subset.mp hstack
      have hemitted : k ∈ emitted := hskip.resolve_right fun hn => hn hk
      rw [preorderIndexed, dif_neg (not_not_intro hk), dif_pos hemitted]
      exact ih hrest
  | case3 emitted k rest hskip ih =>
      obtain ⟨hk, hrest⟩ := List.cons_subset.mp hstack
      have hnone : (after k).find? (fun d => d ∉ keys) = none := by
        rw [List.find?_eq_none]
        intro d hd
        simpa using hafter k hd
      rw [preorderIndexed, dif_neg (not_not_intro hk), dif_neg fun hemitted => hskip (Or.inl hemitted)]
      simp only [hnone]
      exact ih (List.append_subset.mpr ⟨hafter k, hrest⟩)

end Lookup

end Plan

/-- The keys of a walker, by the indexed searches. -/
def Walker.keysIndexed {α : Type} [PlanNode α] (w : Walker α) : Except PlanError (List Key) :=
  match w.strategy with
  | .depthFirst =>
    match Plan.orderedIndexed w.plan.keys w.plan.predecessors (w.plan.leaves.map PlanNode.key) with
    | .error e => .error e
    | .ok _ => Plan.preorderIndexed w.plan.keys w.plan.successors (w.plan.roots.map PlanNode.key) []
  | .dependencyOrder =>
    Plan.orderedIndexed w.plan.keys w.plan.predecessors (w.plan.leaves.map PlanNode.key)
  | .reverseDependencyOrder =>
    Plan.orderedIndexed w.plan.keys w.plan.successors (w.plan.roots.map PlanNode.key)

namespace Plan

variable {α : Type} [PlanNode α] {p : Plan α}

/-- No walker looks a key up in vain. -/
theorem keysIndexed_eq (hp : p.WellFormed) (s : Strategy) :
    Walker.keysIndexed ⟨s, p⟩ = Walker.keys ⟨s, p⟩ := by
  have hdependency : orderedIndexed p.keys p.predecessors (p.leaves.map PlanNode.key) =
      p.dependencyKeys :=
    orderedIndexed_eq hp.predecessors_subset p.leaves_subset_keys
  cases s with
  | depthFirst =>
      rw [Walker.keysIndexed, Walker.keys, depthFirstKeys]
      dsimp only
      rw [hdependency]
      cases p.dependencyKeys with
      | error e => rfl
      | ok l => exact preorderIndexed_eq hp.successors_subset p.roots_subset_keys
  | dependencyOrder => exact hdependency
  | reverseDependencyOrder => exact orderedIndexed_eq hp.successors_subset p.roots_subset_keys

/-! ## The orders of a plan -/

theorem keys_eq_ok (hp : p.WellFormed) {s : Strategy} {l : List Key}
    (h : Walker.keys ⟨s, p⟩ = .ok l) : l.Nodup ∧ ∀ k, k ∈ l ↔ k ∈ p.keys := by
  cases s with
  | depthFirst => exact depthFirstKeys_eq_ok hp h
  | dependencyOrder =>
      have horder := dependencyKeys_eq_ok hp h
      exact ⟨horder.nodup, horder.mem_iff⟩
  | reverseDependencyOrder =>
      obtain ⟨hnodup, hmem, -⟩ := ordered_eq_ok p.roots_subset_keys (ordered_of_mapError_eq_ok h)
      exact ⟨hnodup, hmem⟩

theorem sequence_eq_ok (hp : p.WellFormed) {s : Strategy} {l : List { op : α // op ∈ p.operators }}
    (h : Walker.sequence ⟨s, p⟩ = .ok l) :
    Walker.keys ⟨s, p⟩ = .ok (l.map fun op => PlanNode.key op.val) ∧
      ∀ op, op ∈ l.map Subtype.val ↔ op ∈ p.operators := by
  cases hk : Walker.keys ⟨s, p⟩ with
  | error e => simp [Walker.sequence, hk, Except.map] at h
  | ok ks =>
      obtain rfl : p.resolve ks = l := by simpa [Walker.sequence, hk, Except.map] using h
      obtain ⟨-, hmem⟩ := keys_eq_ok hp hk
      have hkeys := map_key_resolve hp fun k hk => (hmem k).mp hk
      rw [List.map_map] at hkeys
      exact ⟨congrArg Except.ok hkeys.symm, fun op => mem_resolve hp hmem⟩

theorem exists_sequence_iff (hp : p.WellFormed) (s : Strategy) :
    (∃ l, Walker.sequence ⟨s, p⟩ = .ok l) ↔ p.Acyclic := by
  rw [← exists_keys_iff hp s]
  constructor
  · rintro ⟨l, hl⟩
    exact ⟨_, (sequence_eq_ok hp hl).1⟩
  · rintro ⟨ks, hks⟩
    exact ⟨p.resolve ks, by simp [Walker.sequence, hks, Except.map]⟩

/-- What the walkers of a plan and its validation answer. -/
structure SoundOrders (p : Plan α) : Prop where
  /-- Every walker finds an order just when nothing feeds itself, directly or through others. -/
  exists_iff : ∀ s, (∃ l, Walker.sequence ⟨s, p⟩ = .ok l) ↔ p.Acyclic
  /-- It lists every operator once. -/
  once : ∀ s l, Walker.sequence ⟨s, p⟩ = .ok l →
    (l.map fun op => PlanNode.key op.val).Nodup ∧ (l.map Subtype.val).Perm p.operators
  producers_first : ∀ l, Walker.sequence ⟨.dependencyOrder, p⟩ = .ok l → ∀ a b, p.Feeds a b →
    [a, b].Sublist (l.map fun op => PlanNode.key op.val)
  consumers_first : ∀ l, Walker.sequence ⟨.reverseDependencyOrder, p⟩ = .ok l →
    ∀ a b, p.Feeds a b → [b, a].Sublist (l.map fun op => PlanNode.key op.val)
  /-- No lookup on the way fails. -/
  indexed : ∀ s, Walker.keysIndexed ⟨s, p⟩ = Walker.keys ⟨s, p⟩
  validate_iff : p.validate = .ok () ↔ p.Acyclic ∧ ∀ op ∈ p.operators, ∀ inputs,
    PlanNode.declaredInputs op = some inputs → ∀ i ∈ inputs, i ∈ p.predecessors (PlanNode.key op)

/-- In every plan that can be built the walkers agree on whether there is a cycle, and without one
their orders are complete and keep to the edges. -/
theorem orders_sound (hp : p.Built) : p.SoundOrders := by
  have hwf := hp.wellFormed
  refine ⟨exists_sequence_iff hwf, ?_, ?_, ?_, keysIndexed_eq hwf, ?_⟩
  · intro s l hl
    obtain ⟨hkeys, hmem⟩ := sequence_eq_ok hwf hl
    have hnodup := (keys_eq_ok hwf hkeys).1
    refine ⟨hnodup, (List.perm_ext_iff_of_nodup ?_ ?_).mpr hmem⟩
    · exact List.Nodup.of_map PlanNode.key (by rwa [List.map_map])
    · exact List.Nodup.of_map PlanNode.key hwf.keys_nodup
  · intro l hl a b hab
    obtain ⟨-, hmem, hfollows⟩ := ordered_eq_ok p.leaves_subset_keys
      (ordered_of_mapError_eq_ok (sequence_eq_ok hwf hl).1)
    obtain ⟨ha, hb⟩ := hwf.mem_keys hab
    exact hfollows.sublist ((hmem b).mpr hb) (mem_predecessors.mpr hab) ha
  · intro l hl a b hab
    obtain ⟨-, hmem, hfollows⟩ := ordered_eq_ok p.roots_subset_keys
      (ordered_of_mapError_eq_ok (sequence_eq_ok hwf hl).1)
    obtain ⟨ha, hb⟩ := hwf.mem_keys hab
    exact hfollows.sublist ((hmem a).mpr ha) (mem_successors.mpr hab) hb
  · rw [validate_eq_ok, unresolvedInput?_eq_none, exists_dependencyKeys_iff hwf, and_comm]
    simp only [mem_predecessors]

/-- A load that is taken twice, once as it is and once cut off, and put together again. -/
def rejoined : PhysicalPlan := .ofOperators
  [⟨⟨"p", 1⟩, .load "in", []⟩, ⟨⟨"p", 2⟩, .limit 5, [⟨"p", 1⟩]⟩,
    ⟨⟨"p", 3⟩, .union, [⟨"p", 1⟩, ⟨"p", 2⟩]⟩]

theorem rejoined_orders_sound : rejoined.Built ∧ rejoined.SoundOrders ∧
    Walker.keys ⟨.depthFirst, rejoined⟩ = .ok [⟨"p", 1⟩, ⟨"p", 2⟩, ⟨"p", 3⟩] :=
  ⟨built_ofOperators _, orders_sound (built_ofOperators _), by cbv⟩

end Plan
end Dataflow
