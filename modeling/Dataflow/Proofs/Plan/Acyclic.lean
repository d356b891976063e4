import Mathlib.Data.Fintype.Card
import Mathlib.Data.Set.Finite.List
import Dataflow.Plan.Walker
import Dataflow.Proofs.Plan.DependencyOrder
/-!
# Plans that can be ordered

`Plan.ordered` gives up in two places.  The search gives up when it meets a key that is still
suspended; since every suspended key is a neighbour of the one below it on the stack, the key lies
on a cycle.  Afterwards a key may be left over that no start has reached.  Then everything that it
is a neighbour of is left over as well, and a finite set in which every key leads to another one
contains a cycle.  So a plan without cycles is ordered, and the converse holds because each key
stands behind its neighbours.

The named key of the second case need not be on a cycle itself, so what is said of a refusal is only
that there is a cycle.

**Proved here.**

    a search that gives up has met a cycle         (`Descending.settle_eq_error`)
    a search succeeds just without cycles          (`exists_ordered_iff`)
    all walkers agree on which plans have an order (`exists_keys_iff`)
-/
namespace Dataflow

/-- Where every member of a finite set leads to a member, each of them leads to a cycle. -/
theorem exists_reachable_cycle {α : Type} {R : α → α → Prop} {l : List α} {a : α} (ha : a ∈ l)
    (h : ∀ a ∈ l, ∃ b ∈ l, R a b) :
    ∃ c, Relation.ReflTransGen R a c ∧ Relation.TransGen R c c := by
  by_contra hno
  -- without a cycle the members that `a` leads to are ordered
  have : Finite { b // b ∈ l ∧ Relation.ReflTransGen R a b } :=
    ((List.finite_toSet l).subset fun _ hb => hb.1).to_subtype
  have : IsTrans { b // b ∈ l ∧ Relation.ReflTransGen R a b }
      fun c b => Relation.TransGen R b.val c.val :=
    ⟨fun _ _ _ hcb hba => hba.trans hcb⟩
  have : Std.Irrefl fun c b : { b // b ∈ l ∧ Relation.ReflTransGen R a b } =>
      Relation.TransGen R b.val c.val :=
    ⟨fun b hb => hno ⟨b, b.property.2, hb⟩⟩
  have hwf : WellFounded fun c b : { b // b ∈ l ∧ Relation.ReflTransGen R a b } =>
      Relation.TransGen R b.val c.val :=
    Finite.wellFounded_of_trans_of_irrefl _
  -- and they cannot all lead on
  have hnone : ∀ m : { b // b ∈ l ∧ Relation.ReflTransGen R a b }, False := by
    intro m
    induction m using hwf.induction with
    | _ m ih =>
        obtain ⟨b, hb, hmb⟩ := h m m.property.1
        exact ih ⟨b, hb, m.property.2.tail hmb⟩ (.single hmb)
  exact hnone ⟨a, ha, .refl⟩

theorem exists_transGen_self {α : Type} {R : α → α → Prop} {l : List α} (hne : l ≠ [])
    (h : ∀ a ∈ l, ∃ b ∈ l, R a b) : ∃ a, Relation.TransGen R a a := by
  obtain ⟨a, ha⟩ := List.exists_mem_of_ne_nil l hne
  obtain ⟨c, -, hc⟩ := exists_reachable_cycle ha h
  exact ⟨c, hc⟩

theorem not_transGen_self {α : Type} {R : α → α → Prop} (rank : α → Nat)
    (h : ∀ a b, R a b → rank a < rank b) (a : α) : ¬ Relation.TransGen R a a := by
  have hlt : ∀ {b}, Relation.TransGen R a b → rank a < rank b := by
    intro b hab
    induction hab with
    | single hab => exact h _ _ hab
    | tail _ hbc ih => exact Nat.lt_trans ih (h _ _ hbc)
  exact fun ha => Nat.lt_irrefl _ (hlt ha)

theorem idxOf_lt_of_mem {α : Type} [DecidableEq α] {l₁ l₂ : List α} {a b : α}
    (hnodup : (l₁ ++ b :: l₂).Nodup) (ha : a ∈ l₁) :
    (l₁ ++ b :: l₂).idxOf a < (l₁ ++ b :: l₂).idxOf b := by
  have hnew : b ∉ l₁ := by
    intro hb
    exact (List.nodup_append.mp hnodup).2.2 b hb b List.mem_cons_self rfl
  rw [List.idxOf_append_of_mem ha, List.idxOf_append_of_notMem hnew]
  exact Nat.lt_add_right _ (List.idxOf_lt_length_of_mem ha)

namespace Plan

/-! ## What a search has met -/

/-- The suspended keys, innermost first, each on a path to all those below it. -/
structure Descending (before : Key → List Key) (stack : List Frame) : Prop where
  pending : ∀ f ∈ stack, f.pending ⊆ before f.key
  path : stack.Pairwise fun f g => Relation.TransGen (fun a b => a ∈ before b) f.key g.key

section Search
variable {keys : List Key} {before : Key → List Key} {stack rest : List Frame}
  {settled l : List Key} {k d : Key} {ds : List Key}

theorem Descending.start (k : Key) : Descending before [⟨k, before k⟩] := by
  refine ⟨?_, List.pairwise_singleton _ _⟩
  intro f hf
  obtain rfl := List.mem_singleton.mp hf
  exact List.Subset.refl _

theorem Descending.pop (h : Descending before (⟨k, []⟩ :: rest)) : Descending before rest :=
  ⟨fun f hf => h.pending f (List.mem_cons_of_mem _ hf), (List.pairwise_cons.mp h.path).2⟩

theorem Descending.skip (h : Descending before (⟨k, d :: ds⟩ :: rest)) :
    Descending before (⟨k, ds⟩ :: rest) := by
  obtain ⟨hhead, hrest⟩ := List.pairwise_cons.mp h.path
  refine ⟨?_, List.pairwise_cons.mpr ⟨hhead, hrest⟩⟩
  intro f hf
  rcases List.mem_cons.mp hf with rfl | hf
  · intro x hx
    exact h.pending _ List.mem_cons_self (List.mem_cons_of_mem _ hx)
  · exact h.pending f (List.mem_cons_of_mem _ hf)

theorem Descending.neighbour (h : Descending before (⟨k, d :: ds⟩ :: rest)) : d ∈ before k :=
  h.pending _ List.mem_cons_self List.mem_cons_self

theorem Descending.push (h : Descending before (⟨k, d :: ds⟩ :: rest)) :
    Descending before (⟨d, before d⟩ :: ⟨k, ds⟩ :: rest) := by
  have hstep : Relation.TransGen (fun a b => a ∈ before b) d k := .single h.neighbour
  have hpath := (List.pairwise_cons.mp h.path).1
  refine ⟨?_, List.pairwise_cons.mpr ⟨?_, h.skip.path⟩⟩
  · intro f hf
    rcases List.mem_cons.mp hf with rfl | hf
    · exact List.Subset.refl _
    · exact h.skip.pending f hf
  · intro f hf
    rcases List.mem_cons.mp hf with rfl | hf
    · exact hstep
    · exact hstep.trans (hpath f hf)

/-- A suspended key that is met again lies on a cycle. -/
theorem Descending.cycle (h : Descending before (⟨k, d :: ds⟩ :: rest))
    (hsus : suspended (⟨k, ds⟩ :: rest) d = true) :
    Relation.TransGen (fun a b => a ∈ before b) d d := by
  obtain ⟨f, hf, hkey⟩ := List.any_eq_true.mp hsus
  obtain rfl : f.key = d := of_decide_eq_true hkey
  rcases List.mem_cons.mp hf with rfl | hf
  · exact .single h.neighbour
  · exact .head h.neighbour ((List.pairwise_cons.mp h.path).1 f hf)

/-- A search that gives up names a key on a cycle. -/
theorem Descending.settle_eq_error (hs : Descending before stack)
    (h : settle keys before stack settled = .error d) :
    Relation.TransGen (fun a b => a ∈ before b) d d := by
  fun_induction settle keys before stack settled with
  | case1 => cases h
  | case2 settled k rest ih => exact ih hs.pop h
  | case3 settled k d ds rest hskip ih => exact ih hs.skip h
  | case4 settled k d ds rest hskip hsus =>
      cases h
      exact hs.cycle hsus
  | case5 settled k d ds rest hskip hsus ih => exact ih hs.push h

theorem subset_of_settle_eq_ok (h : settle keys before stack settled = .ok l) :
    settled ++ stack.map Frame.key ⊆ l := by
  fun_induction settle keys before stack settled with
  | case1 settled =>
      cases h
      simp
  | case2 settled k rest ih => simpa using ih h
  | case3 settled k d ds rest hskip ih => exact ih h
  | case4 => cases h
  | case5 settled k d ds rest hskip hsus ih =>
      intro x hx
      refine ih h ?_
      rcases List.mem_append.mp hx with hx | hx
      · exact List.mem_append_left _ hx
      · exact List.mem_append_right _ (List.mem_cons_of_mem _ hx)

theorem cycle_of_settleFrom_eq_error {starts : List Key}
    (h : settleFrom keys before starts settled = .error d) :
    Relation.TransGen (fun a b => a ∈ before b) d d := by
  induction starts generalizing settled with
  | nil => cases h
  | cons s starts ih =>
      simp only [settleFrom] at h
      split at h
      · exact ih h
      · split at h
        · exact ih h
        next e he =>
          cases h
          exact (Descending.start s).settle_eq_error he

theorem subset_of_settleFrom_eq_ok {starts : List Key}
    (h : settleFrom keys before starts settled = .ok l) : settled ++ starts ⊆ l := by
  induction starts generalizing settled with
  | nil =>
      cases h
      simp
  | cons s starts ih =>
      simp only [settleFrom] at h
      split at h
      next hs =>
        intro x hx
        refine ih h ?_
        rcases List.mem_append.mp hx with hx | hx
        · exact List.mem_append_left _ hx
        · rcases List.mem_cons.mp hx with rfl | hx
          · exact List.mem_append_left _ hs
          · exact List.mem_append_right _ hx
      next =>
        split at h
        next settled' hok =>
          have hstep := subset_of_settle_eq_ok hok
          intro x hx
          refine ih h ?_
          rcases List.mem_append.mp hx with hx | hx
          · exact List.mem_append_left _ (hstep (List.mem_append_left _ hx))
          · rcases List.mem_cons.mp hx with rfl | hx
            · exact List.mem_append_left _ (hstep (by simp))
            · exact List.mem_append_right _ hx
        · cases h

theorem Follows.closed (hl : Follows keys before l) (hk : k ∈ l) (hdk : d ∈ before k)
    (hd : d ∈ keys) : d ∈ l := by
  obtain ⟨l₁, l₂, rfl⟩ := List.append_of_mem hk
  exact List.mem_append_left _ (hl l₁ k l₂ rfl d hdk hd)

/-- A set that is closed under neighbours and holds all keys that are no neighbours leaves out only
keys that lead to a cycle: each of them is a neighbour of another one. -/
theorem exists_cycle_of_notMem {starts : List Key}
    (hends : ∀ a ∈ keys, a ∉ starts → ∃ b ∈ keys, a ∈ before b) (hstarts : starts ⊆ l)
    (hclosed : ∀ b ∈ l, ∀ a ∈ before b, a ∈ keys → a ∈ l) (hk : k ∈ keys) (hleft : k ∉ l) :
    ∃ c, Relation.ReflTransGen (fun a b => a ∈ before b) k c ∧
      Relation.TransGen (fun a b => a ∈ before b) c c := by
  have hmem : ∀ {a}, a ∈ keys.filter (fun a => a ∉ l) ↔ a ∈ keys ∧ a ∉ l := by
    intro a
    rw [List.mem_filter, decide_eq_true_eq]
  refine exists_reachable_cycle (l := keys.filter fun a => a ∉ l) (hmem.mpr ⟨hk, hleft⟩) ?_
  intro a ha
  obtain ⟨hak, hal⟩ := hmem.mp ha
  obtain ⟨b, hb, hab⟩ := hends a hak fun hs => hal (hstarts hs)
  exact ⟨b, hmem.mpr ⟨hb, fun hbl => hal (hclosed b hbl a hab hak)⟩, hab⟩

/-- If a search begins from all keys that are no neighbours, it is refused only for a cycle. -/
theorem exists_cycle_of_ordered_eq_error {starts : List Key} (hstarts : starts ⊆ keys)
    (hends : ∀ a ∈ keys, a ∉ starts → ∃ b ∈ keys, a ∈ before b)
    (h : ordered keys before starts = .error k) :
    ∃ x, Relation.TransGen (fun a b => a ∈ before b) x x := by
  simp only [ordered] at h
  split at h
  next e he =>
    cases h
    exact ⟨_, cycle_of_settleFrom_eq_error he⟩
  next settled hok =>
    have hnil : Settling keys before [] [] :=
      ⟨List.nodup_nil, List.nil_subset _, Follows.nil, trivial⟩
    have hfollows := (hnil.settleFrom hstarts hok).follows
    have hreached : starts ⊆ settled := by simpa using subset_of_settleFrom_eq_ok hok
    split at h
    · cases h
    next left hleft =>
      obtain ⟨c, -, hc⟩ := exists_cycle_of_notMem hends hreached
        (fun b hb a hab hak => hfollows.closed hb hab hak)
        (List.mem_of_find?_eq_some hleft) (by simpa using List.find?_some hleft)
      exact ⟨c, hc⟩

/-! ## What an order rules out -/

theorem Follows.idxOf_lt (hl : Follows keys before l) (hnodup : l.Nodup) (hdk : d ∈ before k)
    (hd : d ∈ keys) (hk : k ∈ l) : l.idxOf d < l.idxOf k := by
  obtain ⟨l₁, l₂, rfl⟩ := List.append_of_mem hk
  exact idxOf_lt_of_mem hnodup (hl l₁ k l₂ rfl d hdk hd)

theorem idxOf_lt_of_ordered {starts : List Key} (hstarts : starts ⊆ keys)
    (hkeys : ∀ a b, a ∈ before b → a ∈ keys ∧ b ∈ keys) (h : ordered keys before starts = .ok l)
    {a b : Key} (hab : a ∈ before b) : l.idxOf a < l.idxOf b := by
  obtain ⟨hnodup, hmem, hfollows⟩ := ordered_eq_ok hstarts h
  obtain ⟨ha, hb⟩ := hkeys a b hab
  exact hfollows.idxOf_lt hnodup hab ha ((hmem b).mpr hb)

/-- A search that begins from all keys that are no neighbours succeeds just when there is no cycle. -/
theorem exists_ordered_iff {starts : List Key} (hstarts : starts ⊆ keys)
    (hends : ∀ a ∈ keys, a ∉ starts → ∃ b ∈ keys, a ∈ before b)
    (hkeys : ∀ a b, a ∈ before b → a ∈ keys ∧ b ∈ keys) :
    (∃ l, (ordered keys before starts).mapError PlanError.cycle = .ok l) ↔
      ∀ x, ¬ Relation.TransGen (fun a b => a ∈ before b) x x := by
  cases ho : ordered keys before starts with
  | error k =>
      obtain ⟨x, hx⟩ := exists_cycle_of_ordered_eq_error hstarts hends ho
      refine ⟨fun ⟨l, hl⟩ => ?_, fun hacyc => absurd hx (hacyc x)⟩
      cases hl
  | ok l =>
      have hstep : ∀ a b, a ∈ before b → l.idxOf a < l.idxOf b :=
        fun _ _ hab => idxOf_lt_of_ordered hstarts hkeys ho hab
      exact ⟨fun _ => not_transGen_self l.idxOf hstep, fun _ => ⟨l, rfl⟩⟩

end Search

/-! ## The orders of a plan -/

variable {α : Type}

/-- Nothing feeds itself, directly or through others. -/
def Acyclic (p : Plan α) : Prop := ∀ k, ¬ Relation.TransGen p.Feeds k k

theorem transGen_predecessors {p : Plan α} {a b : Key} :
    Relation.TransGen (fun a b => a ∈ p.predecessors b) a b ↔ Relation.TransGen p.Feeds a b := by
  simp only [mem_predecessors]

theorem transGen_successors {p : Plan α} {a b : Key} :
    Relation.TransGen (fun a b => a ∈ p.successors b) a b ↔ Relation.TransGen p.Feeds b a := by
  simp only [mem_successors]
  exact Relation.transGen_swap

variable [PlanNode α] {p : Plan α}

theorem roots_subset_keys (p : Plan α) : p.roots.map PlanNode.key ⊆ p.keys := by
  intro k hk
  obtain ⟨op, hop, rfl⟩ := List.mem_map.mp hk
  exact List.mem_map_of_mem (List.mem_of_mem_filter hop)

theorem WellFormed.predecessors_subset (hp : p.WellFormed) (k : Key) : p.predecessors k ⊆ p.keys :=
  fun _ hd => (hp.mem_keys (mem_predecessors.mp hd)).1

theorem WellFormed.successors_subset (hp : p.WellFormed) (k : Key) : p.successors k ⊆ p.keys :=
  fun _ hd => (hp.mem_keys (mem_successors.mp hd)).2

theorem WellFormed.feeds_of_notMem_leaves (hp : p.WellFormed) {a : Key} (ha : a ∈ p.keys)
    (hleaf : a ∉ p.leaves.map PlanNode.key) : ∃ b ∈ p.keys, a ∈ p.predecessors b := by
  obtain ⟨op, hop, rfl⟩ := mem_keys_iff.mp ha
  have hne : p.successors (PlanNode.key op) ≠ [] := by
    intro hnil
    exact hleaf (List.mem_map_of_mem (List.mem_filter.mpr ⟨hop, by simp [hnil]⟩))
  obtain ⟨b, hb⟩ := List.exists_mem_of_ne_nil _ hne
  have hfeeds := mem_successors.mp hb
  exact ⟨b, (hp.mem_keys hfeeds).2, mem_predecessors.mpr hfeeds⟩

theorem WellFormed.fed_of_notMem_roots (hp : p.WellFormed) {a : Key} (ha : a ∈ p.keys)
    (hroot : a ∉ p.roots.map PlanNode.key) : ∃ b ∈ p.keys, a ∈ p.successors b := by
  obtain ⟨op, hop, rfl⟩ := mem_keys_iff.mp ha
  have hne : p.predecessors (PlanNode.key op) ≠ [] := by
    intro hnil
    exact hroot (List.mem_map_of_mem (List.mem_filter.mpr ⟨hop, by simp [hnil]⟩))
  obtain ⟨b, hb⟩ := List.exists_mem_of_ne_nil _ hne
  have hfeeds := mem_predecessors.mp hb
  exact ⟨b, (hp.mem_keys hfeeds).1, mem_successors.mpr hfeeds⟩

theorem exists_dependencyKeys_iff (hp : p.WellFormed) :
    (∃ l, p.dependencyKeys = .ok l) ↔ p.Acyclic := by
  have hiff := exists_ordered_iff p.leaves_subset_keys
    (fun a ha hleaf => hp.feeds_of_notMem_leaves ha hleaf)
    fun a b hab => hp.mem_keys (mem_predecessors.mp hab)
  simp only [transGen_predecessors] at hiff
  exact hiff

theorem exists_reverseDependencyKeys_iff (hp : p.WellFormed) :
    (∃ l, p.reverseDependencyKeys = .ok l) ↔ p.Acyclic := by
  have hiff := exists_ordered_iff p.roots_subset_keys
    (fun a ha hroot => hp.fed_of_notMem_roots ha hroot)
    fun a b hab => (hp.mem_keys (mem_successors.mp hab)).symm
  simp only [transGen_successors] at hiff
  exact hiff

theorem exists_depthFirstKeys_iff (hp : p.WellFormed) :
    (∃ l, p.depthFirstKeys = .ok l) ↔ p.Acyclic := by
  rw [← exists_dependencyKeys_iff hp]
  simp only [depthFirstKeys]
  cases p.dependencyKeys with
  | error e => simp
  | ok l => simp

theorem keys_eq_error {w : Walker α} {e : PlanError} (h : w.keys = .error e) :
    ∃ k, e = .cycle k := by
  have hnamed : ∀ {β : Type} {r : Except Key β}, r.mapError PlanError.cycle = .error e →
      ∃ k, e = .cycle k := by
    intro β r hr
    cases r with
    | ok b => cases hr
    | error k =>
        cases hr
        exact ⟨k, rfl⟩
  obtain ⟨s, p⟩ := w
  cases s with
  | dependencyOrder => exact hnamed h
  | reverseDependencyOrder => exact hnamed h
  | depthFirst =>
      simp only [Walker.keys, depthFirstKeys] at h
      split at h
      next e' he =>
        cases h
        exact hnamed he
      · cases h

theorem keys_of_sequence_eq_error {w : Walker α} {e : PlanError} (h : w.sequence = .error e) :
    w.keys = .error e := by
  cases hk : w.keys with
  | ok ks => simp [Walker.sequence, hk, Except.map] at h
  | error e' => simpa [Walker.sequence, hk, Except.map] using h

theorem sequence_eq_error {w : Walker α} {e : PlanError} (h : w.sequence = .error e) :
    ∃ k, e = .cycle k :=
  keys_eq_error (keys_of_sequence_eq_error h)

/-- Every walker finds an order exactly for the plans without cycles. -/
theorem exists_keys_iff (hp : p.WellFormed) (s : Strategy) :
    (∃ l, Walker.keys ⟨s, p⟩ = .ok l) ↔ p.Acyclic := by
  cases s with
  | depthFirst => exact exists_depthFirstKeys_iff hp
  | dependencyOrder => exact exists_dependencyKeys_iff hp
  | reverseDependencyOrder => exact exists_reverseDependencyKeys_iff hp

end Plan
end Dataflow
