import Dataflow.Proofs.Plan.Orders
/-!
# The operator that a refusal names

A search without success names an operator.  When it has met a suspended one again, this one is on a
cycle, and like everything that the search meets it leads to one of the ends that the search has
begun from.  When the search has run to its end and has left operators over, it names the first of
them.  What is left over leads to no end at all, hence to a cycle, but it need not be on a cycle
itself: it may just as well stand before one, and a search gets here whenever no cycle leads to an
end.

**Proved here.**

    what a search meets leads to an end                     (`Leading.settle`)
    how a search comes to name an operator                  (`ordered_eq_error`)
    where the named operator stands, and when on a cycle    (`refusal_blames`)
    a plan in which it is on none                           (`bridge_not_onCycle`)
-/
namespace Dataflow
namespace Plan

/-! ## What a search meets -/

/-- A key from which neighbours lead on to an end. -/
def Led (before : Key → List Key) (ends : List Key) (k : Key) : Prop :=
  ∃ e ∈ ends, Relation.ReflTransGen (fun a b => a ∈ before b) k e

/-- The first of some keys that has a property. -/
structure IsFirst (keys : List Key) (P : Key → Prop) (k : Key) : Prop where
  mem : k ∈ keys
  holds : P k
  first : ∀ a ∈ keys, P a → keys.idxOf k ≤ keys.idxOf a

/-- A search that has met nothing but keys that lead to an end. -/
structure Leading (before : Key → List Key) (ends : List Key) (stack : List Frame)
    (settled : List Key) : Prop where
  descending : Descending before stack
  stack : ∀ f ∈ stack, Led before ends f.key
  settled : ∀ k ∈ settled, Led before ends k

/-- All keys of an answer have a property, be they settled or named by a refusal. -/
def Answers (P : Key → Prop) : Except Key (List Key) → Prop
  | .ok l => ∀ k ∈ l, P k
  | .error k => P k

section Search
variable {keys : List Key} {before : Key → List Key} {ends starts : List Key}
  {stack rest : List Frame} {settled l : List Key} {k d : Key} {ds : List Key}

theorem Led.neighbour (h : Led before ends k) (hd : d ∈ before k) : Led before ends d := by
  obtain ⟨e, he, hke⟩ := h
  exact ⟨e, he, hke.head hd⟩

theorem Leading.nil : Leading before ends [] [] :=
  ⟨⟨fun _ hf => absurd hf List.not_mem_nil, .nil⟩, fun _ hf => absurd hf List.not_mem_nil,
    fun _ hk => absurd hk List.not_mem_nil⟩

theorem Leading.start (h : Leading before ends [] settled) (hk : k ∈ ends) :
    Leading before ends [⟨k, before k⟩] settled :=
  ⟨.start k, List.forall_mem_singleton.mpr ⟨k, hk, .refl⟩, h.settled⟩

theorem Leading.pop (h : Leading before ends (⟨k, []⟩ :: rest) settled) :
    Leading before ends rest (settled ++ [k]) := by
  obtain ⟨hk, hrest⟩ := List.forall_mem_cons.mp h.stack
  refine ⟨h.descending.pop, hrest, ?_⟩
  intro a ha
  rcases List.mem_append.mp ha with ha | ha
  · exact h.settled a ha
  · exact List.mem_singleton.mp ha ▸ hk

theorem Leading.skip (h : Leading before ends (⟨k, d :: ds⟩ :: rest) settled) :
    Leading before ends (⟨k, ds⟩ :: rest) settled :=
  ⟨h.descending.skip, List.forall_mem_cons.mpr (List.forall_mem_cons.mp h.stack), h.settled⟩

theorem Leading.met (h : Leading before ends (⟨k, d :: ds⟩ :: rest) settled) :
    Led before ends d :=
  (h.stack _ List.mem_cons_self).neighbour h.descending.neighbour

theorem Leading.push (h : Leading before ends (⟨k, d :: ds⟩ :: rest) settled) :
    Leading before ends (⟨d, before d⟩ :: ⟨k, ds⟩ :: rest) settled :=
  ⟨h.descending.push, List.forall_mem_cons.mpr ⟨h.met, h.skip.stack⟩, h.settled⟩

/-- What a search meets leads to an end. -/
theorem Leading.settle (h : Leading before ends stack settled) :
    Answers (Led before ends) (Plan.settle keys before stack settled) := by
  fun_induction Plan.settle keys before stack settled with
  | case1 => exact h.settled
  | case2 settled k rest ih => exact ih h.pop
  | case3 settled k d ds rest hskip ih => exact ih h.skip
  | case4 settled k d ds rest hskip hsus => exact h.met
  | case5 settled k d ds rest hskip hsus ih => exact ih h.push

theorem Leading.settleFrom (hstarts : starts ⊆ ends) (h : Leading before ends [] settled) :
    Answers (Led before ends) (Plan.settleFrom keys before starts settled) := by
  induction starts generalizing settled with
  | nil => exact h.settled
  | cons s starts ih =>
      obtain ⟨hs, hrest⟩ := List.cons_subset.mp hstarts
      simp only [Plan.settleFrom]
      split
      · exact ih hrest h
      · have hanswers : Answers (Led before ends) (Plan.settle keys before [⟨s, before s⟩] settled) :=
          (h.start hs).settle
        split
        next settled' hok =>
          rw [hok] at hanswers
          exact ih hrest ⟨h.descending, h.stack, hanswers⟩
        next e he =>
          rw [he] at hanswers
          exact hanswers

theorem IsFirst.unique {P : Key → Prop} (h : IsFirst keys P k) (h' : IsFirst keys P d) : k = d := by
  have hidx : keys.idxOf k = keys.idxOf d :=
    Nat.le_antisymm (h.first d h'.mem h'.holds) (h'.first k h.mem h.holds)
  exact (List.idxOf_inj h.mem).mp hidx

theorem Follows.not_transGen_self (hl : Follows keys before l) (hnodup : l.Nodup)
    (hkeys : ∀ a b, a ∈ before b → a ∈ keys) (hk : k ∈ l) :
    ¬ Relation.TransGen (fun a b => a ∈ before b) k k := by
  have hdown : ∀ {a b}, Relation.TransGen (fun a b => a ∈ before b) a b → b ∈ l →
      a ∈ l ∧ l.idxOf a < l.idxOf b := by
    intro a b hab
    induction hab with
    | single hab =>
        intro hb
        exact ⟨hl.closed hb hab (hkeys _ _ hab), hl.idxOf_lt hnodup hab (hkeys _ _ hab) hb⟩
    | tail _ hbc ih =>
        intro hc
        obtain ⟨ha, hlt⟩ := ih (hl.closed hc hbc (hkeys _ _ hbc))
        exact ⟨ha, Nat.lt_trans hlt (hl.idxOf_lt hnodup hbc (hkeys _ _ hbc) hc)⟩
  intro hcycle
  exact Nat.lt_irrefl _ (hdown hcycle hk).2

/-- A search without success has either met the key that it names on a cycle that leads to an end, or
there is no such cycle, and the key is the first one that leads to no end. -/
theorem ordered_eq_error (hends : ends ⊆ keys)
    (hrest : ∀ a ∈ keys, a ∉ ends → ∃ b ∈ keys, a ∈ before b)
    (hkeys : ∀ a b, a ∈ before b → a ∈ keys) (h : ordered keys before ends = .error k) :
    (Relation.TransGen (fun a b => a ∈ before b) k k ∧ Led before ends k) ∨
      (IsFirst keys (fun a => ¬ Led before ends a) k ∧
        (∃ c, Relation.ReflTransGen (fun a b => a ∈ before b) k c ∧
          Relation.TransGen (fun a b => a ∈ before b) c c) ∧
        ∀ c, Relation.TransGen (fun a b => a ∈ before b) c c → ¬ Led before ends c) := by
  have hanswers : Answers (Led before ends) (settleFrom keys before ends []) :=
    Leading.nil.settleFrom (List.Subset.refl ends)
  simp only [ordered] at h
  split at h
  next e he =>
    cases h
    rw [he] at hanswers
    exact Or.inl ⟨cycle_of_settleFrom_eq_error he, hanswers⟩
  next settled hok =>
    rw [hok] at hanswers
    have hnil : Settling keys before [] [] :=
      ⟨List.nodup_nil, List.nil_subset _, Follows.nil, trivial⟩
    have hsettling := hnil.settleFrom hends hok
    have hreached : ends ⊆ settled := by simpa using subset_of_settleFrom_eq_ok hok
    -- settled is just what leads to an end
    have hled : ∀ a, Led before ends a ↔ a ∈ settled := by
      intro a
      refine ⟨?_, fun ha => hanswers a ha⟩
      rintro ⟨e, he, hae⟩
      induction hae using Relation.ReflTransGen.head_induction_on with
      | refl => exact hreached he
      | head hab _ ih => exact hsettling.follows.closed ih hab (hkeys _ _ hab)
    split at h
    · cases h
    next left hleft =>
      cases h
      have hnew : k ∉ settled := by simpa using List.find?_some hleft
      have hk : k ∈ keys := List.mem_of_find?_eq_some hleft
      refine Or.inr ⟨⟨hk, fun hled' => hnew ((hled k).mp hled'), ?_⟩, ?_, ?_⟩
      · intro a _ ha
        obtain ⟨-, l₁, l₂, rfl, hall⟩ := List.find?_eq_some_iff_append.mp hleft
        have hbefore : ∀ {b}, b ∉ settled → b ∉ l₁ := by
          intro b hb hb₁
          simpa [hb] using hall b hb₁
        rw [List.idxOf_append_of_notMem (hbefore hnew),
          List.idxOf_append_of_notMem (hbefore fun h => ha ((hled a).mpr h)), List.idxOf_cons_self]
        exact Nat.add_le_add_left (Nat.zero_le _) _
      · exact exists_cycle_of_notMem hrest hreached
          (fun b hb a hab ha => hsettling.follows.closed hb hab ha) hk hnew
      · intro c hc hc'
        exact hsettling.follows.not_transGen_self (by simpa using hsettling.nodup) hkeys
          ((hled c).mp hc') hc

end Search

/-! ## The named operator -/

variable {α : Type}

/-- An operator that feeds itself through others. -/
def OnCycle (p : Plan α) (k : Key) : Prop := Relation.TransGen p.Feeds k k

/-- Whether one operator leads to another: against the edges if consumers come first, else along
them. -/
def Leads (s : Strategy) (p : Plan α) (a b : Key) : Prop :=
  match s with
  | .reverseDependencyOrder => Relation.ReflTransGen p.Feeds b a
  | _ => Relation.ReflTransGen p.Feeds a b

variable [PlanNode α]

/-- The operators that the search for an order begins from: the roots if consumers come first, else
the leaves. -/
def ends (s : Strategy) (p : Plan α) : List α :=
  match s with
  | .reverseDependencyOrder => p.roots
  | _ => p.leaves

/-- An operator that leads to an end. -/
def LeadsOut (s : Strategy) (p : Plan α) (k : Key) : Prop :=
  ∃ e ∈ ends s p, Leads s p k (PlanNode.key e)

/-- The operator that a refusal names, seen from the cycles of the plan. -/
structure Blames (s : Strategy) (p : Plan α) (k : Key) : Prop where
  leads : ∃ c, Leads s p k c ∧ p.OnCycle c
  /-- It is on a cycle itself if some cycle leads to an end, or else if the first operator that leads
  to none is on a cycle. -/
  onCycle_iff : p.OnCycle k ↔ (∃ c, p.OnCycle c ∧ LeadsOut s p c) ∨
    ∃ m, IsFirst p.keys (fun a => ¬ LeadsOut s p a) m ∧ p.OnCycle m

variable {p : Plan α} {k : Key}

theorem Blames.of_ordered {s : Strategy}
    (h : (p.OnCycle k ∧ LeadsOut s p k) ∨ (IsFirst p.keys (fun a => ¬ LeadsOut s p a) k ∧
      (∃ c, Leads s p k c ∧ p.OnCycle c) ∧ ∀ c, p.OnCycle c → ¬ LeadsOut s p c)) :
    Blames s p k := by
  rcases h with ⟨hk, hout⟩ | ⟨hfirst, hleads, hnone⟩
  · have hself : Leads s p k k := by
      cases s <;> exact .refl
    exact ⟨⟨k, hself, hk⟩, iff_of_true hk (Or.inl ⟨k, hk, hout⟩)⟩
  · refine ⟨hleads, fun hk => Or.inr ⟨k, hfirst, hk⟩, ?_⟩
    rintro (⟨c, hc, hout⟩ | ⟨m, hm, hcycle⟩)
    · exact absurd hout (hnone c hc)
    · exact hfirst.unique hm ▸ hcycle

omit [PlanNode α] in
theorem reflTransGen_successors {a b : Key} :
    Relation.ReflTransGen (fun a b => a ∈ p.successors b) a b ↔
      Leads .reverseDependencyOrder p a b := by
  simp only [mem_successors]
  exact Relation.reflTransGen_swap

theorem led_predecessors :
    Led p.predecessors (p.leaves.map PlanNode.key) k ↔ LeadsOut .dependencyOrder p k := by
  simp only [Led, LeadsOut, ends, Leads, mem_predecessors, List.mem_map, exists_exists_and_eq_and]

theorem led_successors :
    Led p.successors (p.roots.map PlanNode.key) k ↔ LeadsOut .reverseDependencyOrder p k := by
  simp only [Led, LeadsOut, ends, reflTransGen_successors, List.mem_map, exists_exists_and_eq_and]

theorem blames_of_dependencyKeys (hp : p.WellFormed) (h : p.dependencyKeys = .error (.cycle k)) :
    Blames .dependencyOrder p k := by
  have hcases := ordered_eq_error p.leaves_subset_keys
    (fun a ha hleaf => hp.feeds_of_notMem_leaves ha hleaf)
    (fun a b hab => (hp.mem_keys (mem_predecessors.mp hab)).1) (ordered_of_mapError_eq_error h)
  simp only [led_predecessors, mem_predecessors] at hcases
  exact .of_ordered hcases

theorem blames_of_reverseDependencyKeys (hp : p.WellFormed)
    (h : p.reverseDependencyKeys = .error (.cycle k)) : Blames .reverseDependencyOrder p k := by
  have hcases := ordered_eq_error p.roots_subset_keys
    (fun a ha hroot => hp.fed_of_notMem_roots ha hroot)
    (fun a b hab => (hp.mem_keys (mem_successors.mp hab)).2) (ordered_of_mapError_eq_error h)
  simp only [led_successors, transGen_successors, reflTransGen_successors] at hcases
  exact .of_ordered hcases

theorem blames_of_depthFirstKeys (hp : p.WellFormed) (h : p.depthFirstKeys = .error (.cycle k)) :
    Blames .depthFirst p k := by
  simp only [depthFirstKeys] at h
  split at h
  next e he =>
    cases h
    have hblames := blames_of_dependencyKeys hp he
    exact ⟨hblames.leads, hblames.onCycle_iff⟩
  · cases h

theorem blames_of_keys (hp : p.WellFormed) {s : Strategy}
    (h : Walker.keys ⟨s, p⟩ = .error (.cycle k)) : Blames s p k := by
  cases s with
  | depthFirst => exact blames_of_depthFirstKeys hp h
  | dependencyOrder => exact blames_of_dependencyKeys hp h
  | reverseDependencyOrder => exact blames_of_reverseDependencyKeys hp h

theorem dependencyKeys_of_validate_eq_error (h : p.validate = .error (.cycle k)) :
    p.dependencyKeys = .error (.cycle k) := by
  obtain ⟨_, _, -, he⟩ | ⟨-, horder⟩ := validate_eq_error h
  · cases he
  · exact horder

/-- A walker, or the validation, that refuses a plan for a cycle names an operator that leads to one.
Whether it is on one itself is decided by whether the search can meet a cycle at all. -/
theorem refusal_blames (hp : p.Built) :
    (∀ s e, Walker.sequence ⟨s, p⟩ = .error e → ∃ k, e = .cycle k ∧ Blames s p k) ∧
      ∀ k, p.validate = .error (.cycle k) → Blames .dependencyOrder p k := by
  have hwf := hp.wellFormed
  constructor
  · intro s e h
    obtain ⟨k, rfl⟩ := sequence_eq_error h
    exact ⟨k, rfl, blames_of_keys hwf (keys_of_sequence_eq_error h)⟩
  · intro k h
    exact blames_of_dependencyKeys hwf (dependencyKeys_of_validate_eq_error h)

omit [PlanNode α] in
/-- What feeds only operators of a set, and is not in it, is on no cycle if the set is closed. -/
theorem not_onCycle_of_closed {l : List Key} (hfed : ∀ b, p.Feeds k b → b ∈ l)
    (hclosed : ∀ a ∈ l, ∀ b, p.Feeds a b → b ∈ l) (hk : k ∉ l) : ¬ p.OnCycle k := by
  have hreached : ∀ b, Relation.TransGen p.Feeds k b → b ∈ l := by
    intro b hkb
    induction hkb with
    | single hkb => exact hfed _ hkb
    | tail _ hbc ih => exact hclosed _ ih _ hbc
  exact fun hcycle => hk (hreached k hcycle)

/-- Two rings of two operators, with the operator `1` on the way from the one to the other. -/
def bridge : PhysicalPlan :=
  let apart : PhysicalPlan := .ofOperators
    [⟨⟨"p", 1⟩, .limit 5, [⟨"p", 3⟩]⟩, ⟨⟨"p", 2⟩, .limit 5, [⟨"p", 3⟩]⟩,
      ⟨⟨"p", 3⟩, .split, [⟨"p", 2⟩]⟩, ⟨⟨"p", 4⟩, .union, [⟨"p", 1⟩, ⟨"p", 5⟩]⟩,
      ⟨⟨"p", 5⟩, .limit 5, [⟨"p", 4⟩]⟩]
  (((apart.connectAll ⟨"p", 1⟩ [⟨"p", 3⟩]).1.connectAll ⟨"p", 2⟩ [⟨"p", 3⟩]).1.connectAll
    ⟨"p", 4⟩ [⟨"p", 5⟩]).1

theorem built_bridge : bridge.Built :=
  (built_ofOperators _).connectAll.connectAll.connectAll

/-- All refusals of the plan name the operator between the rings, which is on neither. -/
theorem bridge_not_onCycle : bridge.Built ∧
    (∀ s, Walker.sequence ⟨s, bridge⟩ = .error (.cycle ⟨"p", 1⟩)) ∧
    bridge.validate = .error (.cycle ⟨"p", 1⟩) ∧ ¬ bridge.OnCycle ⟨"p", 1⟩ := by
  have hedges : bridge.edges = [(⟨"p", 2⟩, ⟨"p", 3⟩), (⟨"p", 1⟩, ⟨"p", 4⟩), (⟨"p", 4⟩, ⟨"p", 5⟩),
      (⟨"p", 3⟩, ⟨"p", 1⟩), (⟨"p", 3⟩, ⟨"p", 2⟩), (⟨"p", 5⟩, ⟨"p", 4⟩)] := by cbv
  refine ⟨built_bridge, ?_, by cbv, ?_⟩
  · intro s
    cases s with
    | depthFirst => cbv
    | dependencyOrder => cbv
    | reverseDependencyOrder => cbv
  · refine not_onCycle_of_closed (l := [⟨"p", 4⟩, ⟨"p", 5⟩]) ?_ ?_ (by decide)
    · intro b hb
      have hb : b = ⟨"p", 4⟩ := by simpa [Feeds, hedges] using hb
      exact List.mem_pair.mpr (Or.inl hb)
    · intro a ha b hb
      rcases List.mem_pair.mp ha with rfl | rfl
      · have hb : b = ⟨"p", 5⟩ := by simpa [Feeds, hedges] using hb
        exact List.mem_pair.mpr (Or.inr hb)
      · have hb : b = ⟨"p", 4⟩ := by simpa [Feeds, hedges] using hb
        exact List.mem_pair.mpr (Or.inl hb)

theorem bridge_blames : bridge.Built ∧ Blames .dependencyOrder bridge ⟨"p", 1⟩ :=
  ⟨built_bridge, (refusal_blames built_bridge).2 _ (by cbv)⟩

end Plan
end Dataflow
