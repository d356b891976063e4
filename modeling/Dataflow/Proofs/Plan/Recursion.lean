import Dataflow.Proofs.Plan.Orders
/-!
# The orders as recursions

The searches of a plan keep stacks.  What they mean is said more easily by recursion: a key is emitted
before what follows it (`visitFirst`), or after what comes before it (`visitLast`), unless it was met
already.  In a plan without cycles the recursions end by themselves, whatever was met, since a key
is never met on the way down from itself.

The walk from the roots marks a key when it is taken from the stack, not when it is put there, so a key
may lie on the stack several times.  Nothing depends on it: what is on the stack is walked from the top
on, each part as if it were alone (`preorder_append`), so a stack that holds what follows a key does for
it what the recursion does.

**Proved here.**

    nothing is met on the way down from itself     (`wellFounded_predecessors`, `wellFounded_successors`)
    the walk from the roots as a recursion         (`preorder_eq_foldl_visitFirst`)
    the search for an order as a recursion         (`ordered_eq_foldl_visitLast`)
    what the walk from the roots lists             (`depthFirst_eq_recursion`)
-/
namespace Dataflow
namespace Plan

/-! ## The recursions -/

section Recursion
variable {next : Key → List Key}

/-- Emits a key and then all that follows it, unless the key was emitted before. -/
def visitFirst (hwf : WellFounded fun d k => d ∈ next k) (emitted : List Key) (k : Key) : List Key :=
  if k ∈ emitted then emitted
  else (next k).attach.foldl (fun emitted d => visitFirst hwf emitted d.val) (emitted ++ [k])
  termination_by hwf.wrap k
  decreasing_by exact d.property

/-- Settles all that comes before a key and then the key, unless it was settled before. -/
def visitLast (hwf : WellFounded fun d k => d ∈ next k) (settled : List Key) (k : Key) : List Key :=
  if k ∈ settled then settled
  else (next k).attach.foldl (fun settled d => visitLast hwf settled d.val) settled ++ [k]
  termination_by hwf.wrap k
  decreasing_by exact d.property

variable (hwf : WellFounded fun d k => d ∈ next k) {emitted settled : List Key} {k : Key}

theorem visitFirst_of_mem (hk : k ∈ emitted) : visitFirst hwf emitted k = emitted := by
  rw [visitFirst, if_pos hk]

theorem visitFirst_of_notMem (hk : k ∉ emitted) :
    visitFirst hwf emitted k = (next k).foldl (visitFirst hwf) (emitted ++ [k]) := by
  rw [visitFirst, if_neg hk]
  exact List.foldl_attach

theorem visitLast_of_mem (hk : k ∈ settled) : visitLast hwf settled k = settled := by
  rw [visitLast, if_pos hk]

theorem visitLast_of_notMem (hk : k ∉ settled) :
    visitLast hwf settled k = (next k).foldl (visitLast hwf) settled ++ [k] := by
  rw [visitLast, if_neg hk]
  exact congrArg (· ++ [k]) List.foldl_attach

end Recursion

/-! ## The walk from the roots -/

section Walk
variable {keys starts stack rest emitted : List Key} {after : Key → List Key} {k : Key}

/-- The upper part of a stack is walked as if it were alone. -/
theorem preorder_append : preorder keys after (stack ++ rest) emitted =
    preorder keys after rest (preorder keys after stack emitted) := by
  fun_induction preorder keys after stack emitted with
  | case1 => rfl
  | case2 emitted k stack hskip ih => rw [List.cons_append, preorder, dif_pos hskip, ih]
  | case3 emitted k stack hskip ih =>
      rw [List.cons_append, preorder, dif_neg hskip, ← List.append_assoc, ih]

/-- A stack of its own for each start does the same as one stack for all. -/
theorem preorder_eq_foldl : preorder keys after stack emitted =
    stack.foldl (fun emitted k => preorder keys after [k] emitted) emitted := by
  induction stack generalizing emitted with
  | nil => rw [preorder, List.foldl_nil]
  | cons k stack ih => rw [← List.singleton_append, preorder_append, ih, List.singleton_append,
      List.foldl_cons]

theorem preorder_singleton (hwf : WellFounded fun d k => d ∈ after k)
    (hafter : ∀ k, after k ⊆ keys) (hk : k ∈ keys) :
    preorder keys after [k] emitted = visitFirst hwf emitted k := by
  induction k using hwf.induction generalizing emitted with
  | _ k ih =>
      by_cases hemitted : k ∈ emitted
      · rw [preorder, dif_pos (Or.inl hemitted), preorder, visitFirst_of_mem hwf hemitted]
      · have hskip : ¬ (k ∈ emitted ∨ k ∉ keys) := by simp [hemitted, hk]
        rw [preorder, dif_neg hskip, List.append_nil, preorder_eq_foldl,
          visitFirst_of_notMem hwf hemitted]
        exact List.foldl_ext _ _ _ fun emitted d hd => ih d hd (hafter k hd)

/-- The walk with a stack is the recursion. -/
theorem preorder_eq_foldl_visitFirst (hwf : WellFounded fun d k => d ∈ after k)
    (hafter : ∀ k, after k ⊆ keys) (hstack : stack ⊆ keys) :
    preorder keys after stack emitted = stack.foldl (visitFirst hwf) emitted := by
  rw [preorder_eq_foldl]
  exact List.foldl_ext _ _ _ fun emitted k hk => preorder_singleton hwf hafter (hstack hk)

end Walk

/-! ## The search for an order -/

section Search
variable {keys starts settled l ds : List Key} {before : Key → List Key} {rest : List Frame}
  {k : Key}

/-- What is pending is settled in turn, and then the suspended key, if each pending key is settled like
this once it is suspended itself. -/
theorem settle_pending (hwf : WellFounded fun d k => d ∈ before k)
    (hbefore : ∀ k, before k ⊆ keys) (h : Descending before (⟨k, ds⟩ :: rest))
    (hds : ∀ d ∈ ds, ∀ {rest settled}, Descending before (⟨d, before d⟩ :: rest) → d ∉ settled →
      settle keys before (⟨d, before d⟩ :: rest) settled =
        settle keys before rest (visitLast hwf settled d)) :
    settle keys before (⟨k, ds⟩ :: rest) settled =
      settle keys before rest (ds.foldl (visitLast hwf) settled ++ [k]) := by
  induction ds generalizing settled with
  | nil => rw [settle, List.foldl_nil]
  | cons d ds ih =>
      have hrest : ∀ {settled}, settle keys before (⟨k, ds⟩ :: rest) settled =
          settle keys before rest (ds.foldl (visitLast hwf) settled ++ [k]) :=
        ih h.skip fun d hd => hds d (List.mem_cons_of_mem _ hd)
      by_cases hd : d ∈ settled
      · rw [settle, dif_pos (Or.inl hd), hrest, List.foldl_cons, visitLast_of_mem hwf hd]
      · have hskip : ¬ (d ∈ settled ∨ d ∉ keys) := by simp [hd, hbefore k h.neighbour]
        -- a key that is suspended already would lie on the way down from itself
        have hnew : suspended (⟨k, ds⟩ :: rest) d ≠ true :=
          fun hsus => hwf.transGen.irrefl.irrefl d (h.cycle hsus)
        rw [settle, dif_neg hskip, dif_neg hnew, hds d List.mem_cons_self h.push hd, hrest,
          List.foldl_cons]

theorem settle_suspended (hwf : WellFounded fun d k => d ∈ before k)
    (hbefore : ∀ k, before k ⊆ keys) (h : Descending before (⟨k, before k⟩ :: rest))
    (hk : k ∉ settled) : settle keys before (⟨k, before k⟩ :: rest) settled =
      settle keys before rest (visitLast hwf settled k) := by
  induction k using hwf.induction generalizing rest settled with
  | _ k ih => rw [settle_pending hwf hbefore h fun d hd => ih d hd, visitLast_of_notMem hwf hk]

theorem settleFrom_eq_foldl_visitLast (hwf : WellFounded fun d k => d ∈ before k)
    (hbefore : ∀ k, before k ⊆ keys) :
    settleFrom keys before starts settled = .ok (starts.foldl (visitLast hwf) settled) := by
  induction starts generalizing settled with
  | nil => rfl
  | cons s starts ih =>
      rw [settleFrom, List.foldl_cons]
      by_cases hs : s ∈ settled
      · rw [if_pos hs, ih, visitLast_of_mem hwf hs]
      · rw [if_neg hs, settle_suspended hwf hbefore (.start s) hs, settle]
        exact ih

theorem wellFounded_of_ordered (hstarts : starts ⊆ keys)
    (hkeys : ∀ a b, a ∈ before b → a ∈ keys ∧ b ∈ keys) (h : ordered keys before starts = .ok l) :
    WellFounded fun d k => d ∈ before k := by
  have hlt : ∀ {d k}, d ∈ before k → l.idxOf d < l.idxOf k := idxOf_lt_of_ordered hstarts hkeys h
  exact Subrelation.wf hlt (measure l.idxOf).wf

/-- An order that is found is what the recursion settles. -/
theorem ordered_eq_foldl_visitLast (hwf : WellFounded fun d k => d ∈ before k)
    (hbefore : ∀ k, before k ⊆ keys) (h : ordered keys before starts = .ok l) :
    l = starts.foldl (visitLast hwf) [] := by
  rw [ordered, settleFrom_eq_foldl_visitLast hwf hbefore] at h
  dsimp only at h
  split at h
  · exact (Except.ok.inj h).symm
  · cases h

end Search

/-! ## What the walk from the roots lists -/

/-- A walk under way, looked at backwards: what is emitted or on the stack is a start, or it follows a
key that was emitted before. -/
structure Prompted (after : Key → List Key) (starts stack emitted : List Key) : Prop where
  listed : ∀ l₁ k l₂, emitted = l₁ ++ k :: l₂ → k ∈ starts ∨ ∃ a ∈ l₁, k ∈ after a
  waiting : ∀ k ∈ stack, k ∈ starts ∨ ∃ a ∈ emitted, k ∈ after a

section Prompts
variable {keys starts stack rest emitted : List Key} {after : Key → List Key} {k : Key}

theorem Prompted.start : Prompted after starts starts [] :=
  ⟨fun _ _ _ h => by simp at h, fun _ hk => Or.inl hk⟩

theorem Prompted.skip (h : Prompted after starts (k :: rest) emitted) :
    Prompted after starts rest emitted :=
  ⟨h.listed, fun a ha => h.waiting a (List.mem_cons_of_mem _ ha)⟩

theorem Prompted.emit (h : Prompted after starts (k :: rest) emitted) :
    Prompted after starts (after k ++ rest) (emitted ++ [k]) := by
  refine ⟨forall_split_concat.mpr ⟨h.listed, h.waiting k List.mem_cons_self⟩, ?_⟩
  intro d hd
  rcases List.mem_append.mp hd with hd | hd
  · exact Or.inr ⟨k, by simp, hd⟩
  · refine (h.waiting d (List.mem_cons_of_mem _ hd)).imp_right ?_
    rintro ⟨a, ha, hda⟩
    exact ⟨a, List.mem_append_left _ ha, hda⟩

theorem Prompted.preorder (h : Prompted after starts stack emitted) :
    Prompted after starts [] (Plan.preorder keys after stack emitted) := by
  fun_induction Plan.preorder keys after stack emitted with
  | case1 => exact h
  | case2 emitted k rest hskip ih => exact ih h.skip
  | case3 emitted k rest hskip ih => exact ih h.emit

/-- What is emitted and is no start stands behind a key that it follows. -/
theorem Prompted.exists_sublist (h : Prompted after starts stack emitted) (hk : k ∈ emitted)
    (hstart : k ∉ starts) : ∃ a, k ∈ after a ∧ [a, k].Sublist emitted := by
  obtain ⟨l₁, l₂, rfl⟩ := List.append_of_mem hk
  obtain ⟨a, ha, hka⟩ := (h.listed l₁ k l₂ rfl).resolve_left hstart
  exact ⟨a, hka,
    (List.singleton_sublist.mpr ha).append (List.singleton_sublist.mpr List.mem_cons_self)⟩

end Prompts

variable {α : Type} [PlanNode α] {p : Plan α}

/-- Without cycles, nothing is met on the way up from itself. -/
theorem WellFormed.wellFounded_predecessors (hp : p.WellFormed) (hacyclic : p.Acyclic) :
    WellFounded fun d k => d ∈ p.predecessors k := by
  obtain ⟨l, hl⟩ := (exists_dependencyKeys_iff hp).mpr hacyclic
  exact wellFounded_of_ordered p.leaves_subset_keys
    (fun _ _ hab => hp.mem_keys (mem_predecessors.mp hab)) (ordered_of_mapError_eq_ok hl)

/-- Without cycles, nothing is met on the way down from itself. -/
theorem WellFormed.wellFounded_successors (hp : p.WellFormed) (hacyclic : p.Acyclic) :
    WellFounded fun d k => d ∈ p.successors k := by
  obtain ⟨l, hl⟩ := (exists_reverseDependencyKeys_iff hp).mpr hacyclic
  exact wellFounded_of_ordered p.roots_subset_keys
    (fun _ _ hab => (hp.mem_keys (mem_successors.mp hab)).symm) (ordered_of_mapError_eq_ok hl)

theorem exists_sequence_of_keys (hp : p.WellFormed) {s : Strategy} {ks : List Key}
    (h : Walker.keys ⟨s, p⟩ = .ok ks) : ∃ l, Walker.sequence ⟨s, p⟩ = .ok l ∧
      (l.map fun op => PlanNode.key op.val) = ks := by
  have hsequence : Walker.sequence ⟨s, p⟩ = .ok (p.resolve ks) := by
    rw [Walker.sequence, h]
    rfl
  have hkeys := (sequence_eq_ok hp hsequence).1
  exact ⟨_, hsequence, Except.ok.inj (hkeys.symm.trans h)⟩

/-- In a plan without cycles the walk from the roots lists what the recursion emits, and every
operator that is no root behind one that feeds it. -/
theorem depthFirst_eq_recursion (hp : p.Built) (hacyclic : p.Acyclic) :
    ∃ l, Walker.sequence ⟨.depthFirst, p⟩ = .ok l ∧
      (l.map fun op => PlanNode.key op.val) = (p.roots.map PlanNode.key).foldl
        (visitFirst (hp.wellFormed.wellFounded_successors hacyclic)) [] ∧
      ∀ op ∈ l, op.val ∉ p.roots → ∃ producer, p.Feeds producer (PlanNode.key op.val) ∧
        [producer, PlanNode.key op.val].Sublist (l.map fun op => PlanNode.key op.val) := by
  have hwf := hp.wellFormed
  obtain ⟨ks, hks⟩ := (exists_keys_iff hwf .depthFirst).mpr hacyclic
  have hwalk : ks = preorder p.keys p.successors (p.roots.map PlanNode.key) [] := by
    simp only [Walker.keys, depthFirstKeys] at hks
    split at hks
    · cases hks
    · exact (Except.ok.inj hks).symm
  obtain ⟨l, hl, hkeys⟩ := exists_sequence_of_keys hwf hks
  refine ⟨l, hl, ?_, ?_⟩
  · rw [hkeys, hwalk]
    exact preorder_eq_foldl_visitFirst _ hwf.successors_subset p.roots_subset_keys
  · intro op hop hroot
    have hprompted : Prompted p.successors (p.roots.map PlanNode.key) [] ks :=
      hwalk ▸ Prompted.start.preorder
    have hmem : PlanNode.key op.val ∈ ks := hkeys ▸ List.mem_map_of_mem hop
    have hnoroot : PlanNode.key op.val ∉ p.roots.map PlanNode.key := by
      intro hk
      obtain ⟨r, hr, hkey⟩ := List.mem_map.mp hk
      have hin : r ∈ p.operators := List.mem_of_mem_filter hr
      exact hroot (List.inj_on_of_nodup_map hwf.keys_nodup hin op.property hkey ▸ hr)
    obtain ⟨a, ha, hsublist⟩ := hprompted.exists_sublist hmem hnoroot
    exact ⟨a, mem_successors.mp ha, hkeys.symm ▸ hsublist⟩

/-- The first operator feeds the second and the third, and the second feeds the third as well, and a
fourth. -/
def shortcut : PhysicalPlan := .ofOperators
  [⟨⟨"p", 1⟩, .load "in", []⟩, ⟨⟨"p", 2⟩, .limit 5, [⟨"p", 1⟩]⟩,
    ⟨⟨"p", 3⟩, .union, [⟨"p", 1⟩, ⟨"p", 2⟩]⟩, ⟨⟨"p", 4⟩, .limit 7, [⟨"p", 2⟩]⟩]

theorem built_shortcut : shortcut.Built := built_ofOperators _

theorem shortcut_walk : Walker.keys ⟨.depthFirst, shortcut⟩ =
    .ok [⟨"p", 1⟩, ⟨"p", 2⟩, ⟨"p", 3⟩, ⟨"p", 4⟩] := by
  cbv

theorem acyclic_shortcut : shortcut.Acyclic :=
  (exists_keys_iff built_shortcut.wellFormed .depthFirst).mp ⟨_, shortcut_walk⟩

/-- The third operator lies on the stack twice and is emitted below the second. -/
theorem shortcut_recursion : ∃ (hp : shortcut.Built) (hacyclic : shortcut.Acyclic),
    (shortcut.roots.map PlanNode.key).foldl
      (visitFirst (hp.wellFormed.wellFounded_successors hacyclic)) [] =
        [⟨"p", 1⟩, ⟨"p", 2⟩, ⟨"p", 3⟩, ⟨"p", 4⟩] := by
  refine ⟨built_shortcut, acyclic_shortcut, ?_⟩
  obtain ⟨l, hl, hkeys, -⟩ := depthFirst_eq_recursion built_shortcut acyclic_shortcut
  rw [← hkeys]
  exact Except.ok.inj ((sequence_eq_ok built_shortcut.wellFormed hl).1.symm.trans shortcut_walk)

end Plan
end Dataflow
