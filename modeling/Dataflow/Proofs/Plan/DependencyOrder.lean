import Dataflow.Plan.Order
import Dataflow.Proofs.Plan.Building
/-!
# What an order lists, and in which order

The search of `Plan.settle` keeps a stack of suspended keys above the list of settled ones.  What it
keeps true is `Settling`: nothing is both settled and suspended, the settled keys come after their
neighbours, and a neighbour of a suspended key is still pending, already settled, or the suspended
key just above it.  When the stack is empty only the statement about the settled keys is left.

**Proved here.**

    an order lists every key once, each after its neighbours        (`ordered_eq_ok`)
    a dependency order lists every operator once, each after the
    operators that feed it                                           (`dependencyKeys_eq_ok`)
-/
namespace Dataflow.Plan

/-- Each listed key comes after those of its neighbours that belong to `keys`. -/
def Follows (keys : List Key) (before : Key → List Key) (l : List Key) : Prop :=
  ∀ l₁ k l₂, l = l₁ ++ k :: l₂ → ∀ d ∈ before k, d ∈ keys → d ∈ l₁

/-- The suspended keys, innermost first; `above` is the key suspended last before this part of the
stack. -/
def Waits (keys : List Key) (before : Key → List Key) (settled : List Key) :
    Option Key → List Frame → Prop
  | _, [] => True
  | above, f :: rest =>
      (∀ d ∈ before f.key, d ∈ keys → d ∈ f.pending ∨ d ∈ settled ∨ above = some d) ∧
        Waits keys before settled (some f.key) rest

/-- The search, as it stands between two steps. -/
structure Settling (keys : List Key) (before : Key → List Key) (stack : List Frame)
    (settled : List Key) : Prop where
  nodup : (settled ++ stack.map Frame.key).Nodup
  subset : settled ++ stack.map Frame.key ⊆ keys
  follows : Follows keys before settled
  waits : Waits keys before settled none stack

section Search
variable {keys : List Key} {before : Key → List Key}

theorem Follows.nil : Follows keys before [] := by
  intro l₁ k l₂ h
  simp at h

/-- A list with one more key is split at that key, or where it was split before. -/
theorem forall_split_concat {P : List Key → Key → Prop} {l : List Key} {k : Key} :
    (∀ l₁ x l₂, l ++ [k] = l₁ ++ x :: l₂ → P l₁ x) ↔
      (∀ l₁ x l₂, l = l₁ ++ x :: l₂ → P l₁ x) ∧ P l k := by
  constructor
  · intro h
    refine ⟨fun l₁ x l₂ hl => h l₁ x (l₂ ++ [k]) (by simp [hl]), h l k [] rfl⟩
  · rintro ⟨hl, hk⟩ l₁ x l₂ h
    rcases List.eq_nil_or_concat l₂ with rfl | ⟨l₂, y, rfl⟩
    · obtain ⟨rfl, hx⟩ := List.append_inj' h rfl
      obtain rfl : k = x := by simpa using hx
      exact hk
    · have h' : l ++ [k] = (l₁ ++ x :: l₂) ++ [y] := by simpa using h
      obtain ⟨rfl, -⟩ := List.append_inj' h' rfl
      exact hl l₁ x l₂ rfl

theorem Follows.concat {l : List Key} {k : Key} (hl : Follows keys before l)
    (hk : ∀ d ∈ before k, d ∈ keys → d ∈ l) : Follows keys before (l ++ [k]) :=
  forall_split_concat.mpr ⟨hl, hk⟩

theorem Waits.mono {settled settled' : List Key} {stack : List Frame} {above : Option Key}
    (hs : settled ⊆ settled') (h : Waits keys before settled above stack) :
    Waits keys before settled' above stack := by
  induction stack generalizing above with
  | nil => trivial
  | cons f rest ih =>
      obtain ⟨hf, hrest⟩ := h
      refine ⟨?_, ih hrest⟩
      intro d hd hdk
      rcases hf d hd hdk with hp | hd' | ha
      · exact Or.inl hp
      · exact Or.inr (Or.inl (hs hd'))
      · exact Or.inr (Or.inr ha)

theorem Waits.pop {settled : List Key} {k : Key} {stack : List Frame} (hk : k ∈ settled)
    (h : Waits keys before settled (some k) stack) : Waits keys before settled none stack := by
  cases stack with
  | nil => trivial
  | cons f rest =>
      obtain ⟨hf, hrest⟩ := h
      refine ⟨?_, hrest⟩
      intro d hd hdk
      rcases hf d hd hdk with hp | hs | ha
      · exact Or.inl hp
      · exact Or.inr (Or.inl hs)
      · obtain rfl := Option.some.inj ha
        exact Or.inr (Or.inl hk)

theorem Settling.pop {k : Key} {rest : List Frame} {settled : List Key}
    (h : Settling keys before (⟨k, []⟩ :: rest) settled) :
    Settling keys before rest (settled ++ [k]) := by
  obtain ⟨hnodup, hsub, hfollows, hk, hrest⟩ := h
  refine ⟨by simpa using hnodup, by simpa using hsub, hfollows.concat ?_, ?_⟩
  · intro d hd hdk
    rcases hk d hd hdk with hp | hs | ha
    · exact absurd hp List.not_mem_nil
    · exact hs
    · cases ha
  · exact (hrest.mono (List.subset_append_left _ _)).pop (List.mem_append_right _ (by simp))

theorem Settling.skip {k d : Key} {ds : List Key} {rest : List Frame} {settled : List Key}
    (h : Settling keys before (⟨k, d :: ds⟩ :: rest) settled) (hd : d ∈ settled ∨ d ∉ keys) :
    Settling keys before (⟨k, ds⟩ :: rest) settled := by
  obtain ⟨hnodup, hsub, hfollows, hk, hrest⟩ := h
  refine ⟨hnodup, hsub, hfollows, ?_, hrest⟩
  intro x hx hxk
  rcases hk x hx hxk with hp | hs | ha
  · rcases List.mem_cons.mp hp with rfl | hp
    · exact Or.inr (Or.inl (hd.resolve_right fun hn => hn hxk))
    · exact Or.inl hp
  · exact Or.inr (Or.inl hs)
  · cases ha

theorem Settling.push {k d : Key} {ds : List Key} {rest : List Frame} {settled : List Key}
    (h : Settling keys before (⟨k, d :: ds⟩ :: rest) settled) (hd : d ∈ keys)
    (hset : d ∉ settled) (hsus : suspended (⟨k, ds⟩ :: rest) d = false) :
    Settling keys before (⟨d, before d⟩ :: ⟨k, ds⟩ :: rest) settled := by
  obtain ⟨hnodup, hsub, hfollows, hk, hrest⟩ := h
  have hfree : d ∉ (⟨k, ds⟩ :: rest : List Frame).map Frame.key := by
    intro hm
    obtain ⟨f, hf, rfl⟩ := List.mem_map.mp hm
    have hany : suspended (⟨k, ds⟩ :: rest) f.key = true :=
      List.any_eq_true.mpr ⟨f, hf, by simp⟩
    rw [hany] at hsus
    cases hsus
  -- the key that was suspended last waits for nothing but the new one above it
  refine ⟨?_, ?_, hfollows, fun x hx _ => Or.inl hx, ?_, hrest⟩
  · have hmid : (d :: (settled ++ (⟨k, ds⟩ :: rest : List Frame).map Frame.key)).Nodup :=
      List.nodup_cons.mpr ⟨fun hm => (List.mem_append.mp hm).elim hset hfree, hnodup⟩
    exact (List.perm_middle.nodup_iff).mpr hmid
  · intro x hx
    rcases List.mem_append.mp hx with hx | hx
    · exact hsub (List.mem_append_left _ hx)
    · rcases List.mem_cons.mp hx with rfl | hx
      · exact hd
      · exact hsub (List.mem_append_right _ hx)
  · intro x hx hxk
    rcases hk x hx hxk with hp | hs | ha
    · rcases List.mem_cons.mp hp with rfl | hp
      · exact Or.inr (Or.inr rfl)
      · exact Or.inl hp
    · exact Or.inr (Or.inl hs)
    · cases ha

/-- The search keeps `Settling` up to the empty stack. -/
theorem Settling.settle {stack : List Frame} {settled l : List Key}
    (hs : Settling keys before stack settled)
    (h : Plan.settle keys before stack settled = .ok l) : Settling keys before [] l := by
  fun_induction Plan.settle keys before stack settled with
  | case1 => cases h; exact hs
  | case2 settled k rest ih => exact ih hs.pop h
  | case3 settled k d ds rest hskip ih => exact ih (hs.skip hskip) h
  | case4 => cases h
  | case5 settled k d ds rest hskip hsus ih =>
      simp only [not_or, Decidable.not_not] at hskip
      exact ih (hs.push hskip.2 hskip.1 (by simpa using hsus)) h

theorem Settling.start {s : Key} {settled : List Key} (h : Settling keys before [] settled)
    (hs : s ∈ keys) (hnew : s ∉ settled) : Settling keys before [⟨s, before s⟩] settled := by
  have hnd : settled.Nodup := by simpa using h.nodup
  refine ⟨?_, ?_, h.follows, fun d hd _ => Or.inl hd, trivial⟩
  · show (settled ++ [s]).Nodup
    rw [← List.concat_eq_append]
    exact hnd.concat hnew
  · intro x hx
    rcases List.mem_append.mp hx with hx | hx
    · exact h.subset (List.mem_append_left _ hx)
    · obtain rfl : x = s := by simpa using hx
      exact hs

theorem Settling.settleFrom {starts settled l : List Key} (hs : Settling keys before [] settled)
    (hk : starts ⊆ keys) (h : Plan.settleFrom keys before starts settled = .ok l) :
    Settling keys before [] l := by
  induction starts generalizing settled with
  | nil =>
      cases h
      exact hs
  | cons s starts ih =>
      have hrest : starts ⊆ keys := fun x hx => hk (List.mem_cons_of_mem _ hx)
      simp only [Plan.settleFrom] at h
      split at h
      · exact ih hs hrest h
      next hnew =>
        split at h
        next settled' hok =>
          have hstart := hs.start (hk List.mem_cons_self) hnew
          exact ih (hstart.settle hok) hrest h
        · cases h

/-- An order lists every key once, each after its neighbours. -/
theorem ordered_eq_ok {starts l : List Key} (hstarts : starts ⊆ keys)
    (h : ordered keys before starts = .ok l) :
    l.Nodup ∧ (∀ k, k ∈ l ↔ k ∈ keys) ∧ Follows keys before l := by
  simp only [ordered] at h
  split at h
  · cases h
  next settled hok =>
    split at h
    next hall =>
      cases h
      have hnil : Settling keys before [] [] :=
        ⟨List.nodup_nil, List.nil_subset _, Follows.nil, trivial⟩
      have hl := hnil.settleFrom hstarts hok
      refine ⟨by simpa using hl.nodup, fun k => ⟨?_, ?_⟩, hl.follows⟩
      · intro hk
        exact hl.subset (List.mem_append_left _ hk)
      · intro hk
        simpa using List.find?_eq_none.mp hall k hk
    · cases h

theorem Follows.sublist {l : List Key} {k d : Key} (hl : Follows keys before l) (hk : k ∈ l)
    (hdk : d ∈ before k) (hd : d ∈ keys) : [d, k].Sublist l := by
  obtain ⟨l₁, l₂, rfl⟩ := List.append_of_mem hk
  have hd₁ : d ∈ l₁ := hl l₁ k l₂ rfl d hdk hd
  exact (List.singleton_sublist.mpr hd₁).append (List.singleton_sublist.mpr List.mem_cons_self)

theorem ordered_of_mapError_eq_ok {starts l : List Key}
    (h : (ordered keys before starts).mapError PlanError.cycle = .ok l) :
    ordered keys before starts = .ok l := by
  cases ho : ordered keys before starts with
  | error k =>
      rw [ho] at h
      cases h
  | ok order =>
      rw [ho] at h
      cases h
      rfl

theorem ordered_of_mapError_eq_error {starts : List Key} {k : Key}
    (h : (ordered keys before starts).mapError PlanError.cycle = .error (.cycle k)) :
    ordered keys before starts = .error k := by
  cases ho : ordered keys before starts with
  | error a =>
      rw [ho] at h
      cases h
      rfl
  | ok order =>
      rw [ho] at h
      cases h

end Search

variable {α : Type} [PlanNode α]

/-- Every operator is listed once, after all that feed it. -/
structure IsDependencyOrder (p : Plan α) (l : List Key) : Prop where
  nodup : l.Nodup
  mem_iff : ∀ k, k ∈ l ↔ k ∈ p.keys
  producers_first : ∀ l₁ k l₂, l = l₁ ++ k :: l₂ → ∀ d, p.Feeds d k → d ∈ l₁

theorem leaves_subset_keys (p : Plan α) : p.leaves.map PlanNode.key ⊆ p.keys := by
  intro k hk
  obtain ⟨op, hop, rfl⟩ := List.mem_map.mp hk
  exact List.mem_map_of_mem (List.mem_of_mem_filter hop)

theorem dependencyKeys_eq_ok {p : Plan α} (hp : p.WellFormed) {l : List Key}
    (h : p.dependencyKeys = .ok l) : p.IsDependencyOrder l := by
  obtain ⟨hnodup, hmem, hfollows⟩ :=
    ordered_eq_ok p.leaves_subset_keys (ordered_of_mapError_eq_ok h)
  refine ⟨hnodup, hmem, ?_⟩
  intro l₁ k l₂ hl d hd
  exact hfollows l₁ k l₂ hl d (mem_predecessors.mpr hd) (hp.mem_keys hd).1

/-! ## The operators of an order -/

theorem map_key_resolve {p : Plan α} (hp : p.WellFormed) :
    ∀ {ks : List Key}, ks ⊆ p.keys →
      ((p.resolve ks).map Subtype.val).map PlanNode.key = ks
  | [], _ => rfl
  | k :: ks, hks => by
      obtain ⟨op, hop, rfl⟩ := mem_keys_iff.mp (hks List.mem_cons_self)
      have hrest := map_key_resolve hp fun x hx => hks (List.mem_cons_of_mem _ hx)
      have hfind : ∃ o, p.operators.attach.find?
          (fun o => decide (PlanNode.key o.val = PlanNode.key op)) = some o := by
        rw [← Option.isSome_iff_exists, List.find?_isSome]
        exact ⟨⟨op, hop⟩, List.mem_attach _ _, by simp⟩
      obtain ⟨o, ho⟩ := hfind
      have hkey : PlanNode.key o.val = PlanNode.key op := by simpa using List.find?_some ho
      have hcons : p.resolve (PlanNode.key op :: ks) = o :: p.resolve ks :=
        List.filterMap_cons_some ho
      rw [hcons, List.map_cons, List.map_cons, hrest, hkey]

theorem mem_resolve {p : Plan α} (hp : p.WellFormed) {ks : List Key}
    (hks : ∀ k, k ∈ ks ↔ k ∈ p.keys) {op : α} :
    op ∈ (p.resolve ks).map Subtype.val ↔ op ∈ p.operators := by
  have hmem : ∀ {o}, o ∈ (p.resolve ks).map Subtype.val → o ∈ p.operators := by
    intro o ho
    obtain ⟨o, -, rfl⟩ := List.mem_map.mp ho
    exact o.property
  refine ⟨hmem, fun hop => ?_⟩
  have hk : PlanNode.key op ∈ ks := (hks _).mpr (List.mem_map_of_mem hop)
  rw [← map_key_resolve hp fun k hk => (hks k).mp hk] at hk
  obtain ⟨o, ho, hok⟩ := List.mem_map.mp hk
  exact List.inj_on_of_nodup_map hp.keys_nodup (hmem ho) hop hok ▸ ho

/-! ## Declared inputs -/

theorem unresolvedInput?_eq_none {p : Plan α} :
    p.unresolvedInput? = none ↔
      ∀ op ∈ p.operators, ∀ inputs, PlanNode.declaredInputs op = some inputs →
        ∀ i ∈ inputs, p.Feeds i (PlanNode.key op) := by
  simp only [unresolvedInput?]
  rw [List.findSome?_eq_none_iff]
  refine forall₂_congr ?_
  intro op _
  cases PlanNode.declaredInputs op with
  | none => simp
  | some inputs => simp [mem_predecessors]

theorem validate_eq_ok {p : Plan α} :
    p.validate = .ok () ↔ p.unresolvedInput? = none ∧ ∃ l, p.dependencyKeys = .ok l := by
  simp only [validate]
  cases p.unresolvedInput? with
  | some declared => simp
  | none =>
      cases p.dependencyKeys with
      | error e => simp [Except.map]
      | ok l => simp [Except.map]

theorem validate_eq_error {p : Plan α} {e : PlanError} (h : p.validate = .error e) :
    (∃ k i, p.unresolvedInput? = some (k, i) ∧ e = .unresolvedInput k i) ∨
      p.unresolvedInput? = none ∧ p.dependencyKeys = .error e := by
  simp only [validate] at h
  cases hinput : p.unresolvedInput? with
  | some declared =>
      rw [hinput] at h
      cases h
      exact Or.inl ⟨_, _, rfl, rfl⟩
  | none =>
      rw [hinput] at h
      cases horder : p.dependencyKeys with
      | error e' =>
          rw [horder] at h
          cases h
          exact Or.inr ⟨rfl, rfl⟩
      | ok l =>
          rw [horder] at h
          cases h

end Dataflow.Plan
