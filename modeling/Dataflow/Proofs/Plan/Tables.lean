import Mathlib.Logic.Function.Basic
import Dataflow.Physical.Operator
import Dataflow.Proofs.Plan.Building
/-!
# Plans in tables

A plan has one list of edges and reads everything else off it.  Where look-ups have to be quick, the
same plan is kept in tables: the position of each key, its consumers and its producers.  Tables say
some things more than once, and each call changes several of them, so they could come to contradict
each other, above all when a call gives up halfway.  They do not.  At all times they are the tables of
the plan that the same calls have made (`Plan.tables`), whether the calls succeed or fail.

**Proved here.**

    one call on the tables of a plan                    (`Call.runTables_tables`)
    any calls on tables                                 (`runAll_runTables`)
    what a call leaves behind that is refused           (`Call.run_eq_error`)
    the tables after any calls                          (`runAll_consistent`)
-/
namespace Dataflow.Plan

/-- A plan in tables.  A key stands in a table of neighbours only if it has any. -/
structure Tables (α : Type) where
  operators : List α
  position : Key → Option Nat
  consumers : Key → Option (List Key)
  producers : Key → Option (List Key)

namespace Tables

variable {α : Type}

/-- The tables of the plan without operators. -/
def empty : Tables α := ⟨[], fun _ => none, fun _ => none, fun _ => none⟩

/-- The consumers that `k` feeds, in connection order. -/
def successors (t : Tables α) (k : Key) : List Key := (t.consumers k).getD []

/-- The producers that feed `k`, in connection order. -/
def predecessors (t : Tables α) (k : Key) : List Key := (t.producers k).getD []

variable [PlanNode α]

/-- The operators that nothing feeds, in insertion order. -/
def roots (t : Tables α) : List α :=
  t.operators.filter fun op => (t.predecessors (PlanNode.key op)).isEmpty

/-- The operators that feed nothing, in insertion order. -/
def leaves (t : Tables α) : List α :=
  t.operators.filter fun op => (t.successors (PlanNode.key op)).isEmpty

/-- Adds an operator under a key that has no position yet. -/
def add (t : Tables α) (op : α) : Tables α × Option PlanError :=
  if (t.position (PlanNode.key op)).isSome then
    (t, some (.duplicateOperator (PlanNode.key op)))
  else
    ({ t with
        operators := t.operators ++ [op]
        position := Function.update t.position (PlanNode.key op) (some t.operators.length) }, none)

/-- Feeds `source` into `target`.  The consumers of `source` get their place in the table before it is
known whether `target` is among them. -/
def connect (t : Tables α) (source target : Key) : Tables α × Option PlanError :=
  if (t.position source).isNone then (t, some (.unknownOperator source))
  else if (t.position target).isNone then (t, some (.unknownOperator target))
  else if source = target then (t, some (.selfLoop source))
  else
    let fed := t.successors source
    let placed := { t with consumers := Function.update t.consumers source (some fed) }
    if target ∈ fed then (placed, some (.duplicateEdge source target))
    else
      ({ placed with
          consumers := Function.update placed.consumers source (some (fed ++ [target]))
          producers := Function.update t.producers target
            (some (t.predecessors target ++ [source])) }, none)

/-- Feeds each key of a list into `target` until one is refused. -/
def connectAll (t : Tables α) (target : Key) : List Key → Tables α × Option PlanError
  | [] => (t, none)
  | source :: rest =>
    match t.connect source target with
    | (t', none) => t'.connectAll target rest
    | (t', some e) => (t', some e)

/-- Adds an operator and feeds it from `inputs` in order. -/
def addWithInputs (t : Tables α) (op : α) (inputs : List Key) : Tables α × Option PlanError :=
  match t.add op with
  | (t', none) => t'.connectAll (PlanNode.key op) inputs
  | (t', some e) => (t', some e)

end Tables

/-! ## Calls -/

/-- A call that changes a plan. -/
inductive Call (α : Type) where
  | add (op : α)
  | connect (source target : Key)
  | addWithInputs (op : α) (inputs : List Key)

namespace Call

variable {α σ : Type}

/-- Makes calls one after the other, whether they succeed or fail, and keeps what they answer. -/
def runAll (run : Call α → σ → σ × Option PlanError) : List (Call α) → σ → σ × List (Option PlanError)
  | [], s => (s, [])
  | call :: rest, s =>
    let (s, answer) := run call s
    let (s, answers) := runAll run rest s
    (s, answer :: answers)

/-- What a change of a plan leaves; where it is refused the plan stays as it is. -/
def outcome (p : Plan α) : Except PlanError (Plan α) → Plan α × Option PlanError
  | .ok q => (q, none)
  | .error e => (p, some e)

variable [PlanNode α]

def run : Call α → Plan α → Plan α × Option PlanError
  | .add op, p => outcome p (p.add op)
  | .connect source target, p => outcome p (p.connect source target)
  | .addWithInputs op inputs, p => p.addWithInputs op inputs

def runTables : Call α → Tables α → Tables α × Option PlanError
  | .add op, t => t.add op
  | .connect source target, t => t.connect source target
  | .addWithInputs op inputs, t => t.addWithInputs op inputs

end Call

/-! ## The tables of a plan -/

/-- The place of a list in a table. -/
def entry (l : List Key) : Option (List Key) := if l.isEmpty then none else some l

theorem getD_entry (l : List Key) : (entry l).getD [] = l := by
  cases l <;> rfl

theorem entry_of_mem {l : List Key} {k : Key} (h : k ∈ l) : entry l = some l := by
  cases l with
  | nil => cases h
  | cons a l => rfl

theorem entry_update (f : Key → List Key) (a b : Key) :
    (fun k => entry (Function.update f a (f a ++ [b]) k)) =
      Function.update (fun k => entry (f k)) a (some (f a ++ [b])) := by
  funext k
  by_cases hk : k = a
  · subst hk
    rw [Function.update_self, Function.update_self]
    exact entry_of_mem (k := b) (by simp)
  · rw [Function.update_of_ne hk, Function.update_of_ne hk]

section Tables
variable {α : Type} [PlanNode α]

def tables (p : Plan α) : Tables α where
  operators := p.operators
  position := p.keys.idxOf?
  consumers := fun k => entry (p.successors k)
  producers := fun k => entry (p.predecessors k)

@[simp] theorem successors_tables (p : Plan α) : p.tables.successors = p.successors := by
  funext k
  exact getD_entry _

@[simp] theorem predecessors_tables (p : Plan α) : p.tables.predecessors = p.predecessors := by
  funext k
  exact getD_entry _

theorem roots_tables (p : Plan α) : p.tables.roots = p.roots := by
  rw [Tables.roots, predecessors_tables]
  rfl

theorem leaves_tables (p : Plan α) : p.tables.leaves = p.leaves := by
  rw [Tables.leaves, successors_tables]
  rfl

theorem tables_empty : (empty : Plan α).tables = .empty := rfl

theorem isSome_position (p : Plan α) (k : Key) : (p.tables.position k).isSome = p.contains k := by
  rw [Bool.eq_iff_iff]
  simp [tables, contains]

theorem isNone_position (p : Plan α) (k : Key) : (p.tables.position k).isNone = !p.contains k := by
  rw [← isSome_position, Option.not_isSome]

theorem idxOf?_concat {l : List Key} {a : Key} (ha : a ∉ l) :
    (l ++ [a]).idxOf? = Function.update l.idxOf? a (some l.length) := by
  funext k
  rw [List.idxOf?, List.findIdx?_append]
  by_cases hk : k = a
  · subst hk
    have hnone : l.idxOf? k = none := List.idxOf?_eq_none_iff.mpr ha
    rw [Function.update_self, ← List.idxOf?, hnone]
    simp
  · have hne : a ≠ k := fun h => hk h.symm
    rw [Function.update_of_ne hk, ← List.idxOf?]
    simp [hne]

omit [PlanNode α] in
theorem successors_concat (p : Plan α) (a b : Key) :
    successors { p with edges := p.edges ++ [(a, b)] } =
      Function.update p.successors a (p.successors a ++ [b]) := by
  funext k
  by_cases hk : k = a
  · subst hk
    simp [successors]
  · have hne : a ≠ k := fun h => hk h.symm
    simp [successors, hk, hne]

omit [PlanNode α] in
theorem predecessors_concat (p : Plan α) (a b : Key) :
    predecessors { p with edges := p.edges ++ [(a, b)] } =
      Function.update p.predecessors b (p.predecessors b ++ [a]) := by
  funext k
  by_cases hk : k = b
  · subst hk
    simp [predecessors]
  · have hne : b ≠ k := fun h => hk h.symm
    simp [predecessors, hk, hne]

theorem tables_addOperator {p : Plan α} {op : α} (hnew : PlanNode.key op ∉ p.keys) :
    tables { p with operators := p.operators ++ [op] } =
      { p.tables with
        operators := p.operators ++ [op]
        position := Function.update p.tables.position (PlanNode.key op) (some p.operators.length) } := by
  have hkeys : keys { p with operators := p.operators ++ [op] } = p.keys ++ [PlanNode.key op] := by
    simp [keys]
  have hlength : p.keys.length = p.operators.length := by simp [keys]
  simp only [tables, hkeys, idxOf?_concat hnew, hlength]
  rfl

theorem tables_addEdge (p : Plan α) (a b : Key) :
    tables { p with edges := p.edges ++ [(a, b)] } =
      { p.tables with
        consumers := Function.update p.tables.consumers a (some (p.successors a ++ [b]))
        producers := Function.update p.tables.producers b (some (p.predecessors b ++ [a])) } := by
  simp only [tables, successors_concat, predecessors_concat, entry_update]
  rfl

/-! ## Calls on the tables of a plan -/

theorem add_tables (p : Plan α) (op : α) : p.tables.add op =
    ((Call.outcome p (p.add op)).1.tables, (Call.outcome p (p.add op)).2) := by
  rw [Tables.add, isSome_position]
  by_cases hop : p.contains (PlanNode.key op) = true
  · rw [if_pos hop, add, if_pos hop]
    rfl
  · have hnew : PlanNode.key op ∉ p.keys := by simpa [contains] using hop
    rw [if_neg hop, add_of_not_mem hnew, Call.outcome, tables_addOperator hnew]
    rfl

/-- Making the place of a list before looking through it makes no difference: where the call is then
refused, the list has a member, and with it its place. -/
theorem connect_tables (p : Plan α) (a b : Key) : p.tables.connect a b =
    ((Call.outcome p (p.connect a b)).1.tables, (Call.outcome p (p.connect a b)).2) := by
  simp only [Tables.connect, isNone_position, successors_tables, predecessors_tables]
  by_cases ha : p.contains a = true
  · by_cases hb : p.contains b = true
    · by_cases hab : a = b
      · simp [connect, hb, hab, Call.outcome]
      · by_cases hold : b ∈ p.successors a
        · have hedge : (a, b) ∈ p.edges := mem_successors.mp hold
          have hplace : Function.update p.tables.consumers a (some (p.successors a)) =
              p.tables.consumers := by
            rw [← entry_of_mem hold]
            exact Function.update_eq_self a p.tables.consumers
          simp [connect, ha, hb, hab, hold, hedge, hplace, Call.outcome]
        · have hmem : a ∈ p.keys ∧ b ∈ p.keys := by simpa [contains] using And.intro ha hb
          have hnew : ¬ p.Feeds a b := fun he => hold (mem_successors.mpr he)
          rw [connect_of hmem.1 hmem.2 hab hnew, Call.outcome, tables_addEdge]
          simp [ha, hb, hab, hold]
    · simp [connect, ha, hb, Call.outcome]
  · simp [connect, ha, Call.outcome]

theorem connectAll_tables (p : Plan α) (target : Key) (sources : List Key) :
    p.tables.connectAll target sources =
      ((p.connectAll target sources).1.tables, (p.connectAll target sources).2) := by
  induction sources generalizing p with
  | nil => rfl
  | cons a rest ih =>
      rw [Tables.connectAll, connect_tables, connectAll]
      cases p.connect a target with
      | error e => rfl
      | ok q => exact ih q

/-- A call on the tables of a plan makes the tables of the plan that the call makes, and has the same
answer. -/
theorem Call.runTables_tables (call : Call α) (p : Plan α) :
    call.runTables p.tables = ((call.run p).1.tables, (call.run p).2) := by
  cases call with
  | add op => exact add_tables p op
  | connect a b => exact connect_tables p a b
  | addWithInputs op inputs =>
      show p.tables.addWithInputs op inputs =
        ((p.addWithInputs op inputs).1.tables, (p.addWithInputs op inputs).2)
      rw [Tables.addWithInputs, add_tables, Plan.addWithInputs]
      cases p.add op with
      | error e => rfl
      | ok q => exact connectAll_tables q _ inputs

/-- Calls on tables keep them the tables of a plan. -/
theorem runAll_runTables (calls : List (Call α)) (p : Plan α) :
    Call.runAll Call.runTables calls p.tables =
      ((Call.runAll Call.run calls p).1.tables, (Call.runAll Call.run calls p).2) := by
  induction calls generalizing p with
  | nil => rfl
  | cons call rest ih =>
      rw [Call.runAll, call.runTables_tables]
      simp only [ih]
      rfl

theorem Built.run {p : Plan α} (hp : p.Built) (call : Call α) : (call.run p).1.Built := by
  cases call with
  | add op =>
      cases h : p.add op with
      | error e => simpa [Call.run, Call.outcome, h] using hp
      | ok q => simpa [Call.run, Call.outcome, h] using hp.add h
  | connect a b =>
      cases h : p.connect a b with
      | error e => simpa [Call.run, Call.outcome, h] using hp
      | ok q => simpa [Call.run, Call.outcome, h] using hp.connect h
  | addWithInputs op inputs => exact hp.addWithInputs op inputs

/-- Whatever calls have made can be built. -/
theorem Built.runAll {p : Plan α} (hp : p.Built) (calls : List (Call α)) :
    (Call.runAll Call.run calls p).1.Built := by
  induction calls generalizing p with
  | nil => exact hp
  | cons call rest ih => exact ih (hp.run call)

/-! ## Refused calls -/

/-- What a refused call leaves of a plan.  A call that adds an operator with inputs is as good as the
calls that add the operator and connect it to the inputs before the first one that is refused. -/
def Call.Refused (p q : Plan α) (e : PlanError) : Call α → Prop
  | .add _ => q = p
  | .connect _ _ => q = p
  | .addWithInputs op inputs =>
      (PlanNode.key op ∈ p.keys ∧ q = p) ∨
      (PlanNode.key op ∉ p.keys ∧ ∃ done source rest, inputs = done ++ source :: rest ∧
        Call.runAll Call.run (.add op :: done.map fun a => .connect a (PlanNode.key op)) p =
          (q, List.replicate (done.length + 1) none) ∧
        Call.run (.connect source (PlanNode.key op)) q = (q, some e))

theorem add_eq_error {p : Plan α} {op : α} {e : PlanError} (h : p.add op = .error e) :
    PlanNode.key op ∈ p.keys := by
  by_contra hnew
  rw [add_of_not_mem hnew] at h
  cases h

theorem connectAll_eq_error {p q : Plan α} {target : Key} {sources : List Key} {e : PlanError}
    (h : p.connectAll target sources = (q, some e)) :
    ∃ done source rest, sources = done ++ source :: rest ∧
      Call.runAll Call.run (done.map fun a => .connect a target) p =
        (q, List.replicate done.length none) ∧
      Call.run (.connect source target) q = (q, some e) := by
  induction sources generalizing p with
  | nil => cases h
  | cons a rest ih =>
      rw [connectAll] at h
      cases hc : p.connect a target with
      | error e' =>
          rw [hc] at h
          cases h
          exact ⟨[], a, rest, rfl, rfl, by rw [Call.run, hc, Call.outcome]⟩
      | ok p' =>
          rw [hc] at h
          obtain ⟨done, source, rest', rfl, hrun, hrefused⟩ := ih h
          refine ⟨a :: done, source, rest', rfl, ?_, hrefused⟩
          rw [List.map_cons, Call.runAll, Call.run, hc, Call.outcome]
          simp only [hrun]
          rfl

theorem Call.run_eq_error {call : Call α} {p q : Plan α} {e : PlanError}
    (h : call.run p = (q, some e)) : call.Refused p q e := by
  have houtcome : ∀ {r : Except PlanError (Plan α)}, outcome p r = (q, some e) → q = p := by
    intro r hr
    cases r with
    | ok q' => cases hr
    | error e' =>
        cases hr
        rfl
  cases call with
  | add op => exact houtcome h
  | connect a b => exact houtcome h
  | addWithInputs op inputs =>
      rw [Call.run, Plan.addWithInputs] at h
      cases hadd : p.add op with
      | error e' =>
          rw [hadd] at h
          cases h
          exact Or.inl ⟨add_eq_error hadd, rfl⟩
      | ok p' =>
          rw [hadd] at h
          obtain ⟨done, source, rest, hinputs, hrun, hrefused⟩ := connectAll_eq_error h
          refine Or.inr ⟨(add_eq_ok hadd).1, done, source, rest, hinputs, ?_, hrefused⟩
          rw [Call.runAll, Call.run, hadd, Call.outcome]
          simp only [hrun]
          rfl

/-! ## What tables say more than once -/

/-- What is said of a plan in different places, compared. -/
structure Consistent (p : Plan α) : Prop where
  nodup_keys : p.keys.Nodup
  /-- The keys of the plan have their positions, and nothing else has one. -/
  position_iff : ∀ k i, p.tables.position k = some i ↔ p.keys[i]? = some k
  get?_eq : ∀ k, p.get? k = (p.tables.position k).bind fun i => p.operators[i]?
  mem_iff : ∀ a b, b ∈ p.successors a ↔ a ∈ p.predecessors b
  nodup : ∀ k, (p.successors k).Nodup ∧ (p.predecessors k).Nodup
  irrefl : ∀ k, k ∉ p.successors k ∧ k ∉ p.predecessors k
  /-- Neighbours of each other are both keys of the plan. -/
  mem_keys : ∀ a b, b ∈ p.successors a → a ∈ p.keys ∧ b ∈ p.keys
  roots_eq : p.roots = p.tables.roots
  roots_sublist : p.roots.Sublist p.operators
  mem_roots : ∀ op, op ∈ p.roots ↔ op ∈ p.operators ∧ ∀ k, PlanNode.key op ∉ p.successors k
  leaves_eq : p.leaves = p.tables.leaves
  leaves_sublist : p.leaves.Sublist p.operators
  mem_leaves : ∀ op, op ∈ p.leaves ↔ op ∈ p.operators ∧ ∀ k, PlanNode.key op ∉ p.predecessors k

theorem idxOf?_eq_some_iff_of_nodup {l : List Key} (hl : l.Nodup) {k : Key} {i : Nat} :
    l.idxOf? k = some i ↔ l[i]? = some k := by
  rw [List.idxOf?_eq_some_iff, List.getElem?_eq_some_iff]
  refine ⟨fun ⟨hi, hk, _⟩ => ⟨hi, hk⟩, fun ⟨hi, hk⟩ => ⟨hi, hk, ?_⟩⟩
  intro j hj hjk
  exact Nat.ne_of_lt hj (hl.getElem_inj_iff.mp (hjk.trans hk.symm))

theorem WellFormed.get?_eq {p : Plan α} (hp : p.WellFormed) (k : Key) :
    p.get? k = (p.tables.position k).bind fun i => p.operators[i]? := by
  cases hpos : p.tables.position k with
  | none =>
      have hnew : k ∉ p.keys := List.idxOf?_eq_none_iff.mp hpos
      refine List.find?_eq_none.mpr fun op hop => ?_
      rw [decide_eq_true_eq]
      rintro rfl
      exact hnew (List.mem_map_of_mem hop)
  | some i =>
      have hk : p.keys[i]? = some k := (idxOf?_eq_some_iff_of_nodup hp.keys_nodup).mp hpos
      rw [keys, List.getElem?_map] at hk
      obtain ⟨op, hop, rfl⟩ := Option.map_eq_some_iff.mp hk
      rw [hp.get?_key (List.mem_of_getElem? hop)]
      exact hop.symm

theorem WellFormed.consistent {p : Plan α} (hp : p.WellFormed) : p.Consistent := by
  refine ⟨hp.keys_nodup, fun k i => idxOf?_eq_some_iff_of_nodup hp.keys_nodup, hp.get?_eq,
    fun a b => mem_successors.trans mem_predecessors.symm, ?_, ?_,
    fun a b hab => hp.mem_keys (mem_successors.mp hab), p.roots_tables.symm, List.filter_sublist,
    ?_, p.leaves_tables.symm, List.filter_sublist, ?_⟩
  · intro k
    exact ⟨nodup_map_filter hp.edges_nodup (fun _ _ hsource htarget => Prod.ext hsource htarget) k,
      nodup_map_filter hp.edges_nodup (fun _ _ htarget hsource => Prod.ext hsource htarget) k⟩
  · intro k
    exact ⟨fun h => hp.irrefl (mem_successors.mp h), fun h => hp.irrefl (mem_predecessors.mp h)⟩
  · intro op
    simp [roots, List.eq_nil_iff_forall_not_mem, mem_predecessors, mem_successors]
  · intro op
    simp [leaves, List.eq_nil_iff_forall_not_mem, mem_predecessors, mem_successors]

/-- After any calls, whether they have succeeded or failed, the tables are those of the plan and give
the same answers, they are consistent, and a call that is refused next leaves the plan and its tables
as they are, or as they are up to the input that it is refused for. -/
theorem runAll_consistent {calls : List (Call α)} {p : Plan α} {answers : List (Option PlanError)}
    (h : Call.runAll Call.run calls .empty = (p, answers)) :
    Call.runAll Call.runTables calls .empty = (p.tables, answers) ∧ p.Consistent ∧
    ∀ (call : Call α) (q : Plan α) (e : PlanError), call.run p = (q, some e) →
      call.runTables p.tables = (q.tables, some e) ∧ call.Refused p q e := by
  have hbuilt : p.Built := by
    have hall := Built.runAll .empty calls
    rwa [h] at hall
  refine ⟨?_, hbuilt.wellFormed.consistent, ?_⟩
  · rw [← tables_empty, runAll_runTables, h]
  · intro call q e hcall
    rw [call.runTables_tables, hcall]
    exact ⟨rfl, Call.run_eq_error hcall⟩

end Tables

/-- Calls that make a load and its limit, with two mistakes on the way. -/
def Call.mistaken : List (Call PhysicalOperator) :=
  [.add ⟨⟨"p", 1⟩, .load "in", []⟩, .add ⟨⟨"p", 1⟩, .load "again", []⟩,
    .addWithInputs ⟨⟨"p", 2⟩, .limit 5, [⟨"p", 1⟩]⟩ [⟨"p", 1⟩], .connect ⟨"p", 1⟩ ⟨"p", 2⟩]

/-- A union that names itself as its second input. -/
def Call.selfish : Call PhysicalOperator :=
  .addWithInputs ⟨⟨"p", 3⟩, .union, [⟨"p", 2⟩, ⟨"p", 3⟩, ⟨"p", 1⟩]⟩ [⟨"p", 2⟩, ⟨"p", 3⟩, ⟨"p", 1⟩]

theorem mistaken_consistent : ∃ p q answers,
    Call.runAll Call.run Call.mistaken .empty = (p, answers) ∧
    Call.runAll Call.runTables Call.mistaken .empty = (p.tables, answers) ∧
    answers = [none, some (.duplicateOperator ⟨"p", 1⟩), none,
      some (.duplicateEdge ⟨"p", 1⟩ ⟨"p", 2⟩)] ∧
    p.Consistent ∧ Call.selfish.run p = (q, some (.selfLoop ⟨"p", 3⟩)) ∧
    q.edges = [(⟨"p", 1⟩, ⟨"p", 2⟩), (⟨"p", 2⟩, ⟨"p", 3⟩)] ∧
    Call.selfish.Refused p q (.selfLoop ⟨"p", 3⟩) := by
  obtain ⟨p, answers, hrun⟩ : ∃ p answers,
      Call.runAll Call.run Call.mistaken .empty = (p, answers) := ⟨_, _, rfl⟩
  obtain ⟨q, hselfish⟩ : ∃ q, Call.selfish.run p = (q, some (.selfLoop ⟨"p", 3⟩)) := by
    cases hrun
    exact ⟨_, rfl⟩
  obtain ⟨htables, hconsistent, hrefused⟩ := runAll_consistent hrun
  refine ⟨p, q, answers, hrun, htables, ?_, hconsistent, hselfish, ?_,
    (hrefused Call.selfish q _ hselfish).2⟩
  · cases hrun
    rfl
  · cases hrun
    cases hselfish
    rfl

end Dataflow.Plan
