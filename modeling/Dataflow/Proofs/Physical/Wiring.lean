import Dataflow.Physical.Builder
import Dataflow.Physical.Spec
import Dataflow.Proofs.Plan.Building
/-!
# Plans and their descriptions

A builder feeds each operator while it adds it; a description is built in two passes, all operators
first and then all edges.  Both make the edges operator by operator and input by input, so the plans
agree in the order of their edges as well, and with it in the order of all producers and consumers.

What makes a plan the plan of its own description is said without either: its edges are the declared
ones, in the order of the operators and their inputs, and its keys share one scope.

**Proved here.**

    what building a description leaves in the plan              (`build_eq_ok`)
    a plan with the declared edges is built from its description (`build_ofPlan`)
    a builder whose calls succeed keeps the declared edges        (`Regular.add`, `regular_runAll`)
    descriptions to plans and back, and plans to descriptions     (`PlanSpec.ofPlan_build`)
-/
namespace Dataflow

namespace Plan

variable {α : Type} [PlanNode α]

/-- Sources that can feed a target one after the other. -/
structure Joinable (p : Plan α) (target : Key) (sources : List Key) : Prop where
  target_mem : target ∈ p.keys
  mem : ∀ a ∈ sources, a ∈ p.keys
  ne : target ∉ sources
  nodup : sources.Nodup
  fresh : ∀ a ∈ sources, ¬ p.Feeds a target

/-- The plan with further edges into a target. -/
def join (p : Plan α) (target : Key) (sources : List Key) : Plan α :=
  { p with edges := p.edges ++ sources.map fun a => (a, target) }

theorem Joinable.rest {p : Plan α} {target a : Key} {rest : List Key}
    (h : p.Joinable target (a :: rest)) : (p.join target [a]).Joinable target rest := by
  obtain ⟨ha, hrest⟩ := List.nodup_cons.mp h.nodup
  refine ⟨h.target_mem, fun b hb => h.mem b (List.mem_cons_of_mem a hb),
    fun ht => h.ne (List.mem_cons_of_mem a ht), hrest, ?_⟩
  intro b hb hfeeds
  rcases List.mem_append.mp hfeeds with hold | hnew
  · exact h.fresh b (List.mem_cons_of_mem a hb) hold
  · have hba : b = a := by simpa using hnew
    exact ha (hba ▸ hb)

omit [PlanNode α] in
theorem join_cons (p : Plan α) (target a : Key) (rest : List Key) :
    (p.join target [a]).join target rest = p.join target (a :: rest) := by
  simp [join]

theorem connectAll_eq_none {p : Plan α} {target : Key} {sources : List Key}
    (h : (p.connectAll target sources).2 = none) :
    (p.connectAll target sources).1 = p.join target sources := by
  induction sources generalizing p with
  | nil => simp [connectAll, join]
  | cons a rest ih =>
      rw [connectAll] at h ⊢
      cases hc : p.connect a target with
      | error e =>
          rw [hc] at h
          cases h
      | ok q =>
          rw [hc] at h
          obtain ⟨-, -, -, -, rfl⟩ := connect_eq_ok hc
          exact (ih h).trans (join_cons p target a rest)

end Plan

/-- The edges that an operator declares, in the order of its inputs. -/
def PhysicalOperator.declaredEdges (op : PhysicalOperator) : List (Key × Key) :=
  op.inputs.map fun a => (a, op.key)

theorem PhysicalOperator.nodup_declaredEdges (op : PhysicalOperator) :
    op.declaredEdges.Nodup ↔ op.inputs.Nodup :=
  List.nodup_map_iff fun _ _ h => congrArg Prod.fst h

theorem feeds_of_mem_inputs {p : PhysicalPlan} {op : PhysicalOperator} {a : Key}
    (hedges : p.edges = p.operators.flatMap PhysicalOperator.declaredEdges)
    (hop : op ∈ p.operators) (ha : a ∈ op.inputs) : p.Feeds a op.key := by
  show (a, op.key) ∈ p.edges
  rw [hedges]
  exact List.mem_flatMap.mpr ⟨op, hop, List.mem_map.mpr ⟨a, ha, rfl⟩⟩

/-- The plan in which every operator is fed from its declared inputs. -/
def Plan.declared (ops : List PhysicalOperator) : PhysicalPlan :=
  ⟨ops, ops.flatMap PhysicalOperator.declaredEdges⟩

namespace PlanSpec

/-! ## Building a description -/

theorem addAll_eq_ok {s : PlanSpec} {ops : List OperatorSpec} {p q : PhysicalPlan} (hp : p.Built)
    (h : s.addAll ops p = .ok q) :
    q.Built ∧ q = { p with operators := p.operators ++ ops.map s.operator } := by
  induction ops generalizing p with
  | nil =>
      cases h
      exact ⟨hp, by simp⟩
  | cons op rest ih =>
      rw [addAll] at h
      cases hadd : p.add (s.operator op) with
      | error e =>
          rw [hadd] at h
          cases h
      | ok p' =>
          rw [hadd] at h
          obtain ⟨hq, rfl⟩ := ih (hp.add hadd) h
          obtain ⟨-, rfl⟩ := Plan.add_eq_ok hadd
          exact ⟨hq, by simp⟩

theorem wire_eq_ok {target : Key} {seen inputs : List Key} {p q : PhysicalPlan} (hp : p.Built)
    (h : wire target seen inputs p = .ok q) : q.Built ∧ q = p.join target inputs := by
  induction inputs generalizing seen p with
  | nil =>
      cases h
      exact ⟨hp, by simp [Plan.join]⟩
  | cons input rest ih =>
      rw [wire] at h
      split at h
      · cases h
      · split at h
        · cases h
        · cases hc : p.connect input target with
          | error e =>
              rw [hc] at h
              cases h
          | ok p' =>
              rw [hc] at h
              obtain ⟨hq, rfl⟩ := ih (hp.connect hc) h
              obtain ⟨-, -, -, -, rfl⟩ := Plan.connect_eq_ok hc
              exact ⟨hq, Plan.join_cons p target input rest⟩

theorem wireAll_eq_ok {ops : List PhysicalOperator} {p q : PhysicalPlan} (hp : p.Built)
    (h : wireAll ops p = .ok q) :
    q.Built ∧ q = { p with edges := p.edges ++ ops.flatMap PhysicalOperator.declaredEdges } := by
  induction ops generalizing p with
  | nil =>
      cases h
      exact ⟨hp, by simp⟩
  | cons op rest ih =>
      rw [wireAll] at h
      cases hwire : wire op.key [] op.inputs p with
      | error e =>
          rw [hwire] at h
          cases h
      | ok p' =>
          rw [hwire] at h
          obtain ⟨hp', rfl⟩ := wire_eq_ok hp hwire
          obtain ⟨hq, rfl⟩ := ih hp' h
          exact ⟨hq, by simp [Plan.join, PhysicalOperator.declaredEdges]⟩

/-- What is built has the operators that are described, each fed from its declared inputs. -/
theorem build_eq_ok {s : PlanSpec} {p : PhysicalPlan} (h : s.build = .ok p) :
    p.Built ∧ p = .declared (s.operators.map s.operator) := by
  rw [build] at h
  cases hadd : s.addAll s.operators .empty with
  | error e =>
      rw [hadd] at h
      cases h
  | ok q =>
      rw [hadd] at h
      obtain ⟨hq, rfl⟩ := addAll_eq_ok .empty hadd
      exact wireAll_eq_ok hq h

theorem operators_build {s : PlanSpec} {p : PhysicalPlan} (h : s.build = .ok p) :
    p.operators = s.operators.map s.operator := by
  obtain ⟨-, rfl⟩ := build_eq_ok h
  rfl

/-! ## A plan from its description -/

theorem addAll_of_nodup {s : PlanSpec} {ops : List OperatorSpec} {p : PhysicalPlan}
    (h : (p.keys ++ ops.map fun op => (s.operator op).key).Nodup) :
    s.addAll ops p = .ok { p with operators := p.operators ++ ops.map s.operator } := by
  induction ops generalizing p with
  | nil => simp [addAll]
  | cons op rest ih =>
      have hnew : PlanNode.key (s.operator op) ∉ p.keys := by
        intro hmem
        exact (List.disjoint_of_nodup_append h) hmem List.mem_cons_self
      rw [addAll, Plan.add_of_not_mem hnew]
      let q : PhysicalPlan := { p with operators := p.operators ++ [s.operator op] }
      have hq : (q.keys ++ rest.map fun op => (s.operator op).key).Nodup := by
        simpa [q, Plan.keys, PlanNode.key] using h
      simpa [q] using ih hq

theorem wire_of_joinable {target : Key} {seen inputs : List Key} {p : PhysicalPlan}
    (h : p.Joinable target inputs) (hseen : ∀ a ∈ inputs, a ∉ seen) :
    wire target seen inputs p = .ok (p.join target inputs) := by
  induction inputs generalizing seen p with
  | nil => simp [wire, Plan.join]
  | cons a rest ih =>
      have ha := h.mem a List.mem_cons_self
      have hne : a ≠ target := fun he => h.ne (he ▸ List.mem_cons_self)
      have hconnect := Plan.connect_of ha h.target_mem hne (h.fresh a List.mem_cons_self)
      have hcontains : p.contains a = true := by simpa [Plan.contains] using ha
      rw [wire, if_neg (hseen a List.mem_cons_self), hcontains, hconnect, ← Plan.join_cons]
      refine ih h.rest ?_
      intro b hb hmem
      rcases List.mem_cons.mp hmem with rfl | hold
      · exact (List.nodup_cons.mp h.nodup).1 hb
      · exact hseen b (List.mem_cons_of_mem a hb) hold

/-- The edges of a well-formed plan can be made anew, operator by operator. -/
theorem wireAll_of_declared {done ops : List PhysicalOperator} {p : PhysicalPlan}
    (hp : p.WellFormed) (hops : p.operators = done ++ ops)
    (hedges : p.edges = p.operators.flatMap PhysicalOperator.declaredEdges) :
    wireAll ops ⟨p.operators, done.flatMap PhysicalOperator.declaredEdges⟩ = .ok p := by
  induction ops generalizing done with
  | nil =>
      have hdone : done = p.operators := by simpa using hops.symm
      rw [wireAll, hdone, ← hedges]
  | cons op rest ih =>
      have hop : op ∈ p.operators := by
        rw [hops]
        exact List.mem_append_right done List.mem_cons_self
      have hfeeds : ∀ a ∈ op.inputs, p.Feeds a op.key :=
        fun a ha => feeds_of_mem_inputs hedges hop ha
      have hjoin : Plan.Joinable (⟨p.operators, done.flatMap PhysicalOperator.declaredEdges⟩ :
          PhysicalPlan) op.key op.inputs := by
        refine ⟨List.mem_map_of_mem hop, fun a ha => (hp.mem_keys (hfeeds a ha)).1,
          fun hself => hp.irrefl (hfeeds _ hself), ?_, ?_⟩
        · -- a repeated input would be a repeated edge
          have hnodup := hp.edges_nodup
          rw [hedges] at hnodup
          exact op.nodup_declaredEdges.mp ((List.nodup_flatMap.mp hnodup).1 op hop)
        · -- the operators before this one have other keys
          intro a _ hold
          obtain ⟨o, ho, he⟩ := List.mem_flatMap.mp hold
          obtain ⟨b, -, heq⟩ := List.mem_map.mp he
          have hkey : o.key = op.key := congrArg Prod.snd heq
          have hnodup := hp.keys_nodup
          rw [Plan.keys, hops, List.map_append, List.map_cons] at hnodup
          refine List.disjoint_of_nodup_append hnodup (List.mem_map_of_mem ho) ?_
          show o.key ∈ op.key :: _
          rw [hkey]
          exact List.mem_cons_self
      rw [wireAll, wire_of_joinable hjoin fun _ _ => List.not_mem_nil]
      have hmoved : p.operators = (done ++ [op]) ++ rest := by simp [hops]
      simpa [Plan.join, PhysicalOperator.declaredEdges] using ih hmoved

theorem build_of_wellFormed {s : PlanSpec}
    (h : (Plan.declared (s.operators.map s.operator)).WellFormed) :
    s.build = .ok (.declared (s.operators.map s.operator)) := by
  have hnodup : ((Plan.empty : PhysicalPlan).keys ++
      s.operators.map fun op => (s.operator op).key).Nodup := by
    show (s.operators.map (PhysicalOperator.key ∘ s.operator)).Nodup
    rw [← List.map_map]
    exact h.keys_nodup
  have hnone : s.operators.map s.operator = [] ++ s.operators.map s.operator := rfl
  rw [build, addAll_of_nodup hnodup]
  exact wireAll_of_declared h hnone rfl

/-- A plan with the declared edges, whose keys share one scope, is built from its own description. -/
theorem build_ofPlan {p : PhysicalPlan} {scope : String} (hp : p.Built)
    (hscope : ∀ k ∈ p.keys, k.scope = scope)
    (hedges : p.edges = p.operators.flatMap PhysicalOperator.declaredEdges) :
    (ofPlan p).build = .ok p := by
  have hwf := hp.wellFormed
  have hof : ∀ op ∈ p.operators,
      (ofPlan p).operator ⟨op.key.id, op.inputs.map Key.id, op.kind⟩ = op := by
    intro op hop
    have hplan : (ofPlan p).scope = scope := by
      cases hhead : p.operators with
      | nil =>
          rw [hhead] at hop
          cases hop
      | cons first rest =>
          have hfirst : first ∈ p.operators := by simp [hhead]
          simpa [ofPlan, hhead] using hscope first.key (List.mem_map_of_mem hfirst)
    have hkey : ∀ k ∈ p.keys, (⟨scope, k.id⟩ : Key) = k := by
      intro k hk
      rw [← hscope k hk]
    have hinputs : op.inputs.map (fun a => (⟨scope, a.id⟩ : Key)) = op.inputs := by
      refine (List.map_congr_left ?_).trans (List.map_id _)
      intro a ha
      exact hkey a (hwf.mem_keys (feeds_of_mem_inputs hedges hop ha)).1
    simp only [operator, hplan, List.map_map, Function.comp_def, hinputs,
      hkey op.key (List.mem_map_of_mem hop)]
  have hops : (ofPlan p).operators.map (ofPlan p).operator = p.operators := by
    show (p.operators.map _).map _ = _
    rw [List.map_map]
    exact (List.map_congr_left hof).trans (List.map_id _)
  have hdeclared : Plan.declared ((ofPlan p).operators.map (ofPlan p).operator) = p := by
    rw [hops, Plan.declared, ← hedges]
  have hbuild := build_of_wellFormed (s := ofPlan p) (by rwa [hdeclared])
  rwa [hdeclared] at hbuild

end PlanSpec

/-! ## Builders -/

namespace PlanBuilder

/-- A call of a builder. -/
inductive Call where
  | load (location : String)
  | filter (condition : ExprSpec) (input : Key)
  | store (location : String) (input : Key)
  | add (kind : PhysicalKind) (inputs : List Key)

def Call.run : Call → PlanBuilder → Except PlanError Key × PlanBuilder
  | .load location, b => b.load location
  | .filter condition input, b => b.filter condition input
  | .store location input, b => b.store location input
  | .add kind inputs, b => b.add kind inputs

/-- Makes calls one after the other, whether they succeed or fail. -/
def runAll : List Call → PlanBuilder → List (Except PlanError Key) × PlanBuilder
  | [], b => ([], b)
  | call :: rest, b =>
    let (result, b) := call.run b
    let (results, b) := runAll rest b
    (result :: results, b)

def Call.kind : Call → PhysicalKind
  | .load location => .load location
  | .filter condition _ => .filter condition
  | .store location _ => .store location
  | .add kind _ => kind

/-- The inputs that the operator of a call declares. -/
def Call.inputs : Call → List Key
  | .load _ => []
  | .filter _ input => [input]
  | .store _ input => [input]
  | .add _ inputs => inputs

theorem Call.run_eq_add (call : Call) (b : PlanBuilder) :
    call.run b = b.add call.kind call.inputs := by
  cases call <;> rfl

/-- What a call answers: the key that it has drawn, or why its operator was not fed. -/
def answer (key : Key) : Option PlanError → Except PlanError Key
  | none => .ok key
  | some e => .error e

/-- A call uses up a key and leaves in the plan what its operator got, whether it succeeds or fails. -/
theorem add_eq (b : PlanBuilder) (kind : PhysicalKind) (inputs : List Key) :
    b.add kind inputs =
      (answer b.keys.draw.1 (b.plan.addWithInputs ⟨b.keys.draw.1, kind, inputs⟩ inputs).2,
        ⟨b.keys.draw.2, (b.plan.addWithInputs ⟨b.keys.draw.1, kind, inputs⟩ inputs).1⟩) := by
  rw [add]
  cases hw : b.plan.addWithInputs ⟨b.keys.draw.1, kind, inputs⟩ inputs with
  | mk p error =>
      simp only [hw]
      cases error <;> rfl

/-- What successful calls keep up. -/
structure Regular (scope : String) (b : PlanBuilder) : Prop where
  supply : b.keys.scope = scope
  built : b.plan.Built
  scopes : ∀ k ∈ b.plan.keys, k.scope = scope
  edges : b.plan.edges = b.plan.operators.flatMap PhysicalOperator.declaredEdges

theorem regular_ofScope (scope : String) : Regular scope (ofScope scope) :=
  ⟨rfl, .empty, fun _ h => absurd h List.not_mem_nil, rfl⟩

theorem Regular.add {scope : String} {b b' : PlanBuilder} {kind : PhysicalKind}
    {inputs : List Key} {key : Key} (hb : Regular scope b)
    (h : b.add kind inputs = (.ok key, b')) : Regular scope b' := by
  obtain ⟨hsupply, hbuilt, hscopes, hedges⟩ := hb
  let op : PhysicalOperator := ⟨b.keys.draw.1, kind, inputs⟩
  have hadd : (b.plan.addWithInputs op inputs).2 = none ∧
      b' = ⟨b.keys.draw.2, (b.plan.addWithInputs op inputs).1⟩ := by
    rw [add_eq] at h
    cases herror : (b.plan.addWithInputs op inputs).2 with
    | none => exact ⟨rfl, (congrArg Prod.snd h).symm⟩
    | some e =>
        have hfirst := congrArg Prod.fst h
        simp only [op] at herror
        simp only [herror] at hfirst
        cases hfirst
  obtain ⟨hnone, rfl⟩ := hadd
  have hplan : (b.plan.addWithInputs op inputs).1 =
      ⟨b.plan.operators ++ [op], b.plan.edges ++ op.declaredEdges⟩ := by
    rw [Plan.addWithInputs] at hnone ⊢
    cases hc : b.plan.add op with
    | error e =>
        rw [hc] at hnone
        cases hnone
    | ok q =>
        rw [hc] at hnone
        obtain ⟨-, rfl⟩ := Plan.add_eq_ok hc
        exact Plan.connectAll_eq_none hnone
  refine ⟨hsupply, hbuilt.addWithInputs op inputs, ?_, ?_⟩
  · intro k hk
    have hk' : k ∈ b.plan.keys ∨ k = op.key := by
      simpa [hplan, Plan.keys, PlanNode.key] using hk
    rcases hk' with hold | rfl
    · exact hscopes k hold
    · exact hsupply
  · simp [hplan, hedges]

theorem regular_runAll {scope : String} {calls : List Call} {b : PlanBuilder} (hb : Regular scope b)
    (h : ∀ r ∈ (runAll calls b).1, ∃ key, r = .ok key) : Regular scope (runAll calls b).2 := by
  induction calls generalizing b with
  | nil => exact hb
  | cons call rest ih =>
      obtain ⟨key, hkey⟩ := h (call.run b).1 List.mem_cons_self
      have hok : b.add call.kind call.inputs = (.ok key, (call.run b).2) := by
        rw [← call.run_eq_add, ← hkey]
      have hnext : Regular scope (call.run b).2 := hb.add hok
      exact ih hnext fun r hr => h r (List.mem_cons_of_mem _ hr)

end PlanBuilder

/-- A description with operators is got back from the plan that it builds, and a plan that a builder
made with successful calls is got back from its description.  The plan that is got back has the same
operators and the same edges in the same orders, so also the producers and the consumers of every
key are the same lists, and every configuration divides it into the same stages. -/
theorem PlanSpec.ofPlan_build :
    (∀ (s : PlanSpec) (p : PhysicalPlan), s.operators ≠ [] → s.build = .ok p → ofPlan p = s) ∧
    ∀ (scope : String) (calls : List PlanBuilder.Call) (results : List (Except PlanError Key))
      (b : PlanBuilder), PlanBuilder.runAll calls (.ofScope scope) = (results, b) →
      (∀ r ∈ results, ∃ key, r = .ok key) → (ofPlan b.plan).build = .ok b.plan := by
  constructor
  · intro s p hne hbuild
    have hops := operators_build hbuild
    obtain ⟨scope, operators⟩ := s
    obtain ⟨first, rest, rfl⟩ := List.exists_cons_of_ne_nil hne
    simp [ofPlan, hops, operator, Function.comp_def]
  · intro scope calls results b hrun hok
    have hall : ∀ r ∈ (PlanBuilder.runAll calls (.ofScope scope)).1, ∃ key, r = .ok key := by
      rw [hrun]
      exact hok
    have hregular := PlanBuilder.regular_runAll (PlanBuilder.regular_ofScope scope) hall
    rw [hrun] at hregular
    exact build_ofPlan hregular.built hregular.scopes hregular.edges

/-- A description whose cogroup is listed before its two inputs. -/
def PlanSpec.forward : PlanSpec :=
  ⟨"p", [⟨7, [9, 3], .cogroup [[0], [1]] (some 2)⟩, ⟨3, [], .load "a"⟩, ⟨9, [], .load "b"⟩,
    ⟨8, [7], .store "c"⟩]⟩

/-- Calls that make a cogroup of a load and of a filter of the same load. -/
def PlanBuilder.Call.diamond : List PlanBuilder.Call :=
  [.load "a", .filter (.isNull (.column 0 .long)) ⟨"p", 1⟩,
    .add (.cogroup [[0], [1]] none) [⟨"p", 2⟩, ⟨"p", 1⟩], .store "c" ⟨"p", 3⟩]

theorem PlanBuilder.diamond_eq_ok :
    ∀ r ∈ (runAll Call.diamond (.ofScope "p")).1, ∃ key, r = .ok key := by
  have hresults : (runAll Call.diamond (.ofScope "p")).1 =
      [.ok ⟨"p", 1⟩, .ok ⟨"p", 2⟩, .ok ⟨"p", 3⟩, .ok ⟨"p", 4⟩] := rfl
  rw [hresults]
  simp

theorem PlanSpec.forward_ofPlan_build :
    (∃ p, PlanSpec.forward.build = .ok p ∧ ofPlan p = PlanSpec.forward) ∧
    ∃ results b, PlanBuilder.runAll PlanBuilder.Call.diamond (.ofScope "p") = (results, b) ∧
      (∀ r ∈ results, ∃ key, r = .ok key) ∧ (ofPlan b.plan).build = .ok b.plan := by
  have hbuild : ∃ p, PlanSpec.forward.build = .ok p := ⟨_, rfl⟩
  obtain ⟨p, hp⟩ := hbuild
  exact ⟨⟨p, hp, PlanSpec.ofPlan_build.1 _ p (List.cons_ne_nil _ _) hp⟩, _, _, rfl,
    PlanBuilder.diamond_eq_ok, PlanSpec.ofPlan_build.2 "p" _ _ _ rfl PlanBuilder.diamond_eq_ok⟩

end Dataflow
