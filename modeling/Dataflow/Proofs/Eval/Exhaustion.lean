import Dataflow.Proofs.Eval.Nesting
/-!
# Exhaustion

An operator reports the end of its data once.  Before that it fails as exhausted only when it has
received this failure, from beneath or from one of its expressions; behind it the operator fails as
exhausted itself, under its own key, and touches nothing.

The end of the data may come from beneath, from a condition or from a column in the middle of a row.  It
is the same for all of them: what a pull gives is the end of the data if and only if the end is among
what the pull received (`Serves.ends_iff`), and this is what ends a history.

**Proved here.**

    a pull ends the data if and only if it receives the end        (`Station.Serves.ends_iff`)
    it fails as exhausted only if it receives this failure         (`Station.Serves.brings`)
    so a history is exhausted once                                 (`Station.History.exhaustsOnce`)
    rows held in memory, and stations above any stream, as well    (`Stream.exhausts_once`)
-/
namespace Dataflow

/-- The end of the data is among what was received. -/
def Received.Ends (got : Received) : Prop := got.below = .endOfData ∨ .endOfData ∈ got.values

/-- The error is among what was received. -/
def Received.Brings (got : Received) (e : EvalError) : Prop :=
  got.below = .error e ∨ .error e ∈ got.values

/-- The pulls of an operator that is exhausted once.  Up to the end of its data it raises no error of
its own for being exhausted, and the end is the one that it receives.  Behind it nothing is received,
and every pull is an error that names the operator. -/
def ExhaustsOnce (key : Key) (turns : List Turn) : Prop :=
  ∃ before after, turns = before ++ after ∧
    (∀ turn ∈ before, turn.result.isEndOfData = false ∧ (∀ got ∈ turn.received, ¬ got.Ends) ∧
      ∀ k, turn.result = .error (.exhausted k) →
        ∃ got, turn.received.getLast? = some got ∧ got.Brings (.exhausted k)) ∧
    (after = [] ∨ ∃ received n, (∃ got ∈ received, got.Ends) ∧
      after = ⟨received, .endOfData⟩ :: List.replicate n ⟨[], .error (.exhausted key)⟩)

theorem Next.map_eq_error {α β : Type} {f : α → β} {r : Next α} {e : EvalError} :
    r.map f = .error e ↔ r = .error e := by
  cases r <;> simp [Next.map]

theorem Next.map_eq_endOfData {α β : Type} {f : α → β} {r : Next α} :
    r.map f = .endOfData ↔ r = .endOfData := by
  cases r <;> simp [Next.map]

namespace Station
variable {L S : Type} {ask : L → Tuple → StateM S (Next Value)} {top : Station L}

/-! ## What brings the end -/

theorem filterResult_eq_exhausted {key k : Key} {t : Tuple} {r : Next Value}
    (h : filterResult key t r = some (.error (.exhausted k))) : r = .error (.exhausted k) := by
  cases r with
  | ok v =>
      cases v with
      | boolean b => cases b <;> cases h
      | _ => cases h
  | null | endOfData => cases h
  | error e =>
      cases h
      rfl

theorem filterResult_eq_endOfData {key : Key} {t : Tuple} {r : Next Value} :
    filterResult key t r = some .endOfData ↔ r = .endOfData := by
  refine ⟨fun h => ?_, fun h => h ▸ rfl⟩
  cases r with
  | ok v =>
      cases v with
      | boolean b => cases b <;> cases h
      | _ => cases h
  | null | error e => cases h
  | endOfData => rfl

theorem mem_of_fields_eq_error {values : List (Next Value)} {e : EvalError}
    (h : fields values = .error e) : .error e ∈ values := by
  induction values with
  | nil => cases h
  | cons r rest ih =>
      cases r with
      | ok v => exact List.mem_cons_of_mem _ (ih (Next.map_eq_error.mp h))
      | null => exact List.mem_cons_of_mem _ (ih (Next.map_eq_error.mp h))
      | endOfData => cases h
      | error e' =>
          cases h
          exact List.mem_cons_self

theorem brings_of_verdict {got : Received} {k : Key}
    (h : top.verdict got = some (.error (.exhausted k))) : got.Brings (.exhausted k) := by
  obtain ⟨key, transform, exhausted⟩ := top
  obtain ⟨below, values⟩ := got
  cases below with
  | ok t =>
      refine .inr ?_
      cases transform with
      | filter condition =>
          obtain ⟨r, hr, h⟩ := Option.bind_eq_some_iff.mp h
          exact filterResult_eq_exhausted h ▸ List.mem_of_head? hr
      | project columns => exact mem_of_fields_eq_error (Option.some.inj h)
  | null => cases transform <;> cases h
  | endOfData => cases h
  | error e =>
      cases h
      exact .inl rfl

theorem gather_apply (t : Tuple) (e : Expr L) (rest : List (Expr L)) (st : S) :
    gather ask t (e :: rest) st =
      match e.pull ask t st with
      | (.ok v, st) => (.ok v :: (gather ask t rest st).1, (gather ask t rest st).2)
      | (.null, st) => (.null :: (gather ask t rest st).1, (gather ask t rest st).2)
      | (.endOfData, st) => ([.endOfData], st)
      | (.error e, st) => ([.error e], st) := by
  simp only [gather, bind, StateT.bind]
  rcases e.pull ask t st with ⟨_ | _ | _ | _, st⟩ <;> rfl

theorem fields_gather (t : Tuple) (es : List (Expr L)) (st : S) :
    fields (gather ask t es st).1 = .endOfData ↔ .endOfData ∈ (gather ask t es st).1 := by
  induction es generalizing st with
  | nil => exact ⟨nofun, nofun⟩
  | cons e rest ih =>
      rw [gather_apply]
      rcases e.pull ask t st with ⟨v | _ | _ | e, st⟩
      · simp [fields, Next.map_eq_endOfData, ih]
      · simp [fields]
      · simp [fields, Next.map_eq_endOfData, ih]
      · simp [fields]

theorem gather_singleton (t : Tuple) (e : Expr L) (st : S) :
    gather ask t [e] st = ([(e.pull ask t st).1], (e.pull ask t st).2) := by
  rw [gather_apply]
  rcases e.pull ask t st with ⟨_ | _ | _ | _, st⟩ <;> rfl

theorem verdict_eq_endOfData {r : Next Tuple} {got : Received} {st st' : S}
    (hreceive : top.receive ask r st = (got, st')) :
    top.verdict got = some .endOfData ↔ got.Ends := by
  obtain ⟨key, transform, exhausted⟩ := top
  cases r with
  | ok t =>
      cases hreceive
      cases transform with
      | filter condition =>
          simp only [verdict, Received.Ends, expressions, gather_singleton, List.head?_cons,
            Option.bind_some, filterResult_eq_endOfData, List.mem_singleton, reduceCtorEq, false_or]
          exact eq_comm
      | project columns =>
          simp [verdict, Received.Ends, expressions, fields_gather]
  | null => cases transform <;> cases hreceive <;> simp [verdict, Received.Ends]
  | endOfData | error e =>
      cases hreceive
      simp [verdict, Received.Ends]

/-! ## Pulls -/

/-- A pull gives the end of the data when it receives it. -/
theorem Serves.ends_iff {s s' : Stream L} {st st' : S} {received : List Received} {r : Next Tuple}
    (h : Serves ask top s st received r s' st') :
    r = .endOfData ↔ ∃ got ∈ received, got.Ends := by
  induction h with
  | give hpull hreceive hverdict =>
      have hends := verdict_eq_endOfData hreceive
      rw [hverdict] at hends
      simpa using hends
  | drop hpull hreceive hverdict _ ih =>
      have hends := verdict_eq_endOfData hreceive
      rw [hverdict] at hends
      simp [← ih, ← hends]

/-- What a pull received last is why it failed. -/
theorem Serves.brings {s s' : Stream L} {st st' : S} {received : List Received} {r : Next Tuple}
    {k : Key} (h : Serves ask top s st received r s' st') (hr : r = .error (.exhausted k)) :
    ∃ got, received.getLast? = some got ∧ got.Brings (.exhausted k) := by
  induction h with
  | give hpull hreceive hverdict => exact ⟨_, rfl, brings_of_verdict (hr ▸ hverdict)⟩
  | drop hpull hreceive hverdict _ ih =>
      obtain ⟨got, hlast, hbrings⟩ := ih hr
      exact ⟨got, by rw [List.getLast?_cons, hlast]; rfl, hbrings⟩

theorem History.exhaustsOnce {s s' : Stream L} {st st' : S} {turns : List Turn}
    (h : History ask top s st turns s' st') : ExhaustsOnce top.key turns := by
  induction h with
  | nil => exact ⟨[], [], rfl, nofun, .inl rfl⟩
  | more hserves hend _ ih =>
      obtain ⟨before, after, rfl, hbefore, hafter⟩ := ih
      refine ⟨_ :: before, after, rfl, List.forall_mem_cons.mpr ⟨⟨hend, ?_, ?_⟩, hbefore⟩, hafter⟩
      · intro got hgot hends
        rw [hserves.ends_iff.mpr ⟨got, hgot, hends⟩] at hend
        cases hend
      · exact fun k hr => hserves.brings hr
  | ended n hserves =>
      exact ⟨[], _, rfl, nofun, .inr ⟨_, n, hserves.ends_iff.mp rfl, rfl⟩⟩

end Station

theorem ExhaustsOnce.once {key : Key} {turns : List Turn} (h : ExhaustsOnce key turns) :
    (turns.map Turn.result).countP Next.isEndOfData ≤ 1 := by
  obtain ⟨before, after, rfl, hbefore, hafter⟩ := h
  have hnone : (before.map Turn.result).countP Next.isEndOfData = 0 := by
    rw [List.countP_eq_zero]
    intro r hr
    obtain ⟨turn, hturn, rfl⟩ := List.mem_map.mp hr
    simp [(hbefore turn hturn).1]
  rw [List.map_append, List.countP_append, hnone, Nat.zero_add]
  obtain rfl | ⟨received, n, -, rfl⟩ := hafter
  · exact Nat.zero_le 1
  · simp [List.countP_cons, List.countP_replicate, Next.isEndOfData]

/-! ## Operators -/

/-- What an operator gives from the end of its data on, in so many pulls. -/
def ending (key : Key) : Nat → List (Next Tuple)
  | 0 => []
  | n + 1 => .endOfData :: List.replicate n (.error (.exhausted key))

namespace Stream
variable {L S : Type}

theorem pullTimes_ofRows {m : Type → Type} [Monad m] [LawfulMonad m]
    (ask : L → Tuple → m (Next Value)) (key : Key) (rows : List Tuple) (n : Nat) :
    (⟨.ofRows key rows, []⟩ : Stream L).pullTimes ask n =
      pure ((rows.take n).map .ok ++ ending key (n - rows.length),
        ⟨⟨key, .rows, (rows.drop n).map .ok, decide (rows.length < n)⟩, []⟩) := by
  induction n generalizing rows with
  | zero => simp [pullTimes, Source.ofRows, ending]
  | succ n ih =>
      cases rows with
      | nil =>
          have hpull : (⟨.ofRows key [], []⟩ : Stream L).pull ask =
            pure (.endOfData, closedPipeline key []) := pull_nil ask key []
          rw [pullTimes, hpull, pure_bind]
          simp only [pullTimes_closed, pure_bind]
          rfl
      | cons t rest =>
          have hpull : (⟨.ofRows key (t :: rest), []⟩ : Stream L).pull ask =
            pure (.ok t, ⟨.ofRows key rest, []⟩) := pull_cons ask key t rest []
          rw [pullTimes, hpull, pure_bind]
          simp only [ih, pure_bind]
          simp

/-- An operator is exhausted once: rows held in memory, and a station above any stream, whatever its
expressions do. -/
theorem exhausts_once (ask : L → Tuple → StateM S (Next Value)) (source : Key) (rows : List Tuple)
    (s : Stream L) (st : S) (key : Key) (transform : Transform L) (n : Nat) :
    (⟨.ofRows source rows, []⟩ : Stream L).pullTimes ask n =
      pure ((rows.take n).map .ok ++ ending source (n - rows.length),
        ⟨⟨source, .rows, (rows.drop n).map .ok, decide (rows.length < n)⟩, []⟩) ∧
    (∃ turns s' st', turns.length = n ∧
      Station.History ask ⟨key, transform, false⟩ s st turns s' st' ∧
      (s.above ⟨key, transform, false⟩).pullTimes ask n st =
        ((turns.map Turn.result, s'.above (Station.after ⟨key, transform, false⟩ turns)), st') ∧
      ExhaustsOnce key turns ∧ (turns.map Turn.result).countP Next.isEndOfData ≤ 1) ∧
    (s.above ⟨key, transform, true⟩).pullTimes ask n =
      pure (List.replicate n (.error (.exhausted key)), s.above ⟨key, transform, true⟩) := by
  obtain ⟨turns, s', st', hlength, hhistory⟩ :=
    Station.exists_history ask ⟨key, transform, false⟩ n s st
  refine ⟨pullTimes_ofRows ask source rows n, ⟨turns, s', st', hlength, hhistory, ?_, ?_, ?_⟩, ?_⟩
  · exact hlength ▸ hhistory.pullTimes rfl
  · exact hhistory.exhaustsOnce
  · exact hhistory.exhaustsOnce.once
  · exact pullTimes_above_exhausted ask rfl s n

/-- A column that ends the data at the second of three rows: the third one is not asked for. -/
example : ((⟨.ofRows ⟨"x", 1⟩ [[.long 5], [.long 6], [.long 7]], []⟩ : Stream ScriptRef).above
      ⟨⟨"x", 2⟩, .project [.operand ⟨⟨"x", 3⟩, 0⟩, .column ⟨"x", 4⟩ 0 .long], false⟩).pullTimes
        Script.ask 4 [⟨[.ok (.boolean true), .endOfData, .null], 0⟩] =
    (([.ok [.boolean true, .long 5], .endOfData, .error (.exhausted ⟨"x", 2⟩),
        .error (.exhausted ⟨"x", 2⟩)],
      (⟨⟨⟨"x", 1⟩, .rows, [.ok [.long 7]], false⟩, []⟩ : Stream ScriptRef).above
        ⟨⟨"x", 2⟩, .project [.operand ⟨⟨"x", 3⟩, 0⟩, .column ⟨"x", 4⟩ 0 .long], true⟩),
      [⟨[.null], 2⟩]) := by rfl

end Stream
end Dataflow
