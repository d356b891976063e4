import Dataflow.Proofs.Eval.Nesting
/-!
# What a station makes of a script

A stream that gives a script of tuples, nulls and failures, and then the end of its data, is pulled
through a station that is described.  The station makes something of each entry or drops it, whatever
the other entries are: a failure does not end anything, and neither does a run of nulls.

What a station makes of a tuple is `StationSpec.row`, which speaks of the meaning of the description and
not of pulls.  Described expressions ask nothing, so the state of the leaves is that of the stream
beneath.

The induction is on the script, and an entry that is dropped joins the next pull (`History.dropped`).
Everything is said of the results and of what was received at the same time.

**Proved here.**

    an entry is given on or dropped              (`receive_entry`)
    so is a script, entry by entry               (`exists_transduced`, `Stream.transduces`)
-/
namespace Dataflow
namespace StationSpec

/-- What a station gives for a result from beneath: nothing when the result is dropped. -/
def entry (spec : StationSpec) : Next Tuple → Option (Next Tuple)
  | .ok t => signal (spec.row t)
  | .null =>
    match spec.transform with
    | .filter _ _ => none
    | .project _ => some .null
  | .endOfData => some .endOfData
  | .error e => some (.error e)

theorem isEndOfData_entry {spec : StationSpec} {r r' : Next Tuple} (h : spec.entry r = some r') :
    r'.isEndOfData = r.isEndOfData := by
  cases r with
  | ok t =>
      simp only [entry] at h
      cases hrow : spec.row t with
      | ok kept =>
          rw [hrow] at h
          cases kept <;> cases h
          rfl
      | error e =>
          rw [hrow] at h
          cases h
          rfl
  | null =>
      obtain ⟨key, transform⟩ := spec
      cases transform <;> cases h
      rfl
  | endOfData | error e =>
      cases h
      rfl

variable {L : Type}

theorem feed_entry {m : Type → Type} [Monad m] [LawfulMonad m] (ask : L → Tuple → m (Next Value))
    (spec : StationSpec) (r : Next Tuple) :
    (spec.station : Station L).feed ask r = pure (spec.entry r) := by
  cases r with
  | ok t => exact feed_row ask spec t
  | null =>
      obtain ⟨key, transform⟩ := spec
      cases transform <;> rfl
  | endOfData | error e => rfl

/-- Described expressions ask nothing. -/
theorem receive_entry {S : Type} (ask : L → Tuple → StateM S (Next Value)) (spec : StationSpec)
    (r : Next Tuple) (st : S) : ∃ got, (spec.station : Station L).receive ask r st = (got, st) ∧
      got.below = r ∧ (spec.station : Station L).verdict got = spec.entry r := by
  have hfeed : (spec.station : Station L).feed ask r st = (spec.entry r, st) := by
    rw [feed_entry]
    rfl
  rcases hreceive : (spec.station : Station L).receive ask r st with ⟨got, st'⟩
  rw [Station.feed_of_receive hreceive] at hfeed
  obtain ⟨hverdict, rfl⟩ := Prod.mk.inj hfeed
  exact ⟨got, rfl, Station.below_of_receive hreceive, hverdict⟩

end StationSpec

namespace Station
variable {L S : Type} {ask : L → Tuple → StateM S (Next Value)}

/-- What is dropped counts for the next pull. -/
theorem History.dropped {top : Station L} {s s' s'' : Stream L} {st st₁ st₂ st₃ : S} {r : Next Tuple}
    {got : Received} {turn : Turn} {turns : List Turn} (hpull : s.pull ask st = ((r, s'), st₁))
    (hreceive : top.receive ask r st₁ = (got, st₂)) (hverdict : top.verdict got = none)
    (h : History ask top s' st₂ (turn :: turns) s'' st₃) :
    History ask top s st (⟨got :: turn.received, turn.result⟩ :: turns) s'' st₃ := by
  cases h with
  | more hserves hend hturns => exact .more (.drop hpull hreceive hverdict hserves) hend hturns
  | ended n hserves => exact .ended n (.drop hpull hreceive hverdict hserves)

end Station

namespace Stream
open Station StationSpec
variable {L S : Type} {ask : L → Tuple → StateM S (Next Value)}

theorem pullTimes_succ {s s'' : Stream L} {st st'' : S} {n : Nat} {r : Next Tuple}
    {rs : List (Next Tuple)} (h : s.pullTimes ask (n + 1) st = ((r :: rs, s''), st'')) :
    ∃ s' st', s.pull ask st = ((r, s'), st') ∧ s'.pullTimes ask n st' = ((rs, s''), st'') := by
  rcases hpull : s.pull ask st with ⟨⟨r₀, s'⟩, st'⟩
  rcases hrest : s'.pullTimes ask n st' with ⟨⟨rs₀, s₀⟩, st₀⟩
  simp only [pullTimes, bind, StateT.bind, hpull, hrest] at h
  cases h
  exact ⟨s', st', rfl, hrest⟩

theorem exists_transduced (spec : StationSpec) {script : List (Next Tuple)} {s s' : Stream L}
    {st st' : S} (hscript : ∀ r ∈ script, r.isEndOfData = false)
    (h : s.pullTimes ask (script.length + 1) st = ((script ++ [.endOfData], s'), st')) :
    ∃ turns, History ask spec.station s st turns s' st' ∧
      turns.map Turn.result = script.filterMap spec.entry ++ [.endOfData] ∧
      (turns.flatMap Turn.received).map Received.below = script ++ [.endOfData] := by
  induction script generalizing s st with
  | nil =>
      obtain ⟨s₁, st₁, hpull, hrest⟩ := pullTimes_succ h
      cases hrest
      exact ⟨_, .ended 0 (.give hpull rfl rfl), rfl, rfl⟩
  | cons r script ih =>
      obtain ⟨hr, hscript⟩ := List.forall_mem_cons.mp hscript
      obtain ⟨s₁, st₁, hpull, hrest⟩ := pullTimes_succ h
      obtain ⟨turns, hhistory, hresults, hreceived⟩ := ih hscript hrest
      obtain ⟨got, hreceive, rfl, hverdict⟩ := receive_entry ask spec r st₁
      cases hentry : spec.entry got.below with
      | some r' =>
          rw [hentry] at hverdict
          have hend : r'.isEndOfData = false := (isEndOfData_entry hentry).trans hr
          refine ⟨⟨[got], r'⟩ :: turns, .more (.give hpull hreceive hverdict) hend hhistory, ?_, ?_⟩
          · simp [hentry, hresults]
          · simp [← hreceived]
      | none =>
          rw [hentry] at hverdict
          cases turns with
          | nil => simp at hresults
          | cons turn turns =>
              refine ⟨_, .dropped hpull hreceive hverdict hhistory, ?_, ?_⟩
              · simpa [hentry] using hresults
              · simp [← hreceived]

theorem pullTimes_ofScript {m : Type → Type} [Monad m] [LawfulMonad m]
    (ask : L → Tuple → m (Next Value)) (key : Key) (script : List (Next Tuple)) :
    (⟨.ofScript key script, []⟩ : Stream L).pullTimes ask (script.length + 1) =
      pure (script ++ [.endOfData], ⟨.ofScript key [], []⟩) := by
  induction script with
  | nil =>
      have hpull : (⟨.ofScript key [], []⟩ : Stream L).pull ask =
        pure (.endOfData, ⟨.ofScript key [], []⟩) := draw_nil ask rfl (rise_ended ask [])
      rw [List.length_nil, pullTimes, hpull, pure_bind]
      simp only [pullTimes, pure_bind]
      rfl
  | cons r script ih =>
      have hrise : rise ask ([] : List (Station L)) r = pure (some r, []) := rfl
      have hpull : (⟨.ofScript key (r :: script), []⟩ : Stream L).pull ask =
        pure (r, ⟨.ofScript key script, []⟩) := draw_some ask hrise
      rw [List.length_cons, pullTimes, hpull, pure_bind]
      simp only [ih, pure_bind]
      rfl

/-- A station over a script.  If pulling a stream once for each entry of a script, and once more, gives
the script and the end of the data, then pulling it through a station gives what the station makes of
the entries, one by one, and the end of the data.  Each entry is received once. -/
theorem transduces {s s' : Stream L} {st st' : S} {script : List (Next Tuple)} (spec : StationSpec)
    (hscript : ∀ r ∈ script, r.isEndOfData = false)
    (h : s.pullTimes ask (script.length + 1) st = ((script ++ [.endOfData], s'), st')) :
    (∀ r ∈ script.filterMap spec.entry, r.isEndOfData = false) ∧
    (s.above spec.station).pullTimes ask ((script.filterMap spec.entry).length + 1) st =
      ((script.filterMap spec.entry ++ [.endOfData], s'.above spec.closed), st') ∧
    ∃ turns, History ask spec.station s st turns s' st' ∧
      turns.map Turn.result = script.filterMap spec.entry ++ [.endOfData] ∧
      (turns.flatMap Turn.received).map Received.below = script ++ [.endOfData] := by
  obtain ⟨turns, hhistory, hresults, hreceived⟩ := exists_transduced spec hscript h
  refine ⟨?_, ?_, turns, hhistory, hresults, hreceived⟩
  · intro r' hr'
    obtain ⟨r, hr, hentry⟩ := List.mem_filterMap.mp hr'
    exact (isEndOfData_entry hentry).trans (hscript r hr)
  · have hlength : (script.filterMap spec.entry).length + 1 = turns.length := by
      rw [← List.length_map Turn.result, hresults, List.length_append, List.length_singleton]
    have hended : (turns.any fun turn => turn.result.isEndOfData) = true := by
      have hmem : Next.endOfData ∈ turns.map Turn.result := hresults ▸ List.mem_concat_self
      obtain ⟨turn, hturn, hr⟩ := List.mem_map.mp hmem
      exact List.any_eq_true.mpr ⟨turn, hturn, by rw [hr]; rfl⟩
    have hafter : Station.after spec.station turns = (spec.closed : Station L) := by
      rw [Station.after, hended, Bool.or_true]
      rfl
    rw [hlength, hhistory.pullTimes rfl, hresults, hafter]

/-- Keeps the tuples whose first field exceeds a bound. -/
def exceeding : StationSpec :=
  ⟨⟨"r", 2⟩, .filter (.compare .gt (.column 0 .long) (.const (.int 3))) ⟨"r", 3⟩⟩

/-- A null, a failure, a tuple that is dropped and one that the condition fails on. -/
def readings : List (Next Tuple) :=
  [.ok [.long 5], .null, .error (.failed ⟨"r", 9⟩ "lost"), .ok [.long 1], .ok [.boolean true],
    .ok [.long 7]]

theorem readings_transduced :
    (∀ r ∈ readings, r.isEndOfData = false) ∧
    (⟨.ofScript ⟨"r", 1⟩ readings, []⟩ : Stream ScriptRef).pullTimes Script.ask 7 [] =
      ((readings ++ [.endOfData], ⟨.ofScript ⟨"r", 1⟩ [], []⟩), []) ∧
    ((⟨.ofScript ⟨"r", 1⟩ readings, []⟩ : Stream ScriptRef).above exceeding.station).pullTimes
        Script.ask 5 [] =
      (([.ok [.long 5], .error (.failed ⟨"r", 9⟩ "lost"),
        .error (.incomparable ⟨"r", 3⟩ .boolean .long), .ok [.long 7], .endOfData],
        (⟨.ofScript ⟨"r", 1⟩ [], []⟩ : Stream ScriptRef).above exceeding.closed), []) := by
  have hscript : ∀ r ∈ readings, r.isEndOfData = false := by simp [readings, Next.isEndOfData]
  have hpulls := congrFun
    (pullTimes_ofScript (m := StateM (List Script)) Script.ask ⟨"r", 1⟩ readings) []
  obtain ⟨-, hout, -⟩ := transduces exceeding hscript hpulls
  exact ⟨hscript, hpulls, hout⟩

end Stream
end Dataflow
