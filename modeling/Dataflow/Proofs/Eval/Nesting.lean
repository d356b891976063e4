import Dataflow.Proofs.Eval.Pipeline
/-!
# A station above a stream

A stream with one more station is pulled by pulling the stream and giving the result to the station,
whatever is beneath: a source with results of any kind, stations that have reported the end of the data
and stations that have not, leaves that keep a state.  So operators above operators are understood one
at a time, from the top.

What the topmost station receives is then put on record.  It receives results from beneath and, on a
tuple, those of its expressions; `Serves` is one of its pulls, and `History` the pulls one after the
other.  A station that drops what it receives has the stream beneath pulled again, and this comes to an
end because the source has only so much to drop.

**Proved here.**

    a pull through one more station                 (`Stream.pull_above`)
    what a station makes of what it receives        (`Station.feed_eq`)
    an open station serves every pull               (`Station.exists_serves`)
    the pulls of a stream are a history             (`Station.exists_history`, `History.pullTimes`)
-/
namespace Dataflow

theorem Next.eq_endOfData {α : Type} {r : Next α} (h : r.isEndOfData = true) : r = .endOfData := by
  cases r with
  | endOfData => rfl
  | ok a | null | error e => cases h

namespace Stream

open StationSpec

/-! ## Stations one above the other -/

section Rise
variable {L : Type} {m : Type → Type} [Monad m] [LawfulMonad m] (ask : L → Tuple → m (Next Value))

theorem rise_append (below above : List (Station L)) (r : Next Tuple) :
    rise ask (below ++ above) r = (do
      match ← rise ask below r with
      | (none, below) => pure (none, below ++ above)
      | (some r, below) =>
        let (result, above) ← rise ask above r
        pure (result, below ++ above)) := by
  induction below generalizing r with
  | nil => simp [rise]
  | cons s below ih =>
      simp only [List.cons_append, rise, bind_assoc]
      congr 1
      funext o
      cases o with
      | none => simp
      | some r' =>
          simp only [ih, bind_assoc, pure_bind]
          congr 1
          funext o
          obtain ⟨_ | r'', below'⟩ := o
          · simp
          · simp

/-- The stream with one more station above it. -/
def above (s : Stream L) (top : Station L) : Stream L :=
  { s with stations := s.stations ++ [top] }

omit [LawfulMonad m] in
theorem pull_above_exhausted {top : Station L} (hdone : top.exhausted = true) (s : Stream L) :
    (s.above top).pull ask = pure (.error (.exhausted top.key), s.above top) := by
  have hfind : (s.above top).stations.reverse.find? Station.exhausted = some top := by
    rw [above, List.reverse_append, List.reverse_singleton, List.singleton_append,
      List.find?_cons_of_pos hdone]
  simp only [pull, hfind]

/-- A station that is exhausted touches nothing beneath it. -/
theorem pullTimes_above_exhausted {top : Station L} (hdone : top.exhausted = true) (s : Stream L)
    (n : Nat) : (s.above top).pullTimes ask n =
      pure (List.replicate n (.error (.exhausted top.key)), s.above top) := by
  induction n with
  | zero => rfl
  | succ n ih =>
      rw [pullTimes, pull_above_exhausted ask hdone, pure_bind]
      simp only [ih, pure_bind]
      rfl

end Rise

section Above
variable {L S : Type} (ask : L → Tuple → StateM S (Next Value))

theorem rise_apply (s : Station L) (above : List (Station L)) (r : Next Tuple) (st : S) :
    rise ask (s :: above) r st =
      match s.feed ask r st with
      | (none, st) => ((none, s :: above), st)
      | (some r, st) =>
        let rest := rise ask above r st
        ((rest.1.1, s.observe r :: rest.1.2), rest.2) := by
  simp only [rise, bind, StateT.bind]
  rcases s.feed ask r st with ⟨_ | r', st'⟩ <;> rfl

theorem rise_keeps {stations stations' : List (Station L)} {r : Next Tuple}
    {top : Option (Next Tuple)} {st st' : S}
    (h : rise ask stations r st = ((top, stations'), st'))
    (htop : ∀ r, top = some r → r.isEndOfData = false) : stations' = stations := by
  induction stations generalizing r stations' top st st' with
  | nil =>
      cases h
      rfl
  | cons s above ih =>
      rw [rise_apply] at h
      rcases hfeed : s.feed ask r st with ⟨_ | r', st''⟩
      · rw [hfeed] at h
        cases h
        rfl
      · rw [hfeed] at h
        cases hend : r'.isEndOfData with
        | true =>
            -- the end of the data is not stopped on its way to the top
            obtain rfl := Next.eq_endOfData hend
            simp only [rise_ended] at h
            cases h
            exact absurd (htop _ rfl) nofun
        | false =>
            cases h
            rw [observe_of_ne hend, ih rfl htop]

/-- A result of a stream, given to one more station: the station gives something on, or the stream is
pulled again. -/
def giveTo (top : Station L) (given : Next Tuple × Stream L) : StateM S (Next Tuple × Stream L) := do
  match ← top.feed ask given.1 with
  | some r => pure (r, given.2.above (top.observe r))
  | none => (given.2.above top).pull ask

section Draw
variable {top : Station L} {stations stations' : List (Station L)} {r r₁ r₂ : Next Tuple}
  {st st₁ st₂ : S}

theorem rise_above_none (h : rise ask stations r st = ((none, stations'), st₁)) :
    rise ask (stations ++ [top]) r st = ((none, stations' ++ [top]), st₁) := by
  rw [rise_append]
  simp only [bind, StateT.bind, h]
  rfl

theorem rise_above_dropped (h : rise ask stations r st = ((some r₁, stations'), st₁))
    (hfeed : top.feed ask r₁ st₁ = (none, st₂)) :
    rise ask (stations ++ [top]) r st = ((none, stations' ++ [top]), st₂) := by
  rw [rise_append]
  simp only [bind, StateT.bind, h, rise_apply, hfeed]
  rfl

theorem rise_above_some (h : rise ask stations r st = ((some r₁, stations'), st₁))
    (hfeed : top.feed ask r₁ st₁ = (some r₂, st₂)) :
    rise ask (stations ++ [top]) r st = ((some r₂, stations' ++ [top.observe r₂]), st₂) := by
  rw [rise_append]
  simp only [bind, StateT.bind, h, rise_apply, hfeed]
  rfl

theorem giveTo_none {s : Stream L} (hfeed : top.feed ask r₁ st₁ = (none, st₂)) :
    giveTo ask top (r₁, s) st₁ = (s.above top).pull ask st₂ := by
  simp only [giveTo, bind, StateT.bind, hfeed]

theorem giveTo_some {s : Stream L} (hfeed : top.feed ask r₁ st₁ = (some r₂, st₂)) :
    giveTo ask top (r₁, s) st₁ = ((r₂, s.above (top.observe r₂)), st₂) := by
  simp only [giveTo, bind, StateT.bind, hfeed]
  rfl

theorem giveTo_error (s : Stream L) (e : EvalError) (st : S) :
    giveTo ask top (.error e, s) st = ((.error e, s.above top), st) := by
  have hfeed : top.feed ask (.error e) st = (some (.error e), st) := rfl
  rw [giveTo_some ask hfeed, observe_of_ne rfl]

theorem draw_dropped {src : Source} {rest : List (Next Tuple)}
    (h : rise ask stations r st = ((none, stations'), st₁)) :
    draw ask src (r :: rest) stations st = draw ask src rest stations' st₁ := by
  simp only [draw, bind, StateT.bind, h]

theorem draw_given {src : Source} {rest : List (Next Tuple)}
    (h : rise ask stations r st = ((some r₁, stations'), st₁)) :
    draw ask src (r :: rest) stations st =
      ((r₁, ⟨{ src with remaining := rest }, stations'⟩), st₁) := by
  simp only [draw, bind, StateT.bind, h]
  rfl

/-- What is drawn from a source through one more station is what is drawn from it without the station,
given to the station. -/
theorem draw_above (hopen : ∀ s ∈ stations ++ [top], s.exhausted = false) (src : Source)
    (results : List (Next Tuple)) (st : S) :
    draw ask src results (stations ++ [top]) st =
      (draw ask src results stations >>= giveTo ask top) st := by
  induction results generalizing st with
  | nil =>
      cases hdone : src.exhausted with
      | true =>
          rw [draw_exhausted ask hdone (rise_error ask _ _),
            draw_exhausted ask hdone (rise_error ask _ _), pure_bind,
            Option.getD_some, giveTo_error]
          rfl
      | false =>
          have hfeed : top.feed ask .endOfData st = (some .endOfData, st) := rfl
          rw [draw_nil ask hdone (rise_ended ask _), draw_nil ask hdone (rise_ended ask _),
            pure_bind, Option.getD_some, giveTo_some ask hfeed, List.map_append]
          rfl
  | cons r rest ih =>
      show _ = giveTo ask top (draw ask src (r :: rest) stations st).1
        (draw ask src (r :: rest) stations st).2
      rcases hrise : rise ask stations r st with ⟨⟨_ | r₁, stations'⟩, st₁⟩
      · obtain rfl := rise_keeps ask hrise nofun
        rw [draw_dropped ask hrise, draw_dropped ask (rise_above_none ask hrise)]
        exact ih st₁
      · rw [draw_given ask hrise]
        rcases hfeed : top.feed ask r₁ st₁ with ⟨_ | r₂, st₂⟩
        · -- what a station drops is not the end of the data
          have hkeep : stations' = stations := rise_keeps ask hrise <| by
            rintro r ⟨⟩
            cases r₁ <;> first | rfl | cases hfeed
          subst hkeep
          rw [draw_dropped ask (rise_above_dropped ask hrise hfeed), giveTo_none ask hfeed,
            pull_of_open ask hopen]
          exact congrFun (draw_remaining ask src rest rest _).symm st₂
        · rw [draw_given ask (rise_above_some ask hrise hfeed), giveTo_some ask hfeed]
          rfl

/-- A pull of a stream with one more station is a pull of the stream, given to the station. -/
theorem pull_above (hopen : top.exhausted = false) (s : Stream L) :
    (s.above top).pull ask = s.pull ask >>= giveTo ask top := by
  funext st
  have hfind : (s.above top).stations.reverse.find? Station.exhausted =
      s.stations.reverse.find? Station.exhausted := by
    rw [above, List.reverse_append, List.reverse_singleton, List.singleton_append,
      List.find?_cons_of_neg (by simp [hopen])]
  simp only [pull, hfind]
  cases hs : s.stations.reverse.find? Station.exhausted with
  | none =>
      refine draw_above ask ?_ s.source s.source.remaining st
      intro station hstation
      simpa using List.find?_eq_none.mp (hfind.trans hs) station (List.mem_reverse.mpr hstation)
  | some station =>
      rw [pure_bind, giveTo_error]
      rfl

theorem length_remaining_draw {src : Source} {results : List (Next Tuple)} {s : Stream L}
    (h : draw ask src results stations st = ((r, s), st₁)) (hr : r.isOk = true ∨ r = .null) :
    s.source.remaining.length < results.length := by
  induction results generalizing stations st with
  | nil =>
      exfalso
      cases hdone : src.exhausted with
      | true =>
          rw [draw_exhausted ask hdone (rise_error ask _ _)] at h
          cases h
          simp [Next.isOk] at hr
      | false =>
          rw [draw_nil ask hdone (rise_ended ask _)] at h
          cases h
          simp [Next.isOk] at hr
  | cons r₀ rest ih =>
      rcases hrise : rise ask stations r₀ st with ⟨⟨_ | r₁, stations'⟩, st'⟩
      · rw [draw_dropped ask hrise] at h
        exact Nat.lt_succ_of_lt (ih h)
      · rw [draw_given ask hrise] at h
        cases h
        exact Nat.lt_succ_self _

theorem length_remaining_pull {s s' : Stream L} (h : s.pull ask st = ((r, s'), st₁))
    (hr : r.isOk = true ∨ r = .null) :
    s'.source.remaining.length < s.source.remaining.length := by
  cases hfind : s.stations.reverse.find? Station.exhausted with
  | none =>
      simp only [pull, hfind] at h
      exact length_remaining_draw ask h hr
  | some station =>
      simp only [pull, hfind] at h
      cases h
      simp [Next.isOk] at hr

end Draw
end Above
end Stream

/-! ## What a station receives -/

/-- What a station receives from beneath, and what its expressions make of it. -/
structure Received where
  below : Next Tuple
  values : List (Next Value)

/-- A pull of a station: what it received, and what it gave. -/
structure Turn where
  received : List Received
  result : Next Tuple

namespace Station
variable {L : Type}

/-- The expressions, in the order in which they are pulled. -/
def expressions (s : Station L) : List (Expr L) :=
  match s.transform with
  | .filter condition => [condition]
  | .project columns => columns

/-- The tuple of the values of the columns, or the signal that ended them. -/
def fields : List (Next Value) → Next Tuple
  | [] => .ok []
  | .ok v :: rest => (fields rest).map (v :: ·)
  | .null :: rest => (fields rest).map (.null :: ·)
  | .endOfData :: _ => .endOfData
  | .error e :: _ => .error e

/-- What a station gives for what it has received; nothing means that it asks for more. -/
def verdict (s : Station L) : Received → Option (Next Tuple)
  | ⟨.ok t, values⟩ =>
    match s.transform with
    | .filter _ => values.head?.bind (filterResult s.key t)
    | .project _ => some (fields values)
  | ⟨.null, _⟩ =>
    match s.transform with
    | .filter _ => none
    | .project _ => some .null
  | ⟨.endOfData, _⟩ => some .endOfData
  | ⟨.error e, _⟩ => some (.error e)

section Feed
variable {m : Type → Type} [Monad m] (ask : L → Tuple → m (Next Value))

/-- Pulls expressions, up to the first that gives the end of the data or an error. -/
def gather (t : Tuple) : List (Expr L) → m (List (Next Value))
  | [] => pure []
  | e :: rest => do
    match ← e.pull ask t with
    | .ok v => return .ok v :: (← gather t rest)
    | .null => return .null :: (← gather t rest)
    | .endOfData => return [.endOfData]
    | .error e => return [.error e]

/-- Takes a result from beneath and pulls the expressions on a tuple. -/
def receive (s : Station L) : Next Tuple → m Received
  | .ok t => return ⟨.ok t, ← gather ask t s.expressions⟩
  | .null => return ⟨.null, []⟩
  | .endOfData => return ⟨.endOfData, []⟩
  | .error e => return ⟨.error e, []⟩

variable [LawfulMonad m]

theorem columnValues_eq (t : Tuple) (columns : List (Expr L)) :
    columnValues ask t columns = fields <$> gather ask t columns := by
  induction columns with
  | nil => simp [columnValues, gather, fields]
  | cons c rest ih =>
      simp only [columnValues, gather, map_eq_pure_bind, bind_assoc] at ih ⊢
      congr 1
      funext r
      cases r <;> simp [ih, fields]

/-- What a station makes of a result is what it gives for what it receives with it. -/
theorem feed_eq (s : Station L) (r : Next Tuple) :
    s.feed ask r = s.verdict <$> s.receive ask r := by
  obtain ⟨key, transform, exhausted⟩ := s
  cases r with
  | ok t =>
      cases transform with
      | filter condition =>
          simp only [feed, receive, expressions, gather, map_eq_pure_bind, bind_assoc]
          congr 1
          funext r
          cases r <;> simp [verdict, filterResult]
      | project columns =>
          simp only [feed, receive, expressions, columnValues_eq]
          simp [verdict]
  | null => cases transform <;> simp [feed, receive, verdict]
  | endOfData => simp [feed, receive, verdict]
  | error e => simp [feed, receive, verdict]

end Feed

/-! ## Pulls on record -/

section Histories
variable {S : Type} (ask : L → Tuple → StateM S (Next Value)) (top : Station L)

/-- One pull of a station that is open, above a stream and with a state of the leaves: the stream is
pulled until the station gives something. -/
inductive Serves : Stream L → S → List Received → Next Tuple → Stream L → S → Prop
  | give {s s' : Stream L} {st st₁ st₂ : S} {r r' : Next Tuple} {got : Received} :
      s.pull ask st = ((r, s'), st₁) → top.receive ask r st₁ = (got, st₂) →
      top.verdict got = some r' → Serves s st [got] r' s' st₂
  | drop {s s' s'' : Stream L} {st st₁ st₂ st₃ : S} {r r' : Next Tuple} {got : Received}
      {more : List Received} :
      s.pull ask st = ((r, s'), st₁) → top.receive ask r st₁ = (got, st₂) →
      top.verdict got = none → Serves s' st₂ more r' s'' st₃ →
      Serves s st (got :: more) r' s'' st₃

/-- A history of pulls of a station.  Behind the end of the data it pulls nothing. -/
inductive History : Stream L → S → List Turn → Stream L → S → Prop
  | nil {s : Stream L} {st : S} : History s st [] s st
  | more {s s' s'' : Stream L} {st st₁ st₂ : S} {turn : Turn} {turns : List Turn} :
      Serves ask top s st turn.received turn.result s' st₁ → turn.result.isEndOfData = false →
      History s' st₁ turns s'' st₂ → History s st (turn :: turns) s'' st₂
  | ended {s s' : Stream L} {st st₁ : S} {received : List Received} (n : Nat) :
      Serves ask top s st received .endOfData s' st₁ →
      History s st (⟨received, .endOfData⟩ ::
        List.replicate n ⟨[], .error (.exhausted top.key)⟩) s' st₁

variable {ask top}

theorem below_of_receive {r : Next Tuple} {got : Received} {st st' : S}
    (h : top.receive ask r st = (got, st')) : got.below = r := by
  cases r <;> cases h <;> rfl

theorem feed_of_receive {r : Next Tuple} {got : Received} {st st' : S}
    (h : top.receive ask r st = (got, st')) : top.feed ask r st = (top.verdict got, st') := by
  rw [feed_eq]
  show (top.verdict (top.receive ask r st).1, (top.receive ask r st).2) = _
  rw [h]

theorem Serves.pull {s s' : Stream L} {st st' : S} {received : List Received} {r : Next Tuple}
    (hopen : top.exhausted = false) (h : Serves ask top s st received r s' st') :
    (s.above top).pull ask st = ((r, s'.above (top.observe r)), st') := by
  induction h with
  | give hpull hreceive hverdict =>
      rw [Stream.pull_above ask hopen]
      show Stream.giveTo ask top (Stream.pull ask _ _).1 (Stream.pull ask _ _).2 = _
      rw [hpull]
      exact Stream.giveTo_some ask (hverdict ▸ feed_of_receive hreceive)
  | drop hpull hreceive hverdict _ ih =>
      rw [Stream.pull_above ask hopen]
      show Stream.giveTo ask top (Stream.pull ask _ _).1 (Stream.pull ask _ _).2 = _
      rw [hpull, Stream.giveTo_none ask (hverdict ▸ feed_of_receive hreceive)]
      exact ih

theorem isOk_of_verdict_eq_none {r : Next Tuple} {got : Received} {st st' : S}
    (hreceive : top.receive ask r st = (got, st')) (h : top.verdict got = none) :
    r.isOk = true ∨ r = .null := by
  cases r with
  | ok t => exact .inl rfl
  | null => exact .inr rfl
  | endOfData | error e =>
      cases hreceive
      cases h

variable (ask top) in
/-- An open station serves every pull, since the source has only so much to drop. -/
theorem exists_serves (s : Stream L) (st : S) :
    ∃ received r s' st', Serves ask top s st received r s' st' := by
  induction hn : s.source.remaining.length using Nat.strong_induction_on generalizing s st with
  | _ n ih =>
    rcases hpull : s.pull ask st with ⟨⟨r, s'⟩, st₁⟩
    rcases hreceive : top.receive ask r st₁ with ⟨got, st₂⟩
    cases hverdict : top.verdict got with
    | some r' => exact ⟨_, _, _, _, .give hpull hreceive hverdict⟩
    | none =>
        have hlt := Stream.length_remaining_pull ask hpull (isOk_of_verdict_eq_none hreceive hverdict)
        obtain ⟨more, r', s'', st', hserves⟩ := ih _ (hn ▸ hlt) s' st₂ rfl
        exact ⟨_, _, _, _, .drop hpull hreceive hverdict hserves⟩

variable (ask top) in
theorem exists_history (n : Nat) (s : Stream L) (st : S) :
    ∃ turns s' st', turns.length = n ∧ History ask top s st turns s' st' := by
  induction n generalizing s st with
  | zero => exact ⟨_, _, _, rfl, .nil⟩
  | succ n ih =>
      obtain ⟨received, r, s', st₁, hserves⟩ := exists_serves ask top s st
      cases hend : r.isEndOfData with
      | true =>
          obtain rfl := Next.eq_endOfData hend
          exact ⟨_, _, _, by simp, .ended n hserves⟩
      | false =>
          obtain ⟨turns, s'', st₂, hlength, hturns⟩ := ih s' st₁
          exact ⟨⟨received, r⟩ :: turns, _, _, by simp [hlength], .more hserves hend hturns⟩

def after (s : Station L) (turns : List Turn) : Station L :=
  { s with exhausted := s.exhausted || turns.any fun turn => turn.result.isEndOfData }

theorem History.pullTimes {s s' : Stream L} {st st' : S} {turns : List Turn}
    (hopen : top.exhausted = false) (h : History ask top s st turns s' st') :
    (s.above top).pullTimes ask turns.length st =
      ((turns.map Turn.result, s'.above (top.after turns)), st') := by
  induction h with
  | nil =>
      rw [after, List.any_nil, Bool.or_false]
      rfl
  | @more s s' s'' st st₁ st₂ turn turns hserves hend hhistory ih =>
      have hafter : top.after (turn :: turns) = top.after turns := by simp [after, hend]
      have hpull := hserves.pull hopen
      rw [StationSpec.observe_of_ne hend] at hpull
      rw [hafter]
      simp only [List.length_cons, Stream.pullTimes, bind, StateT.bind, hpull, ih]
      rfl
  | ended n hserves =>
      have hdone : (top.observe .endOfData).exhausted = true := by simp [observe, Next.isEndOfData]
      have hafter : ∀ received, top.after (⟨received, .endOfData⟩ ::
          List.replicate n ⟨[], .error (.exhausted top.key)⟩) = top.observe .endOfData := by
        simp [after, observe, Next.isEndOfData]
      rw [hafter, List.length_cons, List.length_replicate]
      simp only [Stream.pullTimes, bind, StateT.bind, hserves.pull hopen,
        Stream.pullTimes_above_exhausted ask hdone, List.map_cons, List.map_replicate]
      rfl

end Histories
end Station
end Dataflow
