import Dataflow.Eval.Stream
import Dataflow.Proofs.Eval.Denotation
/-!
# What a pipeline computes

A pipeline is a stream over rows held in memory whose stations are described.  Row by row, each
station keeps a tuple, replaces it, drops it or fails on it; what is collected are the rows that got
through all of them, in their order, or the first failure.

One pull takes rows from the source until one of them is not dropped, so a pull of a pipeline whose
first row is dropped is a pull of the pipeline without that row.  The loop that collects is therefore
followed row by row, and no account of the skipping inside a pull is needed.  The stations stay as
they were all the while: only the end of the data changes them.

**Proved here.**

    one row, by what the stations make of it          (`rise_row`, `pull_cons`)
    the end of the data closes every operator         (`pull_nil`, `pull_closed`)
    the loop ends, with the rows that got through     (`collects_pipeline`, `Stream.collect_computes`)
-/
namespace Dataflow

/-- What a station does, by descriptions; each expression comes with the keys it is built from. -/
inductive TransformSpec where
  | filter (condition : ExprSpec) (keys : KeySupply)
  | project (columns : List (ExprSpec × KeySupply))

/-- A station, by descriptions. -/
structure StationSpec where
  key : Key
  transform : TransformSpec

namespace StationSpec

variable {L : Type}

def build : TransformSpec → Transform L
  | .filter condition keys => .filter (condition.build keys).1
  | .project columns => .project (columns.map fun c => (c.1.build c.2).1)

def station (s : StationSpec) : Station L := ⟨s.key, build s.transform, false⟩

def closed (s : StationSpec) : Station L := ⟨s.key, build s.transform, true⟩

/-- The field that a column adds to a tuple: a null is a null field. -/
def field (t : Tuple) (c : ExprSpec × KeySupply) : Except EvalError Value :=
  match c.1.denote c.2.scope c.2.next t with
  | .value v => .ok v
  | .null => .ok .null
  | .error e => .error e

/-- What a station makes of one tuple: nothing when it is dropped. -/
def row (s : StationSpec) (t : Tuple) : Except EvalError (Option Tuple) :=
  match s.transform with
  | .filter condition keys =>
    match condition.denote keys.scope keys.next t with
    | .value (.boolean b) => .ok (if b then some t else none)
    | .value v => .error (.typeMismatch s.key .boolean v.dataType)
    | .null => .ok none
    | .error e => .error e
  | .project columns => (columns.mapM (field t)).map some

/-- What stations make of one tuple, the nearest first. -/
def through : List StationSpec → Tuple → Except EvalError (Option Tuple)
  | [], t => .ok (some t)
  | s :: above, t =>
    match s.row t with
    | .ok none => .ok none
    | .ok (some t) => through above t
    | .error e => .error e

/-- The rows that get through, in their order, or the failure of the first row that fails. -/
def survivors (specs : List StationSpec) (rows : List Tuple) : Except EvalError (List Tuple) :=
  (rows.mapM (through specs)).map List.reduceOption

/-- The key of the outermost operator of a pipeline. -/
def topKey (source : Key) (specs : List StationSpec) : Key :=
  ((specs.map StationSpec.key).getLast?).getD source

theorem survivors_cons (specs : List StationSpec) (t : Tuple) (rows : List Tuple) :
    survivors specs (t :: rows) =
      match through specs t with
      | .ok none => survivors specs rows
      | .ok (some t) => (survivors specs rows).map (t :: ·)
      | .error e => .error e := by
  simp only [survivors, List.mapM_cons]
  cases through specs t with
  | ok kept => cases kept <;> cases rows.mapM (through specs) <;> rfl
  | error e => rfl

/-! ## One row -/

/-- What is passed on of a row. -/
def signal : Except EvalError (Option Tuple) → Option (Next Tuple)
  | .ok none => none
  | .ok (some t) => some (.ok t)
  | .error e => some (.error e)

section Rows
variable {m : Type → Type} [Monad m] [LawfulMonad m] (ask : L → Tuple → m (Next Value))

theorem columnValues_build (columns : List (ExprSpec × KeySupply)) (t : Tuple) :
    Station.columnValues ask t (columns.map fun c => (c.1.build c.2).1) =
      pure (match columns.mapM (field t) with
        | .ok fields => .ok fields
        | .error e => .error e) := by
  induction columns with
  | nil => rfl
  | cons c rest ih =>
      rw [List.map_cons, Station.columnValues, ExprSpec.pull_build, pure_bind, List.mapM_cons, field]
      cases c.1.denote c.2.scope c.2.next t with
      | value v =>
          simp only [Denoted.toNext]
          rw [ih, pure_bind]
          cases rest.mapM (field t) <;> rfl
      | null =>
          simp only [Denoted.toNext]
          rw [ih, pure_bind]
          cases rest.mapM (field t) <;> rfl
      | error e => rfl

theorem feed_row (s : StationSpec) (t : Tuple) :
    (s.station : Station L).feed ask (.ok t) = pure (signal (s.row t)) := by
  obtain ⟨key, transform⟩ := s
  cases transform with
  | filter condition keys =>
      show (do return Station.filterResult key t (← (condition.build keys).1.pull ask t)) = _
      rw [ExprSpec.pull_build, pure_bind]
      simp only [row]
      cases condition.denote keys.scope keys.next t with
      | value v =>
          cases v with
          | boolean b => cases b <;> rfl
          | _ => rfl
      | null => rfl
      | error e => rfl
  | project columns =>
      show (do return some (← Station.columnValues ask t _)) = _
      rw [columnValues_build, pure_bind]
      simp only [row]
      cases columns.mapM (field t) <;> rfl

theorem rise_cons {s : Station L} {above above' : List (Station L)} {r r' : Next Tuple}
    {top : Option (Next Tuple)} (hfeed : s.feed ask r = pure (some r'))
    (habove : Stream.rise ask above r' = pure (top, above')) :
    Stream.rise ask (s :: above) r = pure (top, s.observe r' :: above') := by
  rw [Stream.rise, hfeed, pure_bind]
  simp only [habove, pure_bind]

theorem observe_of_ne {s : Station L} {r : Next Tuple} (h : r.isEndOfData = false) :
    s.observe r = s := by
  simp [Station.observe, h]

theorem rise_error (stations : List (Station L)) (e : EvalError) :
    Stream.rise ask stations (.error e) = pure (some (.error e), stations) := by
  induction stations with
  | nil => rfl
  | cons s above ih =>
      rw [rise_cons ask rfl ih, observe_of_ne rfl]

/-- A row leaves the stations as they are. -/
theorem rise_row (specs : List StationSpec) (t : Tuple) :
    Stream.rise ask (specs.map station) (.ok t) =
      pure (signal (through specs t), specs.map station) := by
  induction specs generalizing t with
  | nil => rfl
  | cons s above ih =>
      have hfeed := feed_row ask s t
      rw [List.map_cons, through]
      cases hrow : s.row t with
      | ok kept =>
          rw [hrow] at hfeed
          cases kept with
          | none =>
              rw [Stream.rise, hfeed, pure_bind]
              rfl
          | some t' => rw [rise_cons ask hfeed (ih t'), observe_of_ne rfl]
      | error e =>
          rw [hrow] at hfeed
          rw [rise_cons ask hfeed (rise_error ask _ e), observe_of_ne rfl]
          rfl

theorem rise_ended (stations : List (Station L)) :
    Stream.rise ask stations .endOfData =
      pure (some .endOfData, stations.map (Station.observe · .endOfData)) := by
  induction stations with
  | nil => rfl
  | cons s above ih => rw [rise_cons ask rfl ih, List.map_cons]

/-- The end of the data closes every station. -/
theorem rise_endOfData (specs : List StationSpec) :
    Stream.rise ask (specs.map station) .endOfData =
      pure (some .endOfData, specs.map closed) := by
  rw [rise_ended, List.map_map]
  rfl

end Rows
end StationSpec

namespace Stream

open StationSpec

/-! ## One pull -/

section Pulls
variable {L : Type} {m : Type → Type} [Monad m] [LawfulMonad m] (ask : L → Tuple → m (Next Value))

/-- A source of rows with stations above it. -/
def pipeline (key : Key) (rows : List Tuple) (specs : List StationSpec) : Stream L :=
  ⟨.ofRows key rows, specs.map station⟩

/-- A pipeline that has reported the end of its data. -/
def closedPipeline (key : Key) (specs : List StationSpec) : Stream L :=
  ⟨⟨key, .rows, [], true⟩, specs.map closed⟩

omit [LawfulMonad m] in
theorem pull_of_open {s : Stream L} (h : ∀ station ∈ s.stations, station.exhausted = false) :
    s.pull ask = draw ask s.source s.source.remaining s.stations := by
  have hnone : s.stations.reverse.find? Station.exhausted = none := by
    rw [List.find?_eq_none]
    intro station hstation
    simp [h station (List.mem_reverse.mp hstation)]
  simp only [pull, hnone]

theorem open_stations (specs : List StationSpec) :
    ∀ s ∈ (specs.map station : List (Station L)), s.exhausted = false := by
  intro s hs
  obtain ⟨spec, -, rfl⟩ := List.mem_map.mp hs
  rfl

omit [LawfulMonad m] in
theorem draw_remaining (src : Source) (whole results : List (Next Tuple))
    (stations : List (Station L)) :
    draw ask { src with remaining := whole } results stations = draw ask src results stations := by
  induction results generalizing stations with
  | nil => rfl
  | cons r rest ih => simp only [draw, ih]

section Draw
variable {src : Source} {stations stations' : List (Station L)} {top : Option (Next Tuple)}

theorem draw_nil (hopen : src.exhausted = false)
    (h : rise ask stations .endOfData = pure (top, stations')) :
    draw ask src [] stations = pure (top.getD .null,
      ⟨{ src with remaining := [], exhausted := decide (src.kind = .rows) }, stations'⟩) := by
  rw [draw, h, pure_bind]
  simp [hopen]

theorem draw_exhausted (hdone : src.exhausted = true)
    (h : rise ask stations (.error (.exhausted src.key)) = pure (top, stations')) :
    draw ask src [] stations =
      pure (top.getD .null, ⟨{ src with remaining := [] }, stations'⟩) := by
  rw [draw, h, pure_bind]
  simp [hdone]

theorem draw_some {r result : Next Tuple} {rest : List (Next Tuple)}
    (h : rise ask stations r = pure (some result, stations')) :
    draw ask src (r :: rest) stations =
      pure (result, ⟨{ src with remaining := rest }, stations'⟩) := by
  rw [draw, h, pure_bind]

theorem draw_none {r : Next Tuple} {rest : List (Next Tuple)}
    (h : rise ask stations r = pure (none, stations')) :
    draw ask src (r :: rest) stations = draw ask src rest stations' := by
  rw [draw, h, pure_bind]

end Draw

theorem pull_nil (key : Key) (specs : List StationSpec) :
    (pipeline key [] specs : Stream L).pull ask = pure (.endOfData, closedPipeline key specs) := by
  rw [pull_of_open ask (open_stations specs)]
  exact draw_nil ask rfl (rise_endOfData ask specs)

/-- A row that gets through, or on which a station fails, ends a pull; one that is dropped does not
count. -/
theorem pull_cons (key : Key) (t : Tuple) (rows : List Tuple) (specs : List StationSpec) :
    (pipeline key (t :: rows) specs : Stream L).pull ask =
      match through specs t with
      | .ok none => (pipeline key rows specs).pull ask
      | .ok (some t) => pure (.ok t, pipeline key rows specs)
      | .error e => pure (.error e, pipeline key rows specs) := by
  have hrise := rise_row ask specs t
  rw [pull_of_open ask (open_stations specs), pull_of_open ask (open_stations specs)]
  cases hrow : through specs t with
  | ok kept =>
      rw [hrow] at hrise
      cases kept with
      | none => exact (draw_none ask hrise).trans (draw_remaining ask (.ofRows key rows) _ _ _)
      | some t' => exact draw_some ask hrise
  | error e =>
      rw [hrow] at hrise
      exact draw_some ask hrise

/-- Behind the end of the data, a pull is an error of the outermost operator. -/
theorem pull_closed (key : Key) (specs : List StationSpec) :
    (closedPipeline key specs : Stream L).pull ask =
      pure (.error (.exhausted (topKey key specs)), closedPipeline key specs) := by
  rcases specs.eq_nil_or_concat' with rfl | ⟨below, top, rfl⟩
  · have hdone : (⟨key, .rows, [], true⟩ : Source).exhausted = true := rfl
    have hrise : rise ask ([] : List (Station L)) (.error (.exhausted key)) =
        pure (some (.error (.exhausted key)), []) := rfl
    exact draw_exhausted ask hdone hrise
  · have hfind : (closedPipeline key (below ++ [top]) : Stream L).stations.reverse.find?
        Station.exhausted = some top.closed := by
      simp [closedPipeline, closed]
    have htop : topKey key (below ++ [top]) = top.key := by simp [topKey]
    simp only [pull, hfind, htop]
    rfl

theorem pullTimes_closed (key : Key) (specs : List StationSpec) (n : Nat) :
    (closedPipeline key specs : Stream L).pullTimes ask n =
      pure (List.replicate n (.error (.exhausted (topKey key specs))), closedPipeline key specs) := by
  induction n with
  | zero => rfl
  | succ n ih =>
      rw [pullTimes, pull_closed, pure_bind]
      simp only [ih, pure_bind]
      rfl

/-! ## The whole loop -/

/-- The loop that collects, turn by turn: pulling `s` until it ends gives `r` and leaves `s'`. -/
inductive Collects : Stream L → Except EvalError (List Tuple) → Stream L → Prop
  | done {s s' : Stream L} : s.pull ask = pure (.endOfData, s') → Collects s (.ok []) s'
  | fail {s s' : Stream L} {e : EvalError} :
      s.pull ask = pure (.error e, s') → Collects s (.error e) s'
  | skip {s s' s'' : Stream L} {r : Except EvalError (List Tuple)} :
      s.pull ask = pure (.null, s') → Collects s' r s'' → Collects s r s''
  | keep {s s' s'' : Stream L} {t : Tuple} {r : Except EvalError (List Tuple)} :
      s.pull ask = pure (.ok t, s') → Collects s' r s'' → Collects s (r.map (t :: ·)) s''

omit [LawfulMonad m] in
theorem Collects.of_pull_eq {s s' s'' : Stream L} {r : Except EvalError (List Tuple)}
    (hpull : s.pull ask = s'.pull ask) (h : Collects ask s' r s'') : Collects ask s r s'' := by
  cases h with
  | done h => exact .done (hpull.trans h)
  | fail h => exact .fail (hpull.trans h)
  | skip h hrest => exact .skip (hpull.trans h) hrest
  | keep h hrest => exact .keep (hpull.trans h) hrest

/-- The loop needs no more turns than there are rows, and one. -/
theorem collects_pipeline (key : Key) (rows : List Tuple) (specs : List StationSpec) :
    ∃ final : Stream L, Collects ask (pipeline key rows specs) (survivors specs rows) final ∧
      (∀ turns, rows.length < turns → (pipeline key rows specs).collectWithin ask turns =
        pure (survivors specs rows, final)) ∧
      ∀ ts, survivors specs rows = .ok ts → final = closedPipeline key specs := by
  induction rows with
  | nil =>
      refine ⟨closedPipeline key specs, .done (pull_nil ask key specs), ?_, fun _ _ => rfl⟩
      intro turns hturns
      obtain ⟨turns, rfl⟩ := Nat.exists_eq_succ_of_ne_zero (Nat.ne_of_gt hturns)
      rw [collectWithin, pull_nil, pure_bind]
      rfl
  | cons t rows ih =>
      obtain ⟨final, hcollects, hwithin, hclosed⟩ := ih
      have hpull := pull_cons ask key t rows specs
      rw [survivors_cons]
      cases hrow : through specs t with
      | error e =>
          rw [hrow] at hpull
          refine ⟨pipeline key rows specs, .fail hpull, ?_, nofun⟩
          intro turns hturns
          obtain ⟨turns, rfl⟩ := Nat.exists_eq_succ_of_ne_zero (Nat.ne_zero_of_lt hturns)
          rw [collectWithin, hpull, pure_bind]
      | ok kept =>
          rw [hrow] at hpull
          cases kept with
          | none =>
              -- the pull is the one of the rows that are left
              refine ⟨final, hcollects.of_pull_eq ask hpull, ?_, hclosed⟩
              intro turns hturns
              have hrest := hwithin turns (Nat.lt_of_succ_lt hturns)
              obtain ⟨turns, rfl⟩ := Nat.exists_eq_succ_of_ne_zero (Nat.ne_zero_of_lt hturns)
              rw [collectWithin] at hrest ⊢
              rw [hpull, hrest]
          | some t' =>
              refine ⟨final, .keep hpull hcollects, ?_, ?_⟩
              · intro turns hturns
                obtain ⟨turns, rfl⟩ := Nat.exists_eq_succ_of_ne_zero (Nat.ne_zero_of_lt hturns)
                rw [collectWithin, hpull, pure_bind]
                simp only [hwithin turns (Nat.lt_of_succ_lt_succ hturns), pure_bind]
              · intro ts hts
                cases hrest : survivors specs rows with
                | ok rest => exact hclosed rest hrest
                | error e =>
                    rw [hrest] at hts
                    cases hts

/-- Collecting from a pipeline comes to an end, with the rows that get through its stations or with
the failure of the first row that fails.  When nothing has failed, all further pulls are errors of the
outermost operator. -/
theorem collect_computes (key : Key) (rows : List Tuple) (specs : List StationSpec) :
    ∃ final : Stream L, Collects ask (pipeline key rows specs) (survivors specs rows) final ∧
      (pipeline key rows specs).collect ask = pure (survivors specs rows, final) ∧
      ∀ ts, survivors specs rows = .ok ts → ∀ n, final.pullTimes ask n =
        pure (List.replicate n (.error (.exhausted (topKey key specs))), final) := by
  obtain ⟨final, hcollects, hwithin, hclosed⟩ := collects_pipeline ask key rows specs
  refine ⟨final, hcollects, hwithin _ ?_, ?_⟩
  · simp [pipeline, Source.ofRows]
  · intro ts hts n
    rw [hclosed ts hts]
    exact pullTimes_closed ask key specs n

end Pulls

/-- Keeps the rows whose first field exceeds a bound, and of these the second field and a test of
it. -/
def trimming : List StationSpec :=
  [⟨⟨"r", 2⟩, .filter (.compare .gt (.column 0 .long) (.const (.int 3))) ⟨"r", 3⟩⟩,
    ⟨⟨"r", 6⟩, .project [(.column 1 .unknown, ⟨"r", 7⟩), (.isNull (.column 1 .unknown), ⟨"r", 8⟩)]⟩]

theorem trimming_collects :
    ∃ final : Stream ScriptRef,
      (pipeline ⟨"r", 1⟩ [[.long 5, .null], [.long 1, .boolean true], [.long 9, .boolean false]]
        trimming).collect Script.ask =
          pure (.ok [[.null, .boolean true], [.boolean false, .boolean false]], final) ∧
      final.pullTimes Script.ask 2 = pure (List.replicate 2 (.error (.exhausted ⟨"r", 6⟩)), final) := by
  obtain ⟨final, -, hcollect, hpulls⟩ := collect_computes Script.ask ⟨"r", 1⟩
    [[.long 5, .null], [.long 1, .boolean true], [.long 9, .boolean false]] trimming
  exact ⟨final, hcollect, hpulls _ rfl 2⟩

end Stream
end Dataflow
