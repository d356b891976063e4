import Dataflow.Eval.Expr
/-!
# Streams of tuples

A stream is a source of tuples and a row of stations above it, each a filter or a projection.  A
pull takes a result from the source and lets it rise through the stations; a station that drops the
result has the source pulled again.  A station or a source of rows that has reported the end of its
data must not be pulled again: from then on it answers with an error and nothing beneath it is
touched.
-/
namespace Dataflow

/-- What happens after the last result of a source. -/
inductive SourceKind where
  /-- Rows held in memory: the end of the data is reported once. -/
  | rows
  /-- A script of results: the end of the data is reported for ever. -/
  | script
  deriving DecidableEq

/-- The beginning of a stream. -/
structure Source where
  key : Key
  kind : SourceKind
  remaining : List (Next Tuple)
  exhausted : Bool := false

namespace Source

def ofRows (key : Key) (rows : List Tuple) : Source := ⟨key, .rows, rows.map .ok, false⟩

def ofScript (key : Key) (results : List (Next Tuple)) : Source := ⟨key, .script, results, false⟩

def name (s : Source) : String :=
  (match s.kind with
    | .rows => "Source"
    | .script => "Scripted") ++ "[bag] - " ++ s.key.text

end Source

/-- What a station does with a tuple. -/
inductive Transform (L : Type) where
  /-- Keeps the tuples for which the condition is true. -/
  | filter (condition : Expr L)
  /-- Replaces a tuple by the values of the columns. -/
  | project (columns : List (Expr L))

/-- A station of a stream. -/
structure Station (L : Type) where
  key : Key
  transform : Transform L
  exhausted : Bool := false

/-- A source and the stations above it, the nearest first. -/
structure Stream (L : Type) where
  source : Source
  stations : List (Station L) := []

namespace Station

variable {L : Type}

def name (s : Station L) : String :=
  (match s.transform with
    | .filter _ => "Filter"
    | .project _ => "ForEach") ++ "[bag] - " ++ s.key.text

variable {m : Type → Type} [Monad m]

/-- What a filter makes of a tuple; nothing means that the tuple is dropped. -/
def filterResult (key : Key) (t : Tuple) : Next Value → Option (Next Tuple)
  | .ok (.boolean true) => some (.ok t)
  | .ok (.boolean false) => none
  | .null => none
  | .ok v => some (.error (.typeMismatch key .boolean v.dataType))
  | .endOfData => some .endOfData
  | .error e => some (.error e)

/-- The values of the columns for a tuple, with a null field for a null; the first other signal ends
the evaluation. -/
def columnValues (ask : L → Tuple → m (Next Value)) (t : Tuple) :
    List (Expr L) → m (Next Tuple)
  | [] => pure (.ok [])
  | c :: rest => do
    match ← c.pull ask t with
    | .ok v => return (← columnValues ask t rest).map (v :: ·)
    | .null => return (← columnValues ask t rest).map (.null :: ·)
    | .endOfData => return .endOfData
    | .error e => return .error e

/-- What a station makes of a result from beneath; nothing means that it asks for another one. -/
def feed (ask : L → Tuple → m (Next Value)) (s : Station L) :
    Next Tuple → m (Option (Next Tuple))
  | .ok t =>
    match s.transform with
    | .filter condition => return filterResult s.key t (← condition.pull ask t)
    | .project columns => return some (← columnValues ask t columns)
  | .null =>
    match s.transform with
    | .filter _ => pure none
    | .project _ => pure (some .null)
  | .endOfData => pure (some .endOfData)
  | .error e => pure (some (.error e))

/-- Remembers that the end of the data was reported. -/
def observe (s : Station L) (r : Next Tuple) : Station L :=
  { s with exhausted := s.exhausted || r.isEndOfData }

end Station

namespace Stream

variable {L : Type} {m : Type → Type} [Monad m]

def names (s : Stream L) : List String := s.source.name :: s.stations.map Station.name

/-- Lets a result rise through stations. -/
def rise (ask : L → Tuple → m (Next Value)) :
    List (Station L) → Next Tuple → m (Option (Next Tuple) × List (Station L))
  | [], r => pure (some r, [])
  | s :: above, r => do
    match ← s.feed ask r with
    | none => pure (none, s :: above)
    | some r =>
      let (result, above) ← rise ask above r
      pure (result, s.observe r :: above)

/-- Takes results from the source until one reaches the top. -/
def draw (ask : L → Tuple → m (Next Value)) (src : Source) :
    List (Next Tuple) → List (Station L) → m (Next Tuple × Stream L)
  | [], stations => do
    if src.exhausted then
      let (result, stations) ← rise ask stations (.error (.exhausted src.key))
      pure (result.getD .null, ⟨{ src with remaining := [] }, stations⟩)
    else
      let (result, stations) ← rise ask stations .endOfData
      let done := decide (src.kind = .rows)
      pure (result.getD .null, ⟨{ src with remaining := [], exhausted := done }, stations⟩)
  | r :: rest, stations => do
    match ← rise ask stations r with
    | (some result, stations) => pure (result, ⟨{ src with remaining := rest }, stations⟩)
    | (none, stations) => draw ask src rest stations

/-- Pulls the stream once.  The outermost station that is exhausted answers with its error. -/
def pull (ask : L → Tuple → m (Next Value)) (s : Stream L) : m (Next Tuple × Stream L) :=
  match s.stations.reverse.find? Station.exhausted with
  | some station => pure (.error (.exhausted station.key), s)
  | none => draw ask s.source s.source.remaining s.stations

def pullTimes (ask : L → Tuple → m (Next Value)) :
    Nat → Stream L → m (List (Next Tuple) × Stream L)
  | 0, s => pure ([], s)
  | n + 1, s => do
    let (r, s) ← s.pull ask
    let (rs, s) ← pullTimes ask n s
    pure (r :: rs, s)

/-- Collects tuples for at most `fuel` pulls. -/
def collectWithin (ask : L → Tuple → m (Next Value)) :
    Nat → Stream L → m (Except EvalError (List Tuple) × Stream L)
  | 0, s => pure (.ok [], s)
  | fuel + 1, s => do
    match ← s.pull ask with
    | (.ok t, s) =>
      let (r, s) ← collectWithin ask fuel s
      pure (r.map (t :: ·), s)
    | (.null, s) => collectWithin ask fuel s
    | (.endOfData, s) => pure (.ok [], s)
    | (.error e, s) => pure (.error e, s)

/-- Pulls until the end of the data and collects the tuples, or ends with the first error.  Every
tuple and every null uses up a result of the source, which bounds the number of pulls. -/
def collect (ask : L → Tuple → m (Next Value)) (s : Stream L) :
    m (Except EvalError (List Tuple) × Stream L) :=
  collectWithin ask (s.source.remaining.length + 1) s

end Stream
end Dataflow
