import Dataflow.Stage.Graph
/-!
# Jobs

A job executes one stage.  It waits for the jobs that it depends on, then runs, and ends well or
badly; when one of them failed, it fails without running.
-/
namespace Dataflow

/-- Where a job stands. -/
inductive JobStatus where
  /-- Waits for its dependencies. -/
  | pending
  | running
  | succeeded
  /-- Ended badly, or was given up after a dependency had failed. -/
  | failed
  deriving DecidableEq, Inhabited

namespace JobStatus

/-- The displayed name, which is also the name in files. -/
def text : JobStatus → String
  | .pending => "pending"
  | .running => "running"
  | .succeeded => "succeeded"
  | .failed => "failed"

def all : List JobStatus := [.pending, .running, .succeeded, .failed]

def ofName? (name : String) : Option JobStatus := all.find? fun s => s.text = name

/-- Whether nothing can follow. -/
def isTerminal : JobStatus → Bool
  | .pending => false
  | .running => false
  | .succeeded => true
  | .failed => true

/-- Whether one status may follow another. -/
def canBecome : JobStatus → JobStatus → Bool
  | .pending, .running => true
  | .pending, .failed => true
  | .running, .succeeded => true
  | .running, .failed => true
  | _, _ => false

end JobStatus

structure Job where
  id : JobId
  name : String
  /-- The stage that the job executes. -/
  stage : StageId
  kind : StageKind
  /-- The number of partitions. -/
  parallelism : Nat
  operators : List Key
  /-- The jobs that have to succeed before this one starts. -/
  dependencies : List JobId
  deriving DecidableEq

namespace Job

def keyJson (k : Key) : Json := .object [("scope", .text k.scope), ("id", Json.ofNat k.id)]

def toJson (job : Job) : Json :=
  .object [("id", Json.ofNat job.id.val), ("name", .text job.name),
    ("stage", Json.ofNat job.stage.val), ("kind", job.kind.toJson),
    ("parallelism", Json.ofNat job.parallelism), ("operators", Json.ofList keyJson job.operators),
    ("dependencies", Json.ofList (fun j => Json.ofNat (JobId.val j)) job.dependencies)]

end Job

/-- The records that a job has read and written. -/
structure JobCounters where
  recordsIn : Nat := 0
  recordsOut : Nat := 0
  deriving DecidableEq

structure Duration where
  nanoseconds : Nat
  deriving DecidableEq

namespace Duration

def ofMilliseconds (n : Nat) : Duration := ⟨n * 1000000⟩

def milliseconds (d : Duration) : Nat := d.nanoseconds / 1000000

/-- The whole seconds and the nanoseconds beyond them. -/
def toJson (d : Duration) : Json :=
  .object [("secs", Json.ofNat (d.nanoseconds / 1000000000)),
    ("nanos", Json.ofNat (d.nanoseconds % 1000000000))]

end Duration

/-- What is known of a job at some moment. -/
structure JobStats where
  id : JobId
  name : String
  stage : StageId
  status : JobStatus
  /-- How long the job has run, if it was started. -/
  duration : Option Duration := none
  counters : JobCounters := {}
  /-- Why the job failed. -/
  error : Option String := none
  deriving DecidableEq

namespace JobStats

/-- Statistics without times, counters and errors. -/
def ofJob (job : Job) (status : JobStatus) : JobStats :=
  { id := job.id, name := job.name, stage := job.stage, status }

def text (s : JobStats) : String :=
  let duration :=
    match s.duration with
    | some d => ", " ++ toString d.milliseconds ++ "ms"
    | none => ""
  let error :=
    match s.error with
    | some e => ", error: " ++ e
    | none => ""
  s.name ++ " (" ++ s.id.text ++ ") " ++ s.status.text ++ ": " ++ toString s.counters.recordsIn ++
    " in, " ++ toString s.counters.recordsOut ++ " out" ++ duration ++ error

def toJson (s : JobStats) : Json :=
  .object [("id", Json.ofNat s.id.val), ("name", .text s.name), ("stage", Json.ofNat s.stage.val),
    ("status", .text s.status.text), ("duration", Json.ofOption Duration.toJson s.duration),
    ("counters", .object [("records_in", Json.ofNat s.counters.recordsIn),
      ("records_out", Json.ofNat s.counters.recordsOut)]),
    ("error", Json.ofOption .text s.error)]

end JobStats
end Dataflow
