import Dataflow.Key
/-!
# Faults

Every way in which compiling, launching or configuring can fail, with its stable code, its
category and its text.  A failed job is not a fault: it is part of the outcome of a launch.
-/
namespace Dataflow

/-- Stable codes for programmatic handling; the high byte is the category. -/
inductive ErrorCode where
  | unknown
  | internal
  | invalidConfig
  | cancelled
  | io
  | traversal
  | planStructure
  | evaluation
  | executionFailed
  | jobCreation
  | driverInconsistency
  deriving DecidableEq

namespace ErrorCode

def number : ErrorCode → Nat
  | .unknown => 0x0000
  | .internal => 0x0001
  | .invalidConfig => 0x0002
  | .cancelled => 0x0003
  | .io => 0x0100
  | .traversal => 0x0200
  | .planStructure => 0x0201
  | .evaluation => 0x0300
  | .executionFailed => 0x0301
  | .jobCreation => 0x0400
  | .driverInconsistency => 0x0401

/-- The category, which is decided by the high byte of the number. -/
def category (c : ErrorCode) : String :=
  match c.number / 0x100 with
  | 0 => "General"
  | 1 => "I/O"
  | 2 => "Plan"
  | 3 => "Execution"
  | 4 => "Job"
  | _ => "Unknown"

def name : ErrorCode → String
  | .unknown => "Unknown"
  | .internal => "Internal"
  | .invalidConfig => "InvalidConfig"
  | .cancelled => "Cancelled"
  | .io => "Io"
  | .traversal => "Traversal"
  | .planStructure => "PlanStructure"
  | .evaluation => "Evaluation"
  | .executionFailed => "ExecutionFailed"
  | .jobCreation => "JobCreation"
  | .driverInconsistency => "DriverInconsistency"

end ErrorCode

inductive Fault where
  /-- A broken invariant of this library. -/
  | internal (reason : String)
  | invalidConfig (reason : String)
  /-- The launch was cancelled before its jobs finished. -/
  | cancelled
  /-- The surrounding system refused to read or write. -/
  | io (cause : String)
  /-- A visitor gave up. -/
  | traversal (reason : String)
  /-- A plan breaks an invariant. -/
  | planStructure (reason : String)
  /-- An operator failed while producing values. -/
  | evaluation (operator : Key) (reason : String)
  | execution (reason : String)
  /-- The jobs could not be built or submitted. -/
  | jobCreation (reason : String)
  /-- A job was named that does not exist. -/
  | unknownJob (job : JobId)
  /-- A driver reports an incomplete run without a failed job. -/
  | driverInconsistency (reason : String)
  deriving DecidableEq

namespace Fault

def code : Fault → ErrorCode
  | .internal _ => .internal
  | .invalidConfig _ => .invalidConfig
  | .cancelled => .cancelled
  | .io _ => .io
  | .traversal _ => .traversal
  | .planStructure _ => .planStructure
  | .evaluation _ _ => .evaluation
  | .execution _ => .executionFailed
  | .jobCreation _ => .jobCreation
  | .unknownJob _ => .jobCreation
  | .driverInconsistency _ => .driverInconsistency

def message : Fault → String
  | .internal r => "internal error: " ++ r
  | .invalidConfig r => "invalid configuration: " ++ r
  | .cancelled => "launch was cancelled"
  | .io c => "I/O error: " ++ c
  | .traversal r => "traversal failed: " ++ r
  | .planStructure r => "invalid plan structure: " ++ r
  | .evaluation op r => "evaluation failed at " ++ op.text ++ ": " ++ r
  | .execution r => "execution failed: " ++ r
  | .jobCreation r => "job creation failed: " ++ r
  | .unknownJob j => "unknown job " ++ j.text
  | .driverInconsistency r => "driver inconsistency: " ++ r

/-- The text of what caused the fault outside of this library, if anything did. -/
def cause? : Fault → Option String
  | .io c => some c
  | _ => none

/-- A fatal fault must not be retried or played down: the bookkeeping cannot be trusted. -/
def isFatal : Fault → Bool
  | .driverInconsistency _ => true
  | .internal _ => true
  | _ => false

end Fault
end Dataflow
