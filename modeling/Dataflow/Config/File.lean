import Dataflow.Config.Basic
import Dataflow.Toml.Decode
import Dataflow.Toml.Printer
import Dataflow.Toml.Reader
/-!
# Configuration files

Settings as a document with one section for each part of the configuration.  What a file does not
mention keeps its default, and what it mentions beyond the settings is ignored.
-/
namespace Dataflow

namespace CompilerConfig

def ofToml? (t : Toml) : Option CompilerConfig := do
  let base : CompilerConfig := {}
  match ← t.settings? ["default_parallelism", "sample_total_order_sort"] with
  | [n, sample] =>
    return ⟨← Toml.orDefault base.defaultParallelism Toml.asNat? n,
      ← Toml.orDefault base.sampleTotalOrderSort Toml.asBool? sample⟩
  | _ => none

def toSection (c : CompilerConfig) : Toml.Section :=
  ⟨"compiler", [("default_parallelism", .integer c.defaultParallelism),
    ("sample_total_order_sort", .boolean c.sampleTotalOrderSort)]⟩

end CompilerConfig

namespace LauncherConfig

def ofToml? (base : LauncherConfig Float) (t : Toml) : Option (LauncherConfig Float) := do
  match ← t.settings? ["poll_interval_ms", "progress_weighting", "completion_tolerance"] with
  | [interval, weighting, tolerance] =>
    return ⟨← Toml.orDefault base.pollInterval Toml.asNat? interval,
      ← Toml.orDefault base.weighting (fun t => t.asChoice?.bind Weighting.ofName?) weighting,
      ← Toml.orDefault base.tolerance Toml.asDouble? tolerance⟩
  | _ => none

def toSection (c : LauncherConfig Float) : Toml.Section :=
  ⟨"launcher", [("poll_interval_ms", .integer c.pollInterval),
    ("progress_weighting", .text c.weighting.text), ("completion_tolerance", .float c.tolerance)]⟩

end LauncherConfig

namespace LoggingConfig

def ofToml? (t : Toml) : Option LoggingConfig := do
  let base : LoggingConfig := {}
  match ← t.settings? ["level"] with
  | [level] => return ⟨← Toml.orDefault base.level Toml.asText? level⟩
  | _ => none

def toSection (c : LoggingConfig) : Toml.Section := ⟨"logging", [("level", .text c.level)]⟩

end LoggingConfig

namespace Config

def ofMembers? (members : List (String × Toml)) : Option Config := do
  let base : Config := {}
  match ← (Toml.table members).settings? ["compiler", "launcher", "logging"] with
  | [compiler, launcher, logging] =>
    return ⟨← Toml.orDefault base.compiler CompilerConfig.ofToml? compiler,
      ← Toml.orDefault base.launcher (LauncherConfig.ofToml? base.launcher) launcher,
      ← Toml.orDefault base.logging LoggingConfig.ofToml? logging⟩
  | _ => none

/-- Reads a text, if it is a document whose settings have the right types. -/
def read? (text : String) : Option Config := (Toml.parse? text).bind ofMembers?

/-- The fault of a text that cannot be read. -/
def unreadable : Fault := .invalidConfig "the settings cannot be read"

/-- Reads a text with settings that make sense. -/
def parse (text : String) : Except Fault Config :=
  match read? text with
  | none => .error unreadable
  | some c => c.validate.map fun _ => c

def print (c : Config) : Except Fault String :=
  match Toml.print? [c.compiler.toSection, c.launcher.toSection, c.logging.toSection] with
  | some text => .ok text
  | none => .error (.invalidConfig "out-of-range value for u64 type")

end Config
end Dataflow
