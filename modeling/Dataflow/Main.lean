import Dataflow.Command.Run
/-!
# The program

Hands the arguments, the environment and the files of the surrounding system to the commands, and
prints what they answer.
-/
namespace Dataflow.Command

/-- Reads a file of the surrounding system.  A directory can be opened but not read, so the error
that it leads to names no file. -/
def readFile (path : String) : IO (Except String String) := do
  try
    match String.fromUTF8? (← IO.FS.readBinFile path) with
    | some text => return .ok text
    | none => return .error Obstacle.notText.message
  catch
    | .noFileOrDirectory _ _ _ => return .error Obstacle.missing.message
    | .inappropriateType none _ _ => return .error Obstacle.isDirectory.message
    | .inappropriateType (some _) _ _ => return .error Obstacle.notDirectory.message
    | e => return .error (toString e)

end Dataflow.Command

open Dataflow

def main (words : List String) : IO UInt32 := do
  let config ← IO.getEnv "DROVER_CONFIG"
  let logLevel ← IO.getEnv "DROVER_LOG_LEVEL"
  let env (name : String) : Option String :=
    if name = "DROVER_CONFIG" then config
    else if name = "DROVER_LOG_LEVEL" then logLevel
    else none
  let outcome ← Command.execute env Command.readFile words
  IO.print outcome.output
  IO.eprint outcome.complaint
  return UInt32.ofNat outcome.exitCode
