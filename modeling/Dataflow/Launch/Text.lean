import Dataflow.Launch.Supervisor
/-!
# Written reports

The outcome of a launch for readers and for programs.
-/
namespace Dataflow.Report

def lines (r : Report Float) : List String :=
  let outcome := if r.completed then "succeeded" else "failed"
  ("Launch " ++ outcome ++ " (" ++ Fraction.percentText r.progress ++ "% complete)") ::
    r.stats.map fun s => "  " ++ s.text

def toJson (r : Report Float) : Json :=
  .object [("completed", .bool r.completed), ("progress", .number (.double r.progress)),
    ("stats", Json.ofList JobStats.toJson r.stats)]

end Dataflow.Report
