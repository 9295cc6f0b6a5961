import JvmLint.Decimal.Shortest
import JvmLint.History.Trend
import JvmLint.Report.Structured

/-!
# Trends as text
-/

namespace JvmLint.Trend

def tsvRow (p : TrendPoint) : String :=
  p.run.timestamp.utc.secondsText ++ "\t" ++ p.run.id ++ "\t" ++ toString p.run.classes ++ "\t" ++
    toString p.run.findingCount ++ "\t" ++ toString p.delta ++ "\t" ++ Decimal.fixed 2 p.perClass ++ "\n"

def tsv (t : Trend) : String :=
  "Timestamp\tRun\tClasses\tFindings\tDeltaFindings\tFindingsPerClass\n" ++ String.join (t.points.map tsvRow)

def numbers : Decimal.Layout := { lowest := -6, highest := 21, exponentWidth := 1 }

def pointDocument (p : TrendPoint) : Except Fault JsonDoc := do
  return .object [("run_id", .text p.run.id), ("timestamp", ← p.run.timestamp.toDoc), ("class_count", .int p.run.classes),
    ("finding_count", .int p.run.findingCount), ("delta_findings", .int p.delta),
    ("findings_per_class", .number (Decimal.shortestText numbers p.perClass))]

def json (t : Trend) : Except Fault String := do
  let points ← t.points.mapM pointDocument
  return (JsonDoc.object [("project_key", .text t.project), ("run_count", .int t.points.length),
    ("points", .list points)]).print

end JvmLint.Trend
