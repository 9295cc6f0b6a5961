import JvmLint.JsonDoc
import JvmLint.Report.Basic
import JvmLint.Time.Duration

/-!
# Reports as data
-/

namespace JvmLint

/-- A timestamp inside a document. Years need four digits and offsets less than a day. -/
def Timestamp.toDoc (t : Timestamp) : Except Fault JsonDoc :=
  let refuse (what : String) : Except Fault JsonDoc :=
    .error (.plain ("json: error calling MarshalJSON for type time.Time: Time.MarshalJSON: " ++ what))
  if t.fields.date.year < 0 || 9999 < t.fields.date.year then refuse "year outside of range [0,9999]"
  else if 24 * 60 ≤ t.offset.natAbs then refuse "timezone hour outside of range [0,23]"
  else .ok (.text t.text)

namespace Structured

def finding (f : Finding) : JsonDoc :=
  .object [("checkName", .text f.checkName), ("category", .text f.category.name), ("location", .text f.location),
    ("message", .text f.message)]

def failure (f : LoadFailure) : JsonDoc := .object [("path", .text f.path), ("error", .text f.error)]

def counts (fs : List Finding) : JsonDoc :=
  .object (((checkCounts fs).mergeSort fun a b => a.name ≤ b.name).map fun c => (c.name, .int c.count))

def document (r : Report) : Except Fault JsonDoc := do
  return .object (
    JsonDoc.unlessEmpty "project" r.project ++ JsonDoc.unlessEmpty "version" r.version ++
    [("generatedAt", ← r.generatedAt.utc.toDoc), ("classes", .int r.classes), ("checks", .texts r.checks),
      ("durationMs", .int (Duration.toMillis r.duration)), ("counts", counts r.findings),
      ("findings", .list (r.findings.map finding))] ++
    if r.loadFailures.isEmpty then [] else [("loadFailures", .list (r.loadFailures.map failure))])

def render (r : Report) : Except Fault String := (document r).map fun d => d.print ++ "\n"

end Structured

end JvmLint
