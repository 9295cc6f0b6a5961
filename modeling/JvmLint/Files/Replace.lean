import JvmLint.Files.Basic

/-!
# Replacing a file

New contents go to a temporary file beside the old one, which then takes its place.
-/

namespace JvmLint.Files

def tempName (n : Nat) : String := ".classlint-report-" ++ toString n ++ ".tmp"

/-- Moves a file to a path. A link there is replaced; a directory stands in the way. -/
def rename (f : Files) (source target : String) : Except OsFault Files :=
  let refuse (e : Errno) : Except OsFault Files := .error ⟨"rename", source ++ " " ++ target, e⟩
  match f.find false source with
  | .error e => refuse e
  | .ok (p, n) =>
    match f.locate false target with
    | .error e => refuse e
    | .ok q =>
      match f.node? q with
      | some .dir => refuse .fileExists
      | _ => if Text.endsWith target "/" then refuse .notDirectory else .ok ((f.drop p).put q n)

def replace (f : Files) (path : String) (content : String) : Except Fault Files :=
  let dir := Path.dir path
  let temp := if Text.endsWith dir "/" then dir ++ tempName f.nodes.length else dir ++ "/" ++ tempName f.nodes.length
  match f.write temp (.bytes content.toUTF8.toList) with
  | .error e => .error (e.fault.label ("create temp file for " ++ Text.quote path))
  | .ok g => (g.rename temp path).mapError fun e => e.fault.label ("replace file " ++ Text.quote path)

end JvmLint.Files
