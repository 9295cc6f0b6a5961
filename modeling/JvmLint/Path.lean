import JvmLint.Text.Search

/-!
# Slash-separated paths

Cleaning a path drops empty and `.` segments and lets `..` take back the segment before it; at the
root there is nothing to take back. The clean relative path with no segments is written `.`.
-/

namespace JvmLint.Path

/-- A clean path: rooted or not, and its segments. -/
structure Clean where
  rooted : Bool
  segments : List String
deriving DecidableEq, Repr, Inhabited

/-- Takes up one more segment; the segments so far are given last first. -/
def Clean.step (rooted : Bool) (done : List String) (segment : String) : List String :=
  if segment = "" || segment = "." then done
  else if segment = ".." then
    match done with
    | last :: before => if last = ".." then segment :: done else before
    | [] => if rooted then [] else [segment]
  else segment :: done

def Clean.of (s : String) : Clean :=
  let rooted := Text.startsWith s "/"
  { rooted, segments := ((Text.splitOn s '/').foldl (Clean.step rooted) []).reverse }

def Clean.text (p : Clean) : String :=
  if p.rooted then "/" ++ "/".intercalate p.segments
  else if p.segments.isEmpty then "." else "/".intercalate p.segments

def clean (s : String) : String := (Clean.of s).text

def isAbsolute (s : String) : Bool := Text.startsWith s "/"

def join (a b : String) : String :=
  if a = "" then (if b = "" then "" else clean b) else if b = "" then clean a else clean (a ++ "/" ++ b)

/-- The clean path of all but the last segment. -/
def dir (s : String) : String :=
  match Text.cutLast '/' s.toList with
  | some (before, _) => clean (String.ofList (before ++ ['/']))
  | none => "."

/-- The last segment, trailing slashes aside. -/
def base (s : String) : String :=
  if s = "" then "."
  else
    let trimmed := (s.toList.reverse.dropWhile (· == '/')).reverse
    if trimmed.isEmpty then "/"
    else
      match Text.cutLast '/' trimmed with
      | some (_, last) => String.ofList last
      | none => String.ofList trimmed

/-- The last segment's ending from its last dot on, or nothing. -/
def extension (s : String) : String :=
  let last := match Text.cutLast '/' s.toList with
    | some (_, last) => last
    | none => s.toList
  match Text.cutLast '.' last with
  | some (_, after) => String.ofList ('.' :: after)
  | none => ""

def absolute (cwd s : String) : String := if isAbsolute s then clean s else join cwd s

end JvmLint.Path
