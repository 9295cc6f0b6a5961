import JvmLint.ClassFile.Jar
import JvmLint.Source

/-!
# Classpaths

Directories and jars in which classes are looked up by name, in order.
-/

namespace JvmLint

inductive ClasspathEntry where
  | dir (path : String)
  | jar (j : Jar)
deriving DecidableEq, Repr, Inhabited

namespace Classpath

def openEntry (f : Files) (path : String) : Except Fault ClasspathEntry :=
  match f.stat path with
  | .error e => .error ((e.fault.wrap .notFound "classpath entry").addDetail "path" path)
  | .ok .dir => .ok (.dir path)
  | .ok _ =>
    if Text.endsWith (Text.lower path) ".jar" then (Jar.open_ f path).map .jar
    else .error ((Fault.new .validation "classpath entry is neither a directory nor a jar").addDetail "path" path)

/-- Opens every entry, or says what is wrong with the first bad one. -/
def open_ (f : Files) (paths : List String) : Except Fault (List ClasspathEntry) := paths.mapM (openEntry f)

/-- What an entry says about a name; nothing if it has no such class. -/
def find? (f : Files) (name : String) : ClasspathEntry → Option (Except Fault Class)
  | .jar j => if j.has name then some (j.load name) else none
  | .dir d =>
    let path := Path.join d (name ++ ".class")
    if f.exists_ path then some (f.parseClass path) else none

/-- The first entry that has the class decides. -/
def source (f : Files) (entries : List ClasspathEntry) : Source := fun name =>
  match entries.findSome? (find? f name) with
  | some found => found.map some
  | none => .error (classNotFound name)

end Classpath

end JvmLint
