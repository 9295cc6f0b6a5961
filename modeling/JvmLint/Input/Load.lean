import JvmLint.ClassFile.Jar
import JvmLint.Input.Discover
import JvmLint.Source

/-!
# Loading inputs

A bad input is noted and does not keep the others from being loaded. Of two classes of the same name
the first counts.
-/

namespace JvmLint

structure Loaded where
  classes : List Class := []
  failures : List LoadFailure := []
deriving DecidableEq, Repr, Inhabited

structure Loader where
  exclude : List Pattern := []
deriving DecidableEq, Repr, Inhabited

namespace Loader

def ofPatterns [GlobLibrary] (raws : List String) : Except Fault Loader :=
  match Pattern.compileAll (raws.map classPattern) with
  | .ok exclude => .ok { exclude }
  | .error d => .error (d.fault.wrap .validation "exclude.classes")

def loadClass [GlobLibrary] (l : Loader) (f : Files) (path : String) : Loaded :=
  match f.parseClass path with
  | .error e => { failures := [{ path, error := e.text }] }
  | .ok c => if Pattern.anyCovers l.exclude c.name then {} else { classes := [c] }

/-- One class of a jar. It is excluded by the name of its entry. -/
def loadEntry [GlobLibrary] (l : Loader) (j : Jar) (name : String) : Loaded :=
  if Pattern.anyCovers l.exclude name then {}
  else
    match j.load name with
    | .ok c => { classes := [c] }
    | .error e => { failures := [{ path := j.path ++ "!" ++ name ++ ".class", error := e.text }] }

def loadJar [GlobLibrary] (l : Loader) (f : Files) (path : String) : Loaded :=
  match Jar.open_ f path with
  | .error e => { failures := [{ path, error := e.text }] }
  | .ok j =>
    let parts := j.names.map (l.loadEntry j)
    { classes := parts.flatMap (·.classes), failures := parts.flatMap (·.failures) }

def loadInput [GlobLibrary] (l : Loader) (f : Files) (i : Input) : Loaded :=
  match i.kind with
  | .jar => l.loadJar f i.path
  | .classFile => l.loadClass f i.path

def load [GlobLibrary] (l : Loader) (f : Files) (inputs : List Input) : Loaded :=
  let parts := inputs.map (l.loadInput f)
  { classes := (ClassSet.ofList (parts.flatMap (·.classes))).classes, failures := parts.flatMap (·.failures) }

end Loader

end JvmLint
