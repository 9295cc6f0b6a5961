import JvmLint.Archive.Format
import JvmLint.ClassFile.Assembly
import JvmLint.Files.Basic

/-!
# Storing assembled classes

A class is stored under its name below a directory; several go into a jar.
-/

namespace JvmLint.Files

/-- Stores bytes at a path; directories that are missing are made. -/
def install (f : Files) (path : String) (bytes : List UInt8) : Except OsFault Files := do
  (← f.mkdirAll (Path.dir path)).write path (.bytes bytes)

def classPath (dir name : String) : String := Path.join dir (name ++ ".class")

def installClass (f : Files) (dir : String) (a : ClassFile.Assembly) : Except OsFault Files :=
  f.install (classPath dir a.name) a.bytes

def installJar (f : Files) (path : String) (classes : List ClassFile.Assembly) : Except OsFault Files :=
  f.install path (Archive.encode (classes.map fun a => .stored (a.name ++ ".class") a.bytes))

end JvmLint.Files
