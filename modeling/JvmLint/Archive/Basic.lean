import JvmLint.Text.Search

/-!
# Archives

Files packed into one, with a directory at the end. Each entry records a check sum and how it is
packed.
-/

namespace JvmLint

namespace Crc32

def bit (c : UInt32) : UInt32 := if c &&& 1 = 1 then (c >>> 1) ^^^ 0xedb88320 else c >>> 1

def byte (c : UInt32) (b : UInt8) : UInt32 :=
  bit (bit (bit (bit (bit (bit (bit (bit (c ^^^ b.toUInt32))))))))

def sum (bytes : List UInt8) : UInt32 := bytes.foldl byte 0xffffffff ^^^ 0xffffffff

end Crc32

inductive ArchiveDefect where
  | notArchive
  /-- Nothing is left where something is looked for. -/
  | ended
  | cutOff
  /-- The place that is looked for would be before the first byte of the file. -/
  | beforeStart (path : String)
  | unknownMethod
  | badSum
  | corrupt (offset : Nat)
deriving DecidableEq, Repr, Inhabited

def ArchiveDefect.message : ArchiveDefect → String
  | notArchive => "zip: not a valid zip file"
  | ended => "EOF"
  | cutOff => "unexpected EOF"
  | beforeStart path => "readat " ++ path ++ ": negative offset"
  | unknownMethod => "zip: unsupported compression algorithm"
  | badSum => "zip: checksum error"
  | corrupt offset => "flate: corrupt input before offset " ++ toString offset

structure ArchiveEntry where
  name : String
  /-- The kind of system that the entry is from. -/
  system : Nat := 0
  /-- What that system has to say about the file. -/
  attributes : Nat := 0
  /-- How the bytes are packed: 0 not at all, 8 deflated. -/
  method : Nat := 0
  crc : UInt32
  /-- The number of bytes that are packed. -/
  size : Nat
  /-- Why its record is not found, if it is not. -/
  lost : Option ArchiveDefect := none
  packed : List UInt8
  /-- The check sum behind the packed bytes, as it stands there, if there should be one. -/
  trailer : Option (List UInt8) := none
deriving DecidableEq, Repr, Inhabited

namespace ArchiveEntry

def stored (name : String) (bytes : List UInt8) : ArchiveEntry :=
  { name, crc := Crc32.sum bytes, size := bytes.length, packed := bytes }

def isDirectory (e : ArchiveEntry) : Bool :=
  let marked :=
    if e.system = 3 || e.system = 19 then e.attributes / 0x10000 / 0x1000 % 0x10 == 4
    else if e.system = 0 || e.system = 11 || e.system = 14 then e.attributes / 0x10 % 2 == 1
    else false
  marked || Text.endsWith e.name "/"

end ArchiveEntry

end JvmLint
