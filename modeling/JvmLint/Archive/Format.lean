import JvmLint.Archive.Basic

/-!
# Archives as bytes

A record for each entry with its bytes, then a directory of all entries, then a record that says
where the directory is. Numbers have their low byte first. An archive is opened by its directory; whether
the record of an entry is where the directory says matters only to that entry.
-/

namespace JvmLint.Archive

def le2 (n : Nat) : List UInt8 := [UInt8.ofNat n, UInt8.ofNat (n / 0x100)]

def le4 (n : Nat) : List UInt8 := le2 n ++ le2 (n / 0x10000)

def field (start width : Nat) (bytes : List UInt8) : Nat :=
  ((bytes.drop start).take width).foldr (fun b n => b.toNat + 256 * n) 0

def entryMark : List UInt8 := [0x50, 0x4b, 0x03, 0x04]

def directoryMark : List UInt8 := [0x50, 0x4b, 0x01, 0x02]

/-- What may stand before the check sum behind the bytes of an entry. -/
def trailerMark : List UInt8 := [0x50, 0x4b, 0x07, 0x08]

def endMark : List UInt8 := [0x50, 0x4b, 0x05, 0x06]

def common (e : ArchiveEntry) : List UInt8 :=
  le2 20 ++ le2 (if e.trailer.isSome then 8 else 0) ++ le2 e.method ++ le4 0 ++ le4 e.crc.toNat ++
    le4 e.packed.length ++ le4 e.size ++ le2 e.name.utf8ByteSize ++ le2 0

def entryRecord (e : ArchiveEntry) : List UInt8 :=
  entryMark ++ common e ++ e.name.toUTF8.toList ++ e.packed ++ e.trailer.getD []

def directoryLine (e : ArchiveEntry) (offset : Nat) : List UInt8 :=
  directoryMark ++ le2 (20 + 0x100 * e.system) ++ common e ++ le2 0 ++ le2 0 ++ le2 0 ++ le4 e.attributes ++
    le4 offset ++ e.name.toUTF8.toList

def records (offset : Nat) : List ArchiveEntry → List UInt8 × List UInt8
  | [] => ([], [])
  | e :: es =>
    let record := entryRecord e
    let (rest, directory) := records (offset + record.length) es
    (record ++ rest, directoryLine e offset ++ directory)

def encode (entries : List ArchiveEntry) : List UInt8 :=
  let (body, directory) := records 0 entries
  body ++ directory ++ endMark ++ le4 0 ++ le2 entries.length ++ le2 entries.length ++ le4 directory.length ++
    le4 body.length ++ le2 0

/-- The last place where an end record can start, with what is from there on. -/
def lastEnd? : Nat → List UInt8 → Option (Nat × List UInt8)
  | _, [] => none
  | pos, b :: rest =>
    match lastEnd? (pos + 1) rest with
    | some found => some found
    | none =>
      let here := b :: rest
      if endMark.isPrefixOf here && 22 ≤ here.length then some (pos, here) else none

/-- The length of the line that the bytes begin with. Sizes and offsets that do not fit into four bytes are refused. -/
def lineLength (bytes : List UInt8) : Except ArchiveDefect Nat :=
  let length := 46 + field 28 2 bytes + field 30 2 bytes + field 32 2 bytes
  if bytes.length = 0 then .error .ended
  else if bytes.length < 46 then .error .cutOff
  else if !directoryMark.isPrefixOf bytes then .error .notArchive
  else if bytes.length = 46 && 46 < length then .error .ended
  else if bytes.length < length then .error .cutOff
  else if field 20 4 bytes = 0xffffffff || field 42 4 bytes = 0xffffffff then .error .notArchive
  else .ok length

/-- The lines from here on, after `skip` bytes, and what is wrong with the first that is none. -/
def lines : (skip : Nat) → List UInt8 → List (List UInt8) × ArchiveDefect
  | _, [] => ([], .ended)
  | skip + 1, _ :: rest => lines skip rest
  | 0, b :: rest =>
    match lineLength (b :: rest) with
    | .error d => ([], d)
    | .ok length =>
      let (more, d) := lines (length - 1) rest
      ((b :: rest).take length :: more, d)

/-- Bytes as text, after `skip` of them. Those that are none have a mark in their place. -/
def readable : (skip : Nat) → List UInt8 → List Char
  | _, [] => []
  | skip + 1, _ :: rest => readable skip rest
  | 0, b :: rest =>
    match (ByteArray.mk ((b :: rest).take 4).toArray).utf8DecodeChar? 0 with
    | some c => c :: readable (c.utf8Size - 1) rest
    | none => '\ufffd' :: readable 0 rest

/-- Why there is no record at an offset, if there is none. -/
def lost? (path : String) (offset : Int) (record : List UInt8) : Option ArchiveDefect :=
  if offset < 0 then some (.beforeStart path)
  else if record.length < 30 then some .ended
  else if !entryMark.isPrefixOf record then some .notArchive
  else none

/-- The entry of a line in the directory; `base` is where offsets count from. -/
def entry (path : String) (bytes : List UInt8) (base : Int) (line : List UInt8) : ArchiveEntry :=
  let offset := base + field 42 4 line
  let record := bytes.drop offset.toNat
  let data := record.drop (30 + field 26 2 record + field 28 2 record)
  let packed := field 20 4 line
  { name := String.ofList (readable 0 ((line.drop 46).take (field 28 2 line)))
    system := field 5 1 line
    attributes := field 38 4 line
    method := field 10 2 line
    crc := UInt32.ofNat (field 16 4 line)
    size := field 24 4 line
    lost := lost? path offset record
    packed := data.take packed
    trailer := if field 8 2 line / 8 % 2 = 1 then some ((data.drop packed).take 16) else none }

/-- The entries of an archive. The end record is looked for among the last bytes. The lines of the directory are taken
as they come, and are as many as the end record says, as far as two bytes can say. -/
def decode (path : String) (bytes : List UInt8) : Except ArchiveDefect (List ArchiveEntry) :=
  let ending := (bytes.reverse.take 66560).reverse
  match lastEnd? (bytes.length - ending.length) ending with
  | none => .error .notArchive
  | some (pos, record) =>
    let length := field 12 4 record
    let offset := field 16 4 record
    if record.length < 22 + field 20 2 record || pos < length then .error .notArchive
    else
      -- what comes before the archive moves it, unless there is a directory where it says
      let moved := (pos - length : Int) - offset
      let base := if 0 < moved && (lineLength (bytes.drop offset)).isOk then 0 else moved
      match lines 0 (bytes.drop (base + offset).toNat) with
      | (_, .ended) => .error .ended
      | (ls, d) =>
        if ls.length % 0x10000 = field 10 2 record then .ok (ls.map (entry path bytes base)) else .error d

end JvmLint.Archive
