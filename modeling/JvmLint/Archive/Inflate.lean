import JvmLint.Archive.Basic

/-!
# Inflating

Undoes the usual packing: literal bytes and references to earlier bytes, both as prefix codes. Bits are
taken from whole bytes, which count as read before their last bits are taken.
-/

namespace JvmLint.Inflate

structure State where
  input : Array UInt8
  /-- Bytes that were read. -/
  read : Nat := 0
  /-- Bits that were taken. -/
  taken : Nat := 0
  out : Array UInt8 := #[]

abbrev Inflating := ExceptT ArchiveDefect (StateM State)

def corrupt {α : Type} : Inflating α := do throw (.corrupt (← get).read)

def need (n : Nat) : Inflating Unit := do
  let s ← get
  let bytes := (s.taken + n + 7) / 8
  if s.input.size < bytes then throw .cutOff else set { s with read := max s.read bytes }

/-- A bit still to be taken, low bits of a byte first. What is not read counts as 0. -/
def State.ahead (s : State) (i : Nat) : Nat :=
  let place := s.taken + i
  if place < 8 * s.read then (s.input.getD (place / 8) 0).toNat / Nat.pow 2 (place % 8) % 2 else 0

def number (n : Nat) : Inflating Nat := do
  need n
  let s ← get
  set { s with taken := s.taken + n }
  return (List.range n).foldr (fun i high => s.ahead i + 2 * high) 0

def put (b : UInt8) : Inflating Unit := modify fun s => { s with out := s.out.push b }

/-- A canonical code: for each length the symbols with codes of that length, in order. -/
abbrev Codebook := List (List Nat)

namespace Codebook

/-- The code in which each symbol has the given length; 0 means no code. -/
def ofLengths (lengths : List Nat) : Codebook :=
  (List.range (lengths.foldl max 0)).map fun n =>
    lengths.zipIdx.filterMap fun (l, symbol) => if l = n + 1 then some symbol else none

/-- All sequences of bits are codes, or there is one code of one bit, or none at all. -/
def isComplete (c : Codebook) : Bool :=
  let codes := c.foldl (fun n symbols => 2 * n + symbols.length) 0
  c.length = 0 || codes = Nat.pow 2 c.length || codes = 1 && c.length = 1

def shortest (c : Codebook) : Nat := (c.findIdx? (!·.isEmpty)).elim 0 (· + 1)

/-- The symbol whose code the bits begin with, and the length of that code. `code` is made of the first `n` bits, and
`first` would be the first code of that length. -/
def find? (bits : Nat → Nat) : Codebook → (n code first : Nat) → Option (Nat × Nat)
  | [], _, _, _ => none
  | symbols :: longer, n, code, first =>
    let code := 2 * code + bits n
    match symbols[code - 2 * first]? with
    | some symbol => some (symbol, n + 1)
    | none => find? bits longer (n + 1) code (2 * first + symbols.length)

/-- Takes a symbol after reading so many bits. If the code looks longer then, as many bits are read as that has; codes
have at most 15. -/
def symbolIn (c : Codebook) : (tries wanted : Nat) → Inflating Nat
  | 0, _ => corrupt
  | tries + 1, wanted => do
    need wanted
    let s ← get
    match find? s.ahead c 0 0 0 with
    | none => corrupt
    | some (symbol, length) =>
      if s.taken + length ≤ 8 * s.read then
        set { s with taken := s.taken + length }
        return symbol
      else c.symbolIn tries length

def symbol (c : Codebook) (wanted : Nat) : Inflating Nat := c.symbolIn 16 wanted

end Codebook

def lengthBases : List (Nat × Nat) :=
  [(3, 0), (4, 0), (5, 0), (6, 0), (7, 0), (8, 0), (9, 0), (10, 0), (11, 1), (13, 1), (15, 1), (17, 1), (19, 2), (23, 2),
    (27, 2), (31, 2), (35, 3), (43, 3), (51, 3), (59, 3), (67, 4), (83, 4), (99, 4), (115, 4), (131, 5), (163, 5), (195, 5),
    (227, 5), (258, 0)]

def distanceBases : List (Nat × Nat) :=
  [(1, 0), (2, 0), (3, 0), (4, 0), (5, 1), (7, 1), (9, 2), (13, 2), (17, 3), (25, 3), (33, 4), (49, 4), (65, 5), (97, 5),
    (129, 6), (193, 6), (257, 7), (385, 7), (513, 8), (769, 8), (1025, 9), (1537, 9), (2049, 10), (3073, 10), (4097, 11),
    (6145, 11), (8193, 12), (12289, 12), (16385, 13), (24577, 13)]

def extended (bases : List (Nat × Nat)) (i : Nat) : Inflating Nat :=
  match bases[i]? with
  | none => corrupt
  | some (base, extra) => return base + (← number extra)

def copyBack (distance : Nat) : Nat → Array UInt8 → Array UInt8
  | 0, out => out
  | n + 1, out => copyBack distance n (out.push (out.getD (out.size - distance) 0))

/-- The codes of a block: of literals and lengths, of which so many bits are read at a time, and of distances. -/
structure Codes where
  lits : Codebook
  wanted : Nat
  dists : Codebook

def block (c : Codes) : Nat → Inflating Unit
  | 0 => corrupt
  | fuel + 1 => do
    let s ← c.lits.symbol c.wanted
    if s < 256 then
      put (UInt8.ofNat s)
      block c fuel
    else if s = 256 then return ()
    else
      let length ← extended lengthBases (s - 257)
      let distance ← extended distanceBases (← c.dists.symbol c.dists.shortest)
      if (← get).out.size < distance then corrupt
      modify fun s => { s with out := copyBack distance length s.out }
      block c fuel

def fixedCodes : Codes where
  lits := .ofLengths (List.replicate 144 8 ++ List.replicate 112 9 ++ List.replicate 24 7 ++ List.replicate 8 8)
  wanted := 7
  dists := .ofLengths (List.replicate 32 5)

def lengthOrder : List Nat := [16, 17, 18, 0, 8, 7, 9, 6, 10, 5, 11, 4, 12, 3, 13, 2, 14, 1, 15]

/-- Code lengths, which are packed themselves, until there are so many; last one first. -/
def lengths (c : Codebook) (count : Nat) : Nat → List Nat → Inflating (List Nat)
  | 0, done => if done.length = count then return done else corrupt
  | fuel + 1, done =>
    if count ≤ done.length then if done.length = count then return done else corrupt
    else do
      let s ← c.symbol c.shortest
      if s < 16 then lengths c count fuel (s :: done)
      else if s = 16 then
        match done with
        | [] => corrupt
        | last :: _ => lengths c count fuel (List.replicate ((← number 2) + 3) last ++ done)
      else if s = 17 then lengths c count fuel (List.replicate ((← number 3) + 3) 0 ++ done)
      else lengths c count fuel (List.replicate ((← number 7) + 11) 0 ++ done)

def codes : Inflating Codes := do
  let lits := (← number 5) + 257
  let dists := (← number 5) + 1
  let shorts := (← number 4) + 4
  if 286 < lits || 30 < dists then corrupt
  let given ← (lengthOrder.take shorts).mapM fun i => return (i, ← number 3)
  let lengthCode := Codebook.ofLengths ((List.range 19).map fun i => (given.lookup i).getD 0)
  if !lengthCode.isComplete then corrupt
  let all := (← lengths lengthCode (lits + dists) (lits + dists) []).reverse
  let litCode := Codebook.ofLengths (all.take lits)
  let distCode := Codebook.ofLengths (all.drop lits)
  if !litCode.isComplete || !distCode.isComplete then corrupt
  -- a block ends with symbol 256, so there are at least as many bits as that one has
  return { lits := litCode, wanted := max litCode.shortest (all.getD 256 0), dists := distCode }

/-- Bytes that are not packed. They start with a whole byte. -/
def plain : Inflating Unit := do
  modify fun s => { s with taken := 8 * s.read }
  let n ← number 16
  let complement ← number 16
  if n + complement != 0xffff then corrupt
  let s ← get
  let bytes := s.input.extract s.read (s.read + n)
  let read := s.read + bytes.size
  set { s with read, taken := 8 * read, out := s.out ++ bytes }
  if bytes.size < n then throw .cutOff

def blocks (size : Nat) : Nat → Inflating Unit
  | 0 => corrupt
  | fuel + 1 => do
    let final ← number 1
    let kind ← number 2
    if kind = 0 then plain
    else if kind = 1 then block fixedCodes size
    else if kind = 2 then block (← codes) size
    else corrupt
    if final = 1 then return () else blocks size fuel

/-- Unpacks bytes: those that come out, and what is wrong then, if something is. -/
def inflate (packed : List UInt8) : List UInt8 × Option ArchiveDefect :=
  let size := 8 * packed.length + 1
  match (blocks size size).run.run { input := packed.toArray } with
  | (.ok (), s) => (s.out.toList, none)
  | (.error d, s) => (s.out.toList, some d)

end JvmLint.Inflate
