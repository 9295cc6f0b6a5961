/-!
# The 64-bit xxHash

A fingerprint of bytes. Four lanes take 32 bytes at a time; what is left is mixed in word by word and
byte by byte.
-/

namespace JvmLint.XxHash

def prime1 : UInt64 := 11400714785074694791
def prime2 : UInt64 := 14029467366897019727
def prime3 : UInt64 := 1609587929392839161
def prime4 : UInt64 := 9650029242287828579
def prime5 : UInt64 := 2870177450012600261

def rotate (x n : UInt64) : UInt64 := (x <<< n) ||| (x >>> (64 - n))

def round (lane word : UInt64) : UInt64 := rotate (lane + word * prime2) 31 * prime1

def littleEndian : List UInt8 → UInt64
  | [] => 0
  | b :: bs => b.toUInt64 ||| (littleEndian bs <<< 8)

def words : List UInt8 → List UInt64 × List UInt8
  | b0 :: b1 :: b2 :: b3 :: b4 :: b5 :: b6 :: b7 :: rest =>
    let (ws, left) := words rest
    (littleEndian [b0, b1, b2, b3, b4, b5, b6, b7] :: ws, left)
  | rest => ([], rest)

structure Lanes where
  a : UInt64 := prime1 + prime2
  b : UInt64 := prime2
  c : UInt64 := 0
  d : UInt64 := 0 - prime1
deriving DecidableEq, Repr, Inhabited

/-- Takes words four at a time; fewer than four are left over. -/
def Lanes.take (l : Lanes) : List UInt64 → Lanes × List UInt64
  | w :: x :: y :: z :: rest => Lanes.take { a := round l.a w, b := round l.b x, c := round l.c y, d := round l.d z } rest
  | rest => (l, rest)

def merge (h lane : UInt64) : UInt64 := (h ^^^ round 0 lane) * prime1 + prime4

def Lanes.sum (l : Lanes) : UInt64 :=
  merge (merge (merge (merge (rotate l.a 1 + rotate l.b 7 + rotate l.c 12 + rotate l.d 18) l.a) l.b) l.c) l.d

def mixWord (h word : UInt64) : UInt64 := rotate (h ^^^ round 0 word) 27 * prime1 + prime4

def mixByte (h : UInt64) (b : UInt8) : UInt64 := rotate (h ^^^ (b.toUInt64 * prime5)) 11 * prime1

/-- Mixes in fewer than eight bytes: four at once if there are so many, then one by one. -/
def mixRest (h : UInt64) : List UInt8 → UInt64
  | b0 :: b1 :: b2 :: b3 :: rest =>
    rest.foldl mixByte (rotate (h ^^^ (littleEndian [b0, b1, b2, b3] * prime1)) 23 * prime2 + prime3)
  | rest => rest.foldl mixByte h

def avalanche (h : UInt64) : UInt64 :=
  let h := (h ^^^ (h >>> 33)) * prime2
  let h := (h ^^^ (h >>> 29)) * prime3
  h ^^^ (h >>> 32)

def sum (bytes : List UInt8) : UInt64 :=
  let (ws, rest) := words bytes
  let (lanes, ws) := Lanes.take {} ws
  let start := if 32 ≤ bytes.length then lanes.sum else prime5
  avalanche (mixRest (ws.foldl mixWord (start + UInt64.ofNat bytes.length)) rest)

end JvmLint.XxHash
