/-!
# The 64-bit digest of a byte string

The xxHash digest of 64 bits with seed zero. Input of 32 bytes or more runs through four lanes of eight bytes
each, which are merged at the end; the remaining bytes are then taken eight, four and one at a time, and a last
avalanche spreads every input bit over the whole word.
-/

namespace Interop.Digest

def prime1 : UInt64 := 0x9E3779B185EBCA87
def prime2 : UInt64 := 0xC2B2AE3D27D4EB4F
def prime3 : UInt64 := 0x165667B19E3779F9
def prime4 : UInt64 := 0x85EBCA77C2B2AE63
def prime5 : UInt64 := 0x27D4EB2F165667C5

/-- The word with its bits moved `n` places to the left around its ends. -/
def rotate (x : UInt64) (n : UInt64) : UInt64 := (x <<< n) ||| (x >>> (64 - n))

/-- Bytes as a word, the lowest first. -/
def littleEndian : List UInt8 → UInt64
  | [] => 0
  | b :: rest => b.toUInt64 ||| (littleEndian rest <<< 8)

/-- One lane takes in a word. -/
def mixLane (lane word : UInt64) : UInt64 := rotate (lane + word * prime2) 31 * prime1

/-- One lane is merged into the digest. -/
def mergeLane (digest lane : UInt64) : UInt64 := (digest ^^^ mixLane 0 lane) * prime1 + prime4

/-- The four lanes. -/
structure Lanes where
  a : UInt64
  b : UInt64
  c : UInt64
  d : UInt64

def Lanes.start : Lanes := ⟨prime1 + prime2, prime2, 0, 0 - prime1⟩

/-- The four lanes take in a stripe of 32 bytes. -/
def Lanes.stripe (l : Lanes) (bytes : List UInt8) : Lanes :=
  ⟨mixLane l.a (littleEndian (bytes.take 8)),
   mixLane l.b (littleEndian ((bytes.drop 8).take 8)),
   mixLane l.c (littleEndian ((bytes.drop 16).take 8)),
   mixLane l.d (littleEndian ((bytes.drop 24).take 8))⟩

/-- The lanes after `n` stripes. -/
def Lanes.stripes : Nat → Lanes → List UInt8 → Lanes
  | 0, l, _ => l
  | n + 1, l, bytes => stripes n (l.stripe bytes) (bytes.drop 32)

def Lanes.merged (l : Lanes) : UInt64 :=
  let sum := rotate l.a 1 + rotate l.b 7 + rotate l.c 12 + rotate l.d 18
  mergeLane (mergeLane (mergeLane (mergeLane sum l.a) l.b) l.c) l.d

/-- Whole words of eight bytes; `n` of them are left. -/
def takeWords : Nat → UInt64 → List UInt8 → UInt64
  | 0, digest, _ => digest
  | n + 1, digest, bytes =>
    takeWords n (rotate (digest ^^^ mixLane 0 (littleEndian (bytes.take 8))) 27 * prime1 + prime4) (bytes.drop 8)

/-- A half word of four bytes, if one is left. -/
def takeHalf (digest : UInt64) (bytes : List UInt8) : UInt64 :=
  rotate (digest ^^^ (littleEndian bytes * prime1)) 23 * prime2 + prime3

/-- The last bytes, one at a time. -/
def takeBytes : UInt64 → List UInt8 → UInt64
  | digest, [] => digest
  | digest, b :: rest => takeBytes (rotate (digest ^^^ (b.toUInt64 * prime5)) 11 * prime1) rest

/-- Spreads every bit over the word. -/
def avalanche (x : UInt64) : UInt64 :=
  let x := (x ^^^ (x >>> 33)) * prime2
  let x := (x ^^^ (x >>> 29)) * prime3
  x ^^^ (x >>> 32)

/-- The digest of a byte string. -/
def ofBytes (bytes : List UInt8) : UInt64 :=
  let length := bytes.length
  let start := if length ≥ 32 then (Lanes.stripes (length / 32) .start bytes).merged else prime5
  let tail := bytes.drop (length / 32 * 32)
  let digest := takeWords (tail.length / 8) (start + length.toUInt64) tail
  let tail := tail.drop (tail.length / 8 * 8)
  if tail.length ≥ 4 then
    avalanche (takeBytes (takeHalf digest (tail.take 4)) (tail.drop 4))
  else
    avalanche (takeBytes digest tail)

/-- The digest of a text, by its UTF-8 bytes. -/
def ofText (s : String) : UInt64 := ofBytes s.toUTF8.data.toList

end Interop.Digest
