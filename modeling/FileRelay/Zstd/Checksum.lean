import FileRelay.Bytes

/-!
# Zstd/Checksum — the 64-bit checksum of a frame's content

The content is taken in **stripes** of four lanes of eight octets, each lane stirred into an
accumulator of its own; what is left over after the last stripe is stirred in at the end in pieces
of eight, four and one octets.  A frame stores the low half of the result.
-/

namespace FileRelay.Zstd.Checksum

def prime1 : UInt64 := 0x9E3779B185EBCA87
def prime2 : UInt64 := 0xC2B2AE3D27D4EB4F
def prime3 : UInt64 := 0x165667B19E3779F9
def prime4 : UInt64 := 0x85EBCA77C2B2AE63
def prime5 : UInt64 := 0x27D4EB2F165667C5

/-- A word turned to the left. -/
def turn (x n : UInt64) : UInt64 := (x <<< n) ||| (x >>> (64 - n))

/-- The first `n` octets of a text as a word, the least significant first. -/
def lane (n : Nat) (b : Bytes) : UInt64 := UInt64.ofNat (Bytes.ofLittleEndian (b.take n))

/-- One lane stirred into an accumulator. -/
def stir (acc x : UInt64) : UInt64 := turn (acc + x * prime2) 31 * prime1

/-- The four accumulators. -/
structure Lanes where
  a : UInt64
  b : UInt64
  c : UInt64
  d : UInt64

/-- The accumulators at the beginning. -/
def Lanes.first : Lanes := ⟨prime1 + prime2, prime2, 0, 0 - prime1⟩

/-- One stripe. -/
def Lanes.stripe (l : Lanes) (s : Bytes) : Lanes :=
  ⟨stir l.a (lane 8 s), stir l.b (lane 8 (s.drop 8)), stir l.c (lane 8 (s.drop 16)),
    stir l.d (lane 8 (s.drop 24))⟩

/-- So many stripes, and what follows them. -/
def Lanes.stripes : Nat → Lanes → Bytes → Lanes × Bytes
  | 0, l, s => (l, s)
  | n + 1, l, s => stripes n (l.stripe s) (s.drop 32)

/-- An accumulator merged into the sum of all. -/
def merge (h acc : UInt64) : UInt64 := (h ^^^ stir 0 acc) * prime1 + prime4

/-- The accumulators together. -/
def Lanes.join (l : Lanes) : UInt64 :=
  [l.a, l.b, l.c, l.d].foldl merge (turn l.a 1 + turn l.b 7 + turn l.c 12 + turn l.d 18)

/-- Pieces of eight octets. -/
def eights : Nat → UInt64 → Bytes → UInt64
  | 0, h, _ => h
  | n + 1, h, s => eights n (turn (h ^^^ stir 0 (lane 8 s)) 27 * prime1 + prime4) (s.drop 8)

/-- A piece of four octets, if there is one. -/
def four (h : UInt64) (s : Bytes) : UInt64 :=
  if s.length < 4 then h else turn (h ^^^ (lane 4 s * prime1)) 23 * prime2 + prime3

/-- One octet. -/
def one (h : UInt64) (b : UInt8) : UInt64 := turn (h ^^^ (b.toUInt64 * prime5)) 11 * prime1

/-- The last stirring. -/
def settle (h : UInt64) : UInt64 :=
  let h := (h ^^^ (h >>> 33)) * prime2
  let h := (h ^^^ (h >>> 29)) * prime3
  h ^^^ (h >>> 32)

/-- **The checksum of a content.** -/
def of (content : Bytes) : UInt64 :=
  let n := content.length
  let start := if n < 32 then (prime5, content) else
    let r := Lanes.stripes (n / 32) .first content
    (r.1.join, r.2)
  let rest := start.2
  let m := rest.length
  let h := eights (m / 8) (start.1 + UInt64.ofNat n) rest
  let tail := rest.drop (m / 8 * 8)
  let h := four h tail
  settle ((tail.drop (m % 8 / 4 * 4)).foldl one h)

/-- The four octets that a frame stores. -/
def stored (content : Bytes) : Bytes := Bytes.littleEndian 4 (of content).toNat

end FileRelay.Zstd.Checksum
