import FileRelay.Zstd.Checksum
import FileRelay.Zstd.Literals
import FileRelay.Zstd.Sequences

/-!
# Zstd/Frame — blocks, frames, and contents made of several frames

A **frame** is a header and a row of blocks, the last of which is marked.  A **block** is raw, one
octet repeated, or compressed: literals and sequences.  A content is a row of frames, between which
frames of a reserved kind may stand that have no content (*skippable* frames).

`decode?` makes the content and never more of it than it may: every block is held to the room that
is left.
-/

namespace FileRelay.Zstd

/-- The greatest size of a compressed block and of what it makes. -/
def blockLimit : Nat := 131072

/-! ## Blocks -/

/-- What a frame remembers from block to block: its content so far, the tree of literals, the tables
of sequences and the last distances. -/
structure Progress where
  out : Array UInt8
  tree : Option PrefixTree
  tables : Option Tables
  distances : Distances

namespace Progress

/-- The beginning of a frame. -/
def start : Progress := ⟨#[], none, none, .start⟩

/-- Some octets more, if there is room for them. -/
def append? (p : Progress) (room : Nat) (b : Bytes) : Option Progress :=
  if room < p.out.size + b.length then none else some { p with out := p.out ++ b.toArray }

/-- The size up to which a compressed block may make a content.  A block that has far more room than
its greatest size is held to that size and a little more, since the literals are kept behind it,
unless they are used in place. -/
def limit (p : Progress) (room most : Nat) (l : Literals) : Nat :=
  if !l.inPlace && most + Literals.spare + l.octets.length + Literals.spare < room - p.out.size then
    p.out.size + most + Literals.spare
  else room

/-- The sequences of a block, after its literals. -/
def sequences? (p : Progress) (room most : Nat) (l : Literals) : Option Progress :=
  (sequenceCount? l.rest).bind fun n =>
    let limit := p.limit room most l
    if n.1 = 0 then
      if n.2.isEmpty then { p with tree := l.tree }.append? limit l.octets else none
    else if room ≤ p.out.size then none
    else (Tables.read? p.tables n.2).bind fun t =>
      (Bits.backwards t.2).bind fun bits => (CodeStates.first? t.1 bits).bind fun c =>
        (runSequences? t.1 limit n.1 c.1 c.2 ⟨p.out, l.octets, p.distances⟩).bind fun made =>
          Progress.append? ⟨made.out, l.tree, some t.1, made.distances⟩ limit made.literals

/-- **A compressed block.** -/
def compressed? (p : Progress) (room most : Nat) (s : Bytes) : Option Progress :=
  if most < s.length then none
  else (Literals.read? (min most (room - p.out.size)) p.tree s).bind (p.sequences? room most)

end Progress

/-- The header of a block: is it the last one, its kind, and its size. -/
structure BlockHeader where
  last : Bool
  kind : Nat
  size : Nat

/-- The header that a text begins with, and what follows it. -/
def BlockHeader.read? : Bytes → Option (BlockHeader × Bytes)
  | a :: b :: c :: s =>
    let n := Bytes.ofLittleEndian [a, b, c]
    some (⟨n % 2 = 1, n / 2 % 4, n / 8⟩, s)
  | _ => none

/-- **One block**, when the content may have `room` octets and a block `most`. -/
def block? (room most : Nat) (p : Progress) (h : BlockHeader) (s : Bytes) :
    Option (Progress × Bytes) :=
  if h.kind = 0 then
    if s.length < h.size then none
    else (p.append? room (s.take h.size)).map fun p => (p, s.drop h.size)
  else if h.kind = 1 then
    match s with
    | [] => none
    | b :: s =>
      if room < p.out.size + h.size then none
      else (p.append? room (List.replicate h.size b)).map fun p => (p, s)
  else if h.kind = 2 then
    if s.length < h.size then none
    else (p.compressed? room most (s.take h.size)).map fun p => (p, s.drop h.size)
  else none

/-- The blocks of a frame up to its last one; the first argument bounds their number, and the
length of the text is always enough. -/
def blocks? (room most : Nat) : Nat → Progress → Bytes → Option (Progress × Bytes)
  | 0, _, _ => none
  | n + 1, p, s =>
    (BlockHeader.read? s).bind fun h => (block? room most p h.1 h.2).bind fun r =>
      if h.1.last then some r else blocks? room most n r.1 r.2

/-! ## Frames -/

/-- The header of a frame: the size of its content if it is known, the greatest size of a block, and
whether a checksum follows the last block. -/
structure FrameHeader where
  contentSize : Option Nat
  blockSize : Nat
  checksum : Bool

/-- The four octets that a frame begins with. -/
def magic : Bytes := [0x28, 0xB5, 0x2F, 0xFD]

/-- A little-endian number of `n` octets, and what follows it. -/
def number? (n : Nat) (s : Bytes) : Option (Nat × Bytes) :=
  if s.length < n then none else some (Bytes.ofLittleEndian (s.take n), s.drop n)

/-- The size of the window that an octet describes. -/
def windowSize (b : Nat) : Nat :=
  let base := 1 <<< (b / 8 + 10)
  base + base / 8 * (b % 8)

/-- The octets of the number of the dictionary, by two bits. -/
def dictionaryOctets (code : Nat) : Nat := if code = 3 then 4 else code

/-- The octets of the content's size, by two bits and whether the content is one segment. -/
def sizeOctets (code : Nat) (single : Bool) : Nat :=
  if code = 0 then single.toNat else 1 <<< code

/-- The size of the content from its field: two octets count from 256 on, and eight octets of ones
say that it is not known. -/
def contentSize? (octets n : Nat) : Option Nat :=
  if octets = 0 then none
  else if octets = 2 then some (n + 256)
  else if octets = 8 ∧ n = 0xFFFFFFFFFFFFFFFF then none
  else some n

/-- **The header of a frame** after the magic octets, and what follows it.  Dictionaries are not
known, and windows are below `2 ^ 32`. -/
def FrameHeader.read? : Bytes → Option (FrameHeader × Bytes)
  | [] => none
  | d :: s =>
    let d := d.toNat
    let single : Bool := d / 32 % 2 = 1
    let octets := sizeOctets (d / 64) single
    if d / 8 % 2 = 1 then none
    else (number? (if single then 0 else 1) s).bind fun w =>
      if 31 < w.1 / 8 + 10 then none
      else (number? (dictionaryOctets (d % 4)) w.2).bind fun dict =>
        if dict.1 ≠ 0 then none
        else (number? octets dict.2).map fun size =>
          let content := contentSize? octets size.1
          let window := if single then content.getD blockLimit else windowSize w.1
          (⟨content, min window blockLimit, d / 4 % 2 = 1⟩, size.2)

/-- Is a content what the header of its frame says, and what follows the checksum? -/
def FrameHeader.confirm? (h : FrameHeader) (content : Array UInt8) (s : Bytes) : Option Bytes :=
  if h.contentSize.any (· ≠ content.size) then none
  else if !h.checksum then some s
  else if s.length < 4 ∨ s.take 4 ≠ Checksum.stored content.toList then none
  else some (s.drop 4)

/-- **The content of a frame** of at most `room` octets, after the magic octets, and what follows
the frame. -/
def frame? (room : Nat) (s : Bytes) : Option (Array UInt8 × Bytes) :=
  (FrameHeader.read? s).bind fun h =>
    (blocks? room h.1.blockSize (s.length + 1) .start h.2).bind fun r =>
      (h.1.confirm? r.1.out r.2).map fun rest => (r.1.out, rest)

/-- What follows a skippable frame, after its first four octets. -/
def skip? (s : Bytes) : Option Bytes :=
  (number? 4 s).bind fun n => if n.2.length < n.1 then none else some (n.2.drop n.1)

/-- Do four octets begin a skippable frame? -/
def isSkippable (b : Bytes) : Bool :=
  match b with
  | a :: rest => a.toNat / 16 == 5 && rest == [0x2A, 0x4D, 0x18]
  | [] => false

/-- The contents of a row of frames; the first argument bounds their number, and the length of the
text is always enough. -/
def frames? : Nat → (room : Nat) → Bytes → Option Bytes
  | 0, _, _ => none
  | n + 1, room, s =>
    if s.isEmpty then some []
    else if s.length < 5 then none
    else if isSkippable (s.take 4) then (skip? (s.drop 4)).bind (frames? n room)
    else if s.take 4 ≠ magic then none
    else (frame? room (s.drop 4)).bind fun f =>
      (frames? n (room - f.1.size) f.2).map fun rest => f.1.toList ++ rest

/-- **The content of a row of frames**, if it has at most `room` octets. -/
def decode? (room : Nat) (s : Bytes) : Option Bytes := frames? (s.length + 1) room s

end FileRelay.Zstd
