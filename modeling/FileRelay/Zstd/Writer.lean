import FileRelay.Zstd.Frame

/-!
# Zstd/Writer — frames for contents

A content is written as one frame of a window of 128 KiB, in blocks of at most that size.  A block
of one repeated octet is written as such and any other block as it is, so that runs become short and
nothing becomes much longer.
-/

namespace FileRelay.Zstd

/-- The header of every frame that is written: no size, no checksum, a window of 128 KiB. -/
def writtenHeader : Bytes := magic ++ [0x00, 0x38]

/-- Is a block one octet repeated? -/
def repeatedOctet? : Bytes → Option UInt8
  | [] => none
  | b :: s => if s.all (· == b) then some b else none

/-- The header of a block. -/
def blockHeader (last : Bool) (kind size : Nat) : Bytes :=
  Bytes.littleEndian 3 (last.toNat + 2 * kind + 8 * size)

/-- One block. -/
def writeBlock (last : Bool) (b : Bytes) : Bytes :=
  match repeatedOctet? b with
  | some x => blockHeader last 1 b.length ++ [x]
  | none => blockHeader last 0 b.length ++ b

/-- The blocks of a content; the first argument is the number of blocks before the last one. -/
def writeBlocks : Nat → Bytes → Bytes
  | 0, b => writeBlock true b
  | n + 1, b => writeBlock false (b.take blockLimit) ++ writeBlocks n (b.drop blockLimit)

/-- **A content as a frame.** -/
def encode (content : Bytes) : Bytes :=
  writtenHeader ++ writeBlocks ((content.length - 1) / blockLimit) content

end FileRelay.Zstd
