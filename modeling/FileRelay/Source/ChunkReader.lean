import FileRelay.Bytes

/-!
# Source/ChunkReader — a file read in parts while it may change

A reader takes the length of a file when it opens it, and then reads chunks of one size up to that
length, of the content that the file has at the time.  When the file turns out to be shorter, the
last chunk is what there is, and no other follows even if the file grows again.
-/

namespace FileRelay

/-- A part of a file as it was read. -/
structure Chunk where
  number : Nat
  start : Nat
  data : Bytes
  deriving DecidableEq, Repr

/-- Where a reader stands in a file. -/
structure ChunkReader where
  partSize : Nat
  fileSize : Nat
  offset : Nat
  partsRead : Nat
  exhausted : Bool
  deriving DecidableEq, Repr

namespace ChunkReader

/-- The size of the chunks when none is asked for. -/
def usualPartSize : Nat := 65536

/-- A reader at the beginning of a file of this length. -/
def openAt (fileSize partSize : Nat) : ChunkReader :=
  ⟨if partSize = 0 then usualPartSize else partSize, fileSize, 0, 0, false⟩

/-- What is left of the length. -/
def remaining (r : ChunkReader) : Nat := r.fileSize - r.offset

/-- **The next chunk** of a file of this content, if there is one. -/
def next (r : ChunkReader) (content : Bytes) : Option Chunk × ChunkReader :=
  if r.exhausted || r.fileSize ≤ r.offset then (none, r)
  else
    let want := min r.remaining r.partSize
    let data := (content.drop r.offset).take want
    let r := { r with exhausted := decide (data.length < want) }
    if data.isEmpty then (none, r)
    else (some ⟨r.partsRead + 1, r.offset, data⟩,
      { r with offset := r.offset + data.length, partsRead := r.partsRead + 1 })

end ChunkReader

end FileRelay
