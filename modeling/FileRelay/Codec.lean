import FileRelay.Fault
import FileRelay.Zstd.Writer

/-!
# Codec — the contents of parts, encoded and decoded

A **codec** is an encoding and a level from 1 to 22, which says how hard to look for short forms;
the writer of frames makes the same frame at every level.  Decoding is held to the size that is
expected.
-/

namespace FileRelay

/-- A **codec**. -/
structure Codec where
  encoding : Encoding
  level : Nat
  deriving DecidableEq, Repr

namespace Codec

/-- The highest level, and the level when none is asked for. -/
def highestLevel : Nat := 22
def usualLevel : Int := 3

/-- A codec of the level nearest to the one asked for. -/
def new (encoding : Encoding) (level : Int) : Codec :=
  ⟨encoding, (max 1 (min level highestLevel)).toNat⟩

/-- The codec when nothing is asked for. -/
def usual : Codec := new .zstd usualLevel

/-- **A content encoded.** -/
def encode (c : Codec) (data : Bytes) : Bytes :=
  match c.encoding with
  | .zstd => Zstd.encode data

/-- **A content decoded**, of at most `most` octets. -/
def decode (c : Codec) (most : Nat) (data : Bytes) : Except ContentError Bytes :=
  match c.encoding with
  | .zstd =>
    match Zstd.decode? most data with
    | some content => .ok content
    | none => .error (.undecodable .zstd)

end Codec

/-- **The content of a payload**, which is the payload itself unless it is encoded. -/
def decodePayload (encoding : Option Encoding) (most : Nat) (payload : Bytes) :
    Except ContentError Bytes :=
  match encoding with
  | none => .ok payload
  | some e => (Codec.new e Codec.usualLevel).decode most payload

end FileRelay
