import FileRelay.Bytes

/-!
# Zstd/Bits — rows of bits, read forwards and backwards

Descriptions of tables are read **forwards**: from the first octet on, in each octet from the least
significant bit on, and a number's low bits come first.  Coded data are read **backwards**: from the
last octet on, in each octet from the most significant bit on, and a number's high bits come first.
The highest one bit of the last octet marks where the data begin and does not belong to them.

Either way a section becomes a list of bits once, in the order in which they are read.
-/

namespace FileRelay.Zstd

/-- A row of bits, in the order in which they are read. -/
abbrev Bits := List Bool

namespace Bits

/-- The low `n` bits of an octet, the least significant first. -/
def lowFirst (n : Nat) (b : UInt8) : Bits := (List.range n).map fun i => b.toNat.testBit i

/-- The low `n` bits of an octet, the most significant first. -/
def highFirst (n : Nat) (b : UInt8) : Bits := (lowFirst n b).reverse

/-- A section read forwards. -/
def forwards (s : Bytes) : Bits := s.flatMap (lowFirst 8)

/-- **A section read backwards**; there is none without the mark. -/
def backwards (s : Bytes) : Option Bits :=
  match s.reverse with
  | [] => none
  | b :: rest =>
    if b = 0 then none
    else some (highFirst b.toNat.log2 b ++ rest.flatMap (highFirst 8))

/-- The first `n` bits and those after them, if there are so many. -/
def take? : Nat → Bits → Option (Bits × Bits)
  | 0, bits => some ([], bits)
  | _ + 1, [] => none
  | n + 1, b :: bits => (take? n bits).map fun r => (b :: r.1, r.2)

/-- The number whose high bits come first. -/
def value (bits : Bits) : Nat := bits.foldl (fun v b => 2 * v + b.toNat) 0

/-- A number of `n` bits, the low ones first, and what follows it. -/
def low? (n : Nat) (bits : Bits) : Option (Nat × Bits) :=
  (take? n bits).map fun r => (value r.1.reverse, r.2)

/-- A number of `n` bits, the high ones first, and what follows it. -/
def high? (n : Nat) (bits : Bits) : Option (Nat × Bits) :=
  (take? n bits).map fun r => (value r.1, r.2)

end Bits

end FileRelay.Zstd
