import FileRelay.Bytes

/-!
# Digest/Sha2 — the SHA-2 functions, of a whole message and of a message that comes in pieces

The functions of the family digest a message in **blocks** of sixteen words.  A block turns a
chain of eight words into the next one (`compress`), and the words of the last chain are the
digest.  They differ in the width of the words, in the shifts, in the round constants and in the
first chain; a `Family` holds the first three, and everything here is generic in it.

`Family.digest` digests a whole message: it pads the message, cuts it into blocks and compresses one
after the other.  A `Stream` takes a message in pieces of any size; it holds the octets of an
unfinished block back until the block is full.
-/

namespace FileRelay.Digest

/-- The eight words between two blocks. -/
structure Chain (W : Type) where
  a : W
  b : W
  c : W
  d : W
  e : W
  f : W
  g : W
  h : W
  deriving DecidableEq

namespace Chain

variable {W : Type}

/-- The words in order. -/
def toList (x : Chain W) : List W := [x.a, x.b, x.c, x.d, x.e, x.f, x.g, x.h]

/-- Word by word, the sum of two chains. -/
def add [Add W] (x y : Chain W) : Chain W :=
  ⟨x.a + y.a, x.b + y.b, x.c + y.c, x.d + y.d, x.e + y.e, x.f + y.f, x.g + y.g, x.h + y.h⟩

end Chain

/-- The words, shifts and constants of some of the functions. -/
structure Family (W : Type) where
  /-- The octets of a word. -/
  wordOctets : Nat
  ofNat : Nat → W
  toNat : W → Nat
  /-- One constant for each round. -/
  constants : List W
  bigSigma0 : W → W
  bigSigma1 : W → W
  smallSigma0 : W → W
  smallSigma1 : W → W

namespace Family

variable {W : Type} [Add W] [XorOp W] [AndOp W] [Complement W] (r : Family W)

/-- The octets of a block. -/
def blockOctets : Nat := 16 * r.wordOctets

/-- The octets in which a padded message ends with its length in bits. -/
def lengthOctets : Nat := 2 * r.wordOctets

/-! ## One block -/

/-- The words of a row of octets. -/
def words : Nat → Bytes → List W
  | 0, _ => []
  | n + 1, b => r.ofNat (Bytes.ofBigEndian (b.take r.wordOctets)) :: words n (b.drop r.wordOctets)

/-- The word after sixteen words of the schedule. -/
def scheduled (w : List W) : W :=
  let word := fun i => w.getD i (r.ofNat 0)
  r.smallSigma1 (word 14) + word 9 + r.smallSigma0 (word 1) + word 0

/-- The first word chooses between the two others, bit by bit. -/
def choose (e f g : W) : W := (e &&& f) ^^^ (~~~e &&& g)

/-- The majority of three words, bit by bit. -/
def majority (a b c : W) : W := (a &&& b) ^^^ (a &&& c) ^^^ (b &&& c)

/-- One round: the chain is stirred with a constant and the first of the scheduled words, of which
there are always sixteen. -/
def round (s : Chain W × List W) (k : W) : Chain W × List W :=
  let x := s.1
  let t1 := x.h + r.bigSigma1 x.e + choose x.e x.f x.g + k + s.2.headD (r.ofNat 0)
  let t2 := r.bigSigma0 x.a + majority x.a x.b x.c
  (⟨t1 + t2, x.a, x.b, x.c, x.d + t1, x.e, x.f, x.g⟩, s.2.tail ++ [r.scheduled s.2])

/-- **The chain after a block.** -/
def compress (x : Chain W) (block : Bytes) : Chain W :=
  x.add (r.constants.foldl r.round (x, r.words 16 block)).1

/-! ## A whole message -/

/-- What a message of `n` octets is padded with: a one bit, zeros, and its length in bits. -/
def padding (n : Nat) : Bytes :=
  let zeros := (2 * r.blockOctets - 1 - r.lengthOctets - n % r.blockOctets) % r.blockOctets
  0x80 :: (List.replicate zeros 0 ++ Bytes.bigEndian r.lengthOctets (8 * n))

/-- The chain after so many blocks of a message. -/
def compressBlocks : Nat → Chain W → Bytes → Chain W
  | 0, x, _ => x
  | n + 1, x, m =>
    compressBlocks n (r.compress x (m.take r.blockOctets)) (m.drop r.blockOctets)

/-- The octets of a chain. -/
def octets (x : Chain W) : Bytes :=
  x.toList.flatMap fun w => Bytes.bigEndian r.wordOctets (r.toNat w)

/-- **The digest of a whole message**, from a first chain. -/
def digest (first : Chain W) (m : Bytes) : Bytes :=
  let padded := m ++ r.padding m.length
  r.octets (r.compressBlocks (padded.length / r.blockOctets) first padded)

end Family

/-! ## A message in pieces -/

/-- A message of which some octets have come: the chain after its full blocks, the octets of the
unfinished block with the last one first, and the number of all of them. -/
structure Stream (W : Type) where
  chain : Chain W
  held : List UInt8
  length : Nat
  deriving DecidableEq

namespace Stream

variable {W : Type} [Add W] [XorOp W] [AndOp W] [Complement W] (r : Family W)

/-- No octet has come. -/
def start (first : Chain W) : Stream W := ⟨first, [], 0⟩

/-- One more octet. -/
def push (s : Stream W) (b : UInt8) : Stream W :=
  if (s.length + 1) % r.blockOctets = 0 then
    ⟨r.compress s.chain (b :: s.held).reverse, [], s.length + 1⟩
  else ⟨s.chain, b :: s.held, s.length + 1⟩

/-- **One more piece.** -/
def absorb (s : Stream W) (piece : Bytes) : Stream W := piece.foldl (push r) s

/-- **The digest of the octets that have come.** -/
def finish (s : Stream W) : Bytes := r.octets (s.absorb r (r.padding s.length)).chain

/-- Where a message is cut makes no difference. -/
theorem absorb_append (s : Stream W) (p q : Bytes) :
    s.absorb r (p ++ q) = (s.absorb r p).absorb r q := by
  simp [absorb]

@[simp] theorem absorb_nil (s : Stream W) : s.absorb r [] = s := rfl

end Stream

/-! ## The two families -/

/-- A 32-bit word turned to the right. -/
def turn32 (x n : UInt32) : UInt32 := (x >>> n) ||| (x <<< (32 - n))

/-- A 64-bit word turned to the right. -/
def turn64 (x n : UInt64) : UInt64 := (x >>> n) ||| (x <<< (64 - n))

/-- The first bits of the fractions of the cube roots of the first 64 primes. -/
def constants32 : List UInt32 := [
  0x428A2F98, 0x71374491, 0xB5C0FBCF, 0xE9B5DBA5, 0x3956C25B, 0x59F111F1,
  0x923F82A4, 0xAB1C5ED5, 0xD807AA98, 0x12835B01, 0x243185BE, 0x550C7DC3,
  0x72BE5D74, 0x80DEB1FE, 0x9BDC06A7, 0xC19BF174, 0xE49B69C1, 0xEFBE4786,
  0x0FC19DC6, 0x240CA1CC, 0x2DE92C6F, 0x4A7484AA, 0x5CB0A9DC, 0x76F988DA,
  0x983E5152, 0xA831C66D, 0xB00327C8, 0xBF597FC7, 0xC6E00BF3, 0xD5A79147,
  0x06CA6351, 0x14292967, 0x27B70A85, 0x2E1B2138, 0x4D2C6DFC, 0x53380D13,
  0x650A7354, 0x766A0ABB, 0x81C2C92E, 0x92722C85, 0xA2BFE8A1, 0xA81A664B,
  0xC24B8B70, 0xC76C51A3, 0xD192E819, 0xD6990624, 0xF40E3585, 0x106AA070,
  0x19A4C116, 0x1E376C08, 0x2748774C, 0x34B0BCB5, 0x391C0CB3, 0x4ED8AA4A,
  0x5B9CCA4F, 0x682E6FF3, 0x748F82EE, 0x78A5636F, 0x84C87814, 0x8CC70208,
  0x90BEFFFA, 0xA4506CEB, 0xBEF9A3F7, 0xC67178F2]

/-- The first bits of the fractions of the cube roots of the first 80 primes. -/
def constants64 : List UInt64 := [
  0x428A2F98D728AE22, 0x7137449123EF65CD, 0xB5C0FBCFEC4D3B2F, 0xE9B5DBA58189DBBC,
  0x3956C25BF348B538, 0x59F111F1B605D019, 0x923F82A4AF194F9B, 0xAB1C5ED5DA6D8118,
  0xD807AA98A3030242, 0x12835B0145706FBE, 0x243185BE4EE4B28C, 0x550C7DC3D5FFB4E2,
  0x72BE5D74F27B896F, 0x80DEB1FE3B1696B1, 0x9BDC06A725C71235, 0xC19BF174CF692694,
  0xE49B69C19EF14AD2, 0xEFBE4786384F25E3, 0x0FC19DC68B8CD5B5, 0x240CA1CC77AC9C65,
  0x2DE92C6F592B0275, 0x4A7484AA6EA6E483, 0x5CB0A9DCBD41FBD4, 0x76F988DA831153B5,
  0x983E5152EE66DFAB, 0xA831C66D2DB43210, 0xB00327C898FB213F, 0xBF597FC7BEEF0EE4,
  0xC6E00BF33DA88FC2, 0xD5A79147930AA725, 0x06CA6351E003826F, 0x142929670A0E6E70,
  0x27B70A8546D22FFC, 0x2E1B21385C26C926, 0x4D2C6DFC5AC42AED, 0x53380D139D95B3DF,
  0x650A73548BAF63DE, 0x766A0ABB3C77B2A8, 0x81C2C92E47EDAEE6, 0x92722C851482353B,
  0xA2BFE8A14CF10364, 0xA81A664BBC423001, 0xC24B8B70D0F89791, 0xC76C51A30654BE30,
  0xD192E819D6EF5218, 0xD69906245565A910, 0xF40E35855771202A, 0x106AA07032BBD1B8,
  0x19A4C116B8D2D0C8, 0x1E376C085141AB53, 0x2748774CDF8EEB99, 0x34B0BCB5E19B48A8,
  0x391C0CB3C5C95A63, 0x4ED8AA4AE3418ACB, 0x5B9CCA4F7763E373, 0x682E6FF3D6B2B8A3,
  0x748F82EE5DEFB2FC, 0x78A5636F43172F60, 0x84C87814A1F0AB72, 0x8CC702081A6439EC,
  0x90BEFFFA23631E28, 0xA4506CEBDE82BDE9, 0xBEF9A3F7B2C67915, 0xC67178F2E372532B,
  0xCA273ECEEA26619C, 0xD186B8C721C0C207, 0xEADA7DD6CDE0EB1E, 0xF57D4F7FEE6ED178,
  0x06F067AA72176FBA, 0x0A637DC5A2C898A6, 0x113F9804BEF90DAE, 0x1B710B35131C471B,
  0x28DB77F523047D84, 0x32CAAB7B40C72493, 0x3C9EBE0A15C9BEBC, 0x431D67C49C100D4C,
  0x4CC5D4BECB3E42B6, 0x597F299CFC657E2A, 0x5FCB6FAB3AD6FAEC, 0x6C44198C4A475817]

/-- The functions on 32-bit words. -/
def family32 : Family UInt32 where
  wordOctets := 4
  ofNat := UInt32.ofNat
  toNat := UInt32.toNat
  constants := constants32
  bigSigma0 x := turn32 x 2 ^^^ turn32 x 13 ^^^ turn32 x 22
  bigSigma1 x := turn32 x 6 ^^^ turn32 x 11 ^^^ turn32 x 25
  smallSigma0 x := turn32 x 7 ^^^ turn32 x 18 ^^^ (x >>> 3)
  smallSigma1 x := turn32 x 17 ^^^ turn32 x 19 ^^^ (x >>> 10)

/-- The functions on 64-bit words. -/
def family64 : Family UInt64 where
  wordOctets := 8
  ofNat := UInt64.ofNat
  toNat := UInt64.toNat
  constants := constants64
  bigSigma0 x := turn64 x 28 ^^^ turn64 x 34 ^^^ turn64 x 39
  bigSigma1 x := turn64 x 14 ^^^ turn64 x 18 ^^^ turn64 x 41
  smallSigma0 x := turn64 x 1 ^^^ turn64 x 8 ^^^ (x >>> 7)
  smallSigma1 x := turn64 x 19 ^^^ turn64 x 61 ^^^ (x >>> 6)

/-- The first chain of SHA-256: the fractions of the square roots of the first eight primes. -/
def first256 : Chain UInt32 := ⟨
  0x6A09E667, 0xBB67AE85, 0x3C6EF372, 0xA54FF53A,
  0x510E527F, 0x9B05688C, 0x1F83D9AB, 0x5BE0CD19⟩

/-- The first chain of SHA-384: the fractions of the square roots of the next eight primes. -/
def first384 : Chain UInt64 := ⟨
  0xCBBB9D5DC1059ED8, 0x629A292A367CD507, 0x9159015A3070DD17, 0x152FECD8F70E5939,
  0x67332667FFC00B31, 0x8EB44A8768581511, 0xDB0C2E0D64F98FA7, 0x47B5481DBEFA4FA4⟩

/-- The first chain of SHA-512: the fractions of the square roots of the first eight primes. -/
def first512 : Chain UInt64 := ⟨
  0x6A09E667F3BCC908, 0xBB67AE8584CAA73B, 0x3C6EF372FE94F82B, 0xA54FF53A5F1D36F1,
  0x510E527FADE682D1, 0x9B05688C2B3E6C1F, 0x1F83D9ABFB41BD6B, 0x5BE0CD19137E2179⟩

end FileRelay.Digest
