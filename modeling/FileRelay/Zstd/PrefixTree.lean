import FileRelay.Zstd.StateTable

/-!
# Zstd/PrefixTree — the prefix code of literals

Literals are coded with a **prefix tree**: a walk from the root, one bit for each branch, ends at
the octet.  A tree is described by the **weights** of the octets: an octet of weight `w` takes `2
^ (w - 1)` of the `2 ^ log` words of the tree's height, and one of weight zero does not occur.
The last weight is not written; it is what makes the words full.  Octets are placed from the
lightest on.
-/

namespace FileRelay.Zstd

/-- A **prefix tree**. -/
inductive PrefixTree where
  | leaf (octet : UInt8)
  | node (zero one : PrefixTree)
  deriving DecidableEq

namespace PrefixTree

/-! ## Weights -/

/-- The greatest weight and the greatest height. -/
def heightLimit : Nat := 12

/-- Weights that take four bits each, the high half of an octet first. -/
def halves (n : Nat) (s : Bytes) : List Nat :=
  (s.flatMap fun b => [b.toNat / 16, b.toNat % 16]).take n

/-- The most weights that are written. -/
def weightLimit : Nat := 255

/-- Weights coded with two states in turn, until the bits run out; the symbol of the other state is
the last one. -/
def alternate (t : StateTable) : Nat → (state other : Nat) → Bits → Option (List Nat)
  | 0, _, _, _ => none
  | room + 1, state, other, bits =>
    let c := t.get state
    match t.next? state bits with
    | none => some [c.symbol, (t.get other).symbol]
    | some r => (alternate t room other r.1 r.2).map (c.symbol :: ·)

/-- Weights coded with a table that is described in front of them. -/
def codedWeights? (s : Bytes) : Option (List Nat) :=
  (Shares.read? 256 s).bind fun d =>
    let most := if d.1 ≤ 5 then 91 else 11
    if 6 < d.1 ∨ most + 1 < d.2.1.length ∨ s.length < d.2.2 then none
    else
      let t := StateTable.ofShares d.1 d.2.1
      (Bits.backwards (s.drop d.2.2)).bind fun bits =>
        (t.first? bits).bind fun a => (t.first? a.2).bind fun b =>
          alternate t (weightLimit - 1) a.1 b.1 b.2

/-- The written weights, and the number of octets they take. -/
def weights? : Bytes → Option (List Nat × Nat)
  | [] => none
  | h :: s =>
    let n := h.toNat
    if 128 ≤ n then
      let count := n - 127
      let octets := (count + 1) / 2
      if s.length < octets then none else some (halves count (s.take octets), octets + 1)
    else if s.length < n then none
    else (codedWeights? (s.take n)).map fun w => (w, n + 1)

/-- The words that a weight takes. -/
def words (w : Nat) : Nat := 1 <<< w / 2

/-- All weights with the last one, and the height of the tree. -/
def complete? (ws : List Nat) : Option (List Nat × Nat) :=
  let total := (ws.map words).foldl (· + ·) 0
  if total = 0 ∨ ws.any (heightLimit < ·) then none
  else
    let height := total.log2 + 1
    let rest := 1 <<< height - total
    let all := ws ++ [rest.log2 + 1]
    let lightest := all.count 1
    if heightLimit < height ∨ 1 <<< rest.log2 ≠ rest ∨ lightest < 2 ∨ lightest % 2 = 1 then none
    else some (all, height)

/-! ## Trees -/

/-- The octets in the order of their places, the lightest first, each with its weight. -/
def placed (ws : List Nat) : List (Nat × UInt8) :=
  (List.range heightLimit).flatMap fun i =>
    (ws.zipIdx.filter fun p => p.1 = i + 1).map fun p => (p.1, UInt8.ofNat p.2)

/-- The tree of a height over the first of some octets, and the octets that are left. -/
def grow : Nat → List (Nat × UInt8) → Option (PrefixTree × List (Nat × UInt8))
  | _, [] => none
  | 0, c :: cs => if c.1 = 1 then some (.leaf c.2, cs) else none
  | h + 1, c :: cs =>
    if c.1 = h + 2 then some (.leaf c.2, cs)
    else (grow h (c :: cs)).bind fun z => (grow h z.2).map fun o => (.node z.1 o.1, o.2)

/-- **The tree that a section begins with**, and the number of octets of its description. -/
def read? (s : Bytes) : Option (PrefixTree × Nat) :=
  (weights? s).bind fun w => (complete? w.1).bind fun c => (grow c.2 (placed c.1)).bind fun t =>
    if t.2.isEmpty then some (t.1, w.2) else none

/-! ## Walks -/

/-- The octet that some bits lead to, and the bits after them. -/
def octet? : PrefixTree → Bits → Option (UInt8 × Bits)
  | .leaf b, bits => some (b, bits)
  | .node _ _, [] => none
  | .node z _, false :: bits => z.octet? bits
  | .node _ o, true :: bits => o.octet? bits

/-- So many octets, which take all the bits; those before them are given, the last one first. -/
def octetsFrom? (t : PrefixTree) : Nat → Bits → List UInt8 → Option Bytes
  | 0, bits, done => if bits.isEmpty then some done.reverse else none
  | n + 1, bits, done => (t.octet? bits).bind fun r => t.octetsFrom? n r.2 (r.1 :: done)

/-- **The octets coded in a section.** -/
def decode? (t : PrefixTree) (n : Nat) (s : Bytes) : Option Bytes :=
  (Bits.backwards s).bind fun bits => t.octetsFrom? n bits []

end PrefixTree

end FileRelay.Zstd
