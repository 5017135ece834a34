import FileRelay.Zstd.StateTable

/-!
# Zstd/Sequences — the sequences of a compressed block

A **sequence** is a number of literals to take, and then a length and a distance: so many octets of
what is already there are repeated, from that far back.  The three numbers are coded by a code each,
with further bits where a code stands for a range of numbers; the codes are coded with state tables.
What literals are left after the last sequence are taken too.

A distance may name one of the last three distances instead (`Distances`).
-/

namespace FileRelay.Zstd

/-! ## Codes -/

/-- Ranges of `2 ^ b` numbers for each `b` in turn, each range beginning where the one before it
ends: where they begin, and their bits. -/
def ranges : Nat → List Nat → List (Nat × Nat)
  | _, [] => []
  | start, b :: bs => (start, b) :: ranges (start + 1 <<< b) bs

/-- The numbers of literals that the codes stand for. -/
def literalRanges : List (Nat × Nat) :=
  ranges 0 (List.replicate 16 0 ++
    [1, 1, 1, 1, 2, 2, 3, 3, 4, 6, 7, 8, 9, 10, 11, 12, 13, 14, 15, 16])

/-- The lengths that the codes stand for. -/
def matchRanges : List (Nat × Nat) :=
  ranges 3 (List.replicate 32 0 ++
    [1, 1, 1, 1, 2, 2, 3, 3, 4, 4, 5, 7, 8, 9, 10, 11, 12, 13, 14, 15, 16])

/-- One of the three codes: the greatest code, the greatest logarithm of its tables, and the table
that needs no description. -/
structure CodeKind where
  most : Nat
  logLimit : Nat
  usual : StateTable

def literalCode : CodeKind := ⟨35, 9, .ofShares 6
  [4, 3, 2, 2, 2, 2, 2, 2, 2, 2, 2, 2, 2, 1, 1, 1, 2, 2, 2, 2, 2, 2, 2, 2, 2, 3, 2, 1, 1, 1, 1, 1,
    -1, -1, -1, -1]⟩

def distanceCode : CodeKind := ⟨31, 8, .ofShares 5
  [1, 1, 1, 1, 1, 1, 2, 2, 2, 1, 1, 1, 1, 1, 1, 1, 1, 1, 1, 1, 1, 1, 1, 1, -1, -1, -1, -1, -1]⟩

def matchCode : CodeKind := ⟨52, 9, .ofShares 6
  [1, 4, 3, 2, 2, 2, 2, 2, 2, 1, 1, 1, 1, 1, 1, 1, 1, 1, 1, 1, 1, 1, 1, 1, 1, 1, 1, 1, 1, 1, 1, 1,
    1, 1, 1, 1, 1, 1, 1, 1, 1, 1, 1, 1, 1, 1, -1, -1, -1, -1, -1, -1, -1]⟩

/-- The tables of the three codes. -/
structure Tables where
  literal : StateTable
  distance : StateTable
  length : StateTable

/-- The table of one code, in one of four manners (the usual one, one symbol, a description, the
table of an earlier block), and what follows its description. -/
def CodeKind.table? (k : CodeKind) (manner : Nat) (earlier : Option StateTable) (s : Bytes) :
    Option (StateTable × Bytes) :=
  if manner = 0 then some (k.usual, s)
  else if manner = 1 then
    match s with
    | [] => none
    | b :: rest => if k.most < b.toNat then none else some (.single b.toNat, rest)
  else if manner = 2 then
    (Shares.read? (k.most + 1) s).bind fun d =>
      if k.logLimit < d.1 ∨ s.length < d.2.2 then none
      else some (.ofShares d.1 d.2.1, s.drop d.2.2)
  else earlier.map fun t => (t, s)

/-- The number of sequences, and what follows it. -/
def sequenceCount? : Bytes → Option (Nat × Bytes)
  | [] => none
  | a :: s =>
    if a.toNat < 128 then some (a.toNat, s)
    else if a.toNat < 255 then
      match s with
      | [] => none
      | b :: s => some ((a.toNat - 128) * 256 + b.toNat, s)
    else
      match s with
      | b :: c :: s => some (b.toNat + 256 * c.toNat + 0x7F00, s)
      | _ => none

/-- The tables of a block, and what follows their descriptions. -/
def Tables.read? (earlier : Option Tables) : Bytes → Option (Tables × Bytes)
  | [] => none
  | m :: s =>
    let m := m.toNat
    if m % 4 ≠ 0 then none
    else (literalCode.table? (m / 64) (earlier.map Tables.literal) s).bind fun l =>
      (distanceCode.table? (m / 16 % 4) (earlier.map Tables.distance) l.2).bind fun d =>
        (matchCode.table? (m / 4 % 4) (earlier.map Tables.length) d.2).map fun t =>
          (⟨l.1, d.1, t.1⟩, t.2)

/-! ## Distances -/

/-- The last three distances, the latest first. -/
structure Distances where
  first : Nat
  second : Nat
  third : Nat
  deriving DecidableEq

namespace Distances

/-- The distances at the beginning of a frame. -/
def start : Distances := ⟨1, 4, 8⟩

/-- **The distance that a number stands for**, and the last three distances after it.  The numbers
from one to three name one of the last three, or the next of them when no literals are taken; what
would come after the third is one less than the first.  A distance is not zero. -/
def resolve? (d : Distances) (n literals : Nat) : Option (Nat × Distances) :=
  if 3 < n then some (n - 3, ⟨n - 3, d.first, d.second⟩)
  else
    let which := if literals = 0 then n else n - 1
    if which = 0 then some (d.first, d)
    else if which = 1 then some (d.second, ⟨d.second, d.first, d.third⟩)
    else
      let far := if which = 2 then d.third else d.first - 1
      if far = 0 then none else some (far, ⟨far, d.first, d.second⟩)

end Distances

/-! ## Running the sequences -/

/-- The content so far, with some of its last octets repeated one by one. -/
def repeatBack (distance : Nat) : Nat → Array UInt8 → Array UInt8
  | 0, out => out
  | n + 1, out => repeatBack distance n (out.push (out.getD (out.size - distance) 0))

/-- A repetition makes as many octets as it says. -/
@[simp] theorem size_repeatBack (distance n : Nat) (out : Array UInt8) :
    (repeatBack distance n out).size = out.size + n := by
  induction n generalizing out with
  | zero => rfl
  | succ n ih => simp only [repeatBack, ih, Array.size_push]; omega

/-- One sequence: literals, a length and a distance that looks back at most to the beginning. -/
def copy? (limit literals length distance : Nat) (lits : Bytes) (out : Array UInt8) :
    Option (Bytes × Array UInt8) :=
  let taken := lits.take literals
  if taken.length < literals ∨ limit < out.size + literals + length ∨
      out.size + literals < distance then none
  else some (lits.drop literals, repeatBack distance length (out ++ taken.toArray))

/-- Where a reader of sequences stands: the states of the three codes. -/
structure CodeStates where
  literal : Nat
  distance : Nat
  length : Nat

/-- The states at the beginning. -/
def CodeStates.first? (t : Tables) (bits : Bits) : Option (CodeStates × Bits) :=
  (t.literal.first? bits).bind fun l => (t.distance.first? l.2).bind fun d =>
    (t.length.first? d.2).map fun m => (⟨l.1, d.1, m.1⟩, m.2)

/-- The states of the next sequence. -/
def CodeStates.next? (t : Tables) (c : CodeStates) (bits : Bits) : Option (CodeStates × Bits) :=
  (t.literal.next? c.literal bits).bind fun l => (t.length.next? c.length l.2).bind fun m =>
    (t.distance.next? c.distance m.2).map fun d => (⟨l.1, d.1, m.1⟩, d.2)

/-- The number of literals, the length and the number for a distance of one sequence. -/
def numbers? (t : Tables) (c : CodeStates) (bits : Bits) : Option (Nat × Nat × Nat × Bits) :=
  let l := literalRanges.getD (t.literal.get c.literal).symbol (0, 0)
  let m := matchRanges.getD (t.length.get c.length).symbol (0, 0)
  let k := (t.distance.get c.distance).symbol
  (Bits.high? k bits).bind fun d => (Bits.high? m.2 d.2).bind fun n =>
    (Bits.high? l.2 n.2).map fun r => (l.1 + r.1, m.1 + n.1, 1 <<< k + d.1, r.2)

/-- What sequences have made: the content, the literals that are left, and the last distances. -/
structure Made where
  out : Array UInt8
  literals : Bytes
  distances : Distances

/-- **So many sequences**, whose bits are all there are. -/
def runSequences? (t : Tables) (limit : Nat) : Nat → CodeStates → Bits → Made → Option Made
  | 0, _, bits, made => if bits.isEmpty then some made else none
  | n + 1, c, bits, made =>
    (numbers? t c bits).bind fun s =>
      (made.distances.resolve? s.2.2.1 s.1).bind fun d =>
        (copy? limit s.1 s.2.1 d.1 made.literals made.out).bind fun r =>
          let made := ⟨r.2, r.1, d.2⟩
          if n = 0 then runSequences? t limit n c s.2.2.2 made
          else (CodeStates.next? t c s.2.2.2).bind fun c' =>
            runSequences? t limit n c'.1 c'.2 made

end FileRelay.Zstd
