import FileRelay.Zstd.Bits

/-!
# Zstd/StateTable — the finite-state code of symbols

A **distribution** gives each symbol a share of the `2 ^ log` states of a coder; a share of `-1` is
one state for a symbol that is rarer than that.  A **table** says of each state its symbol and how
the next state is made from some bits.  `StateTable.ofShares` makes the table of a distribution, and
`shares?` reads a distribution from its description.
-/

namespace FileRelay.Zstd

/-- What a state stands for: its symbol, the number of bits to read, and what to add to them for the
next state. -/
structure Cell where
  symbol : Nat
  bits : Nat
  base : Nat
  deriving DecidableEq, Inhabited

/-- A **table** of `2 ^ log` states. -/
structure StateTable where
  log : Nat
  cells : Array Cell
  deriving DecidableEq, Inhabited

/-! ## Distributions -/

/-- The shares of the symbols from zero on. -/
abbrev Shares := List Int

namespace Shares

/-- Runs of zero shares: each `11` is three of them and another number follows. -/
def zeros? : Bits → Option (Nat × Bits)
  | true :: true :: bits => (zeros? bits).map fun r => (r.1 + 3, r.2)
  | a :: b :: bits => some (a.toNat + 2 * b.toNat, bits)
  | _ => none

/-- The share of one symbol when `left - 1` states are left: a number below `left + 1` in as few
bits as the number allows, less one. -/
def share? (left : Nat) (bits : Bits) : Option (Int × Bits) :=
  let k := left.log2
  let spare := 1 <<< (k + 1) - 1 - left
  (Bits.low? k bits).bind fun low =>
    if low.1 < spare then some ((low.1 : Int) - 1, low.2)
    else (Bits.low? 1 low.2).map fun top =>
      let v := low.1 + top.1 <<< k
      ((if 1 <<< k ≤ v then (v - spare : Nat) else v) - 1, top.2)

/-- The shares from the next symbol on: `slots` symbols may follow, `left - 1` states are left, and
the next `run` symbols have no share. -/
def list? : (slots left run : Nat) → Bits → Option (Shares × Bits)
  | 0, _, _, _ => none
  | slots + 1, left, run + 1, bits => (list? slots left run bits).map fun r => (0 :: r.1, r.2)
  | slots + 1, left, 0, bits =>
    (share? left bits).bind fun s =>
      let left' := left - s.1.natAbs
      if left' ≤ 1 then (if left' = 1 then some ([s.1], s.2) else none)
      else if s.1 = 0 then
        (zeros? s.2).bind fun z => (list? slots left' z.1 z.2).map fun r => (s.1 :: r.1, r.2)
      else (list? slots left' 0 s.2).map fun r => (s.1 :: r.1, r.2)

/-- **The distribution that a section begins with**, over at most `symbols` symbols: its logarithm,
the shares, and the number of octets of the description. -/
def read? (symbols : Nat) (s : Bytes) : Option (Nat × Shares × Nat) :=
  let all := Bits.forwards s
  (Bits.low? 4 all).bind fun log =>
    (list? symbols (1 <<< (log.1 + 5) + 1) 0 log.2).map fun r =>
      (log.1 + 5, r.1, (all.length - r.2.length + 7) / 8)

end Shares

/-! ## Tables -/

namespace StateTable

/-- The symbols with their shares. -/
def numbered (shares : Shares) : List (Nat × Int) := shares.zipIdx.map fun p => (p.2, p.1)

/-- The symbols that are rarer than a state, in order. -/
def rare (shares : Shares) : List Nat :=
  ((numbered shares).filter fun p => p.2 == -1).map Prod.fst

/-- The other symbols in order, each as often as it has states. -/
def common (shares : Shares) : List Nat :=
  (numbered shares).flatMap fun p => List.replicate p.2.toNat p.1

/-- The states in the order in which they are given out, those of the rare symbols apart. -/
def order (size rareCount : Nat) : List Nat :=
  ((List.range size).map fun i => i * (size / 2 + size / 8 + 3) % size).filter
    fun p => p + rareCount < size

/-- The symbol of each state: the rare ones have the last states, from the end on. -/
def symbols (log : Nat) (shares : Shares) : Array Nat :=
  let size := 1 <<< log
  let rares := rare shares
  let places := (List.range rares.length).map (fun i => size - 1 - i) ++ order size rares.length
  (places.zip (rares ++ common shares)).foldl (fun a p => a.setIfInBounds p.1 p.2)
    (Array.replicate size 0)

/-- The cell of a state, when its symbol is at a count: the counts of a symbol go from its share on,
and double by the bits that are read. -/
def cell (log symbol count : Nat) : Cell :=
  let bits := log - count.log2
  ⟨symbol, bits, count <<< bits - 1 <<< log⟩

/-- The next state in order is given its cell. -/
def addCell (log : Nat) (s : Array Nat × Array Cell) (symbol : Nat) : Array Nat × Array Cell :=
  let count := s.1.getD symbol 0
  (s.1.setIfInBounds symbol (count + 1), s.2.push (cell log symbol count))

/-- **The table of a distribution.** -/
def ofShares (log : Nat) (shares : Shares) : StateTable :=
  let counts := (shares.map Int.natAbs).toArray
  ⟨log, ((symbols log shares).foldl (addCell log) (counts, #[])).2⟩

/-- The table of one symbol that takes no bits. -/
def single (symbol : Nat) : StateTable := ⟨0, #[⟨symbol, 0, 0⟩]⟩

/-- The cell of a state. -/
def get (t : StateTable) (state : Nat) : Cell := t.cells.getD state default

/-- The first state of coded data. -/
def first? (t : StateTable) (bits : Bits) : Option (Nat × Bits) := Bits.high? t.log bits

/-- The state after another. -/
def next? (t : StateTable) (state : Nat) (bits : Bits) : Option (Nat × Bits) :=
  let c := t.get state
  (Bits.high? c.bits bits).map fun r => (c.base + r.1, r.2)

end StateTable

end FileRelay.Zstd
