import FileRelay.Digest.Algorithm
import FileRelay.Digest.Entry

/-!
# Digest/Digester — a digest that grows with its message, until it is looked at

A **digester** absorbs the pieces of a message.  The first look at its value fixes the value: later
pieces change nothing until the digester is reset.
-/

namespace FileRelay.Digest

/-- A message that is being digested, by one algorithm. -/
inductive Running where
  | sha256 (s : Stream UInt32)
  | sha384 (s : Stream UInt64)
  | sha512 (s : Stream UInt64)
  deriving DecidableEq

namespace Running

/-- Nothing has been absorbed. -/
def start : Algorithm → Running
  | .sha256 => .sha256 (.start first256)
  | .sha384 => .sha384 (.start first384)
  | .sha512 => .sha512 (.start first512)

/-- One more piece. -/
def absorb : Running → Bytes → Running
  | sha256 s, p => .sha256 (s.absorb family32 p)
  | sha384 s, p => .sha384 (s.absorb family64 p)
  | sha512 s, p => .sha512 (s.absorb family64 p)

/-- The digest of what has been absorbed. -/
def finish : Running → Bytes
  | sha256 s => s.finish family32
  | sha384 s => (s.finish family64).take 48
  | sha512 s => s.finish family64

/-- Where a message is cut makes no difference. -/
theorem absorb_append (s : Running) (p q : Bytes) :
    s.absorb (p ++ q) = (s.absorb p).absorb q := by
  cases s <;> simp [absorb, Stream.absorb_append]

end Running

/-- A **digester**: what it has absorbed, and its value once it has been looked at. -/
structure Digester where
  algorithm : Algorithm
  running : Running
  fixed : Option String
  deriving DecidableEq

namespace Digester

/-- A digester that has absorbed nothing. -/
def new (a : Algorithm) : Digester := ⟨a, .start a, none⟩

/-- Back to the beginning. -/
def reset (d : Digester) : Digester := new d.algorithm

/-- Has the value been looked at? -/
def isFixed (d : Digester) : Bool := d.fixed.isSome

/-- One more piece, unless the value has been looked at. -/
def absorb (d : Digester) (piece : Bytes) : Digester :=
  if d.isFixed then d else { d with running := d.running.absorb piece }

/-- **The value** in upper-case hexadecimal, and the digester with this value fixed. -/
def value (d : Digester) : String × Digester :=
  match d.fixed with
  | some v => (v, d)
  | none =>
    let v := Bytes.hexUpper d.running.finish
    (v, { d with fixed := some v })

/-- **The value as it is written**, under the proper name of the algorithm. -/
def entry (d : Digester) : Entry × Digester := (⟨d.algorithm.name, d.value.1⟩, d.value.2)

/-- The algorithm's name as it stands in a description. -/
def algorithmWord : Algorithm → String
  | .sha256 => "Sha256"
  | .sha384 => "Sha384"
  | .sha512 => "Sha512"

/-- A description of a digester for a log: its algorithm, and whether its value is fixed. -/
def describe (d : Digester) : String :=
  "Digester \x7b algorithm: " ++ algorithmWord d.algorithm ++ ", finalized: " ++
    (if d.isFixed then "true" else "false") ++ " \x7d"

end Digester

end FileRelay.Digest
