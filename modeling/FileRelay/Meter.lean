import FileRelay.Word

/-!
# Meter — how fast octets go by, over a window of time

A meter keeps the latest **samples**: numbers of octets with the times they were taken at, in
nanoseconds of a clock that may begin before zero.  A sample leaves when it is older than the window
or when there are too many.  The rate is the sum of the samples' octets over the time from the first
sample to the last.

The samples are exact; only the rate is a floating-point number.
-/

namespace FileRelay

/-- A number of octets at a time. -/
structure Sample where
  octets : Nat
  time : Int
  deriving DecidableEq, Repr

/-- The **meter**: the latest samples, the first one first, and the sum of all octets. -/
structure Meter where
  window : Nat
  mostSamples : Nat
  samples : List Sample
  total : Nat
  deriving DecidableEq, Repr

namespace Meter

def nanosPerSecond : Nat := 1000000000

/-- The window and the number of samples when none is asked for. -/
def usualWindow : Nat := 5 * nanosPerSecond
def usualSamples : Nat := 100

/-- A meter without samples. -/
def new (window mostSamples : Option Nat) : Meter :=
  ⟨window.getD usualWindow, mostSamples.getD usualSamples, [], 0⟩

/-- The samples that stay at a time: those in the window, and of them the last ones. -/
def kept (m : Meter) (now : Int) (samples : List Sample) : List Sample :=
  let young := samples.filter fun s => now - m.window ≤ s.time
  young.drop (young.length - m.mostSamples)

/-- **One more sample**, unless the sum of all octets does not fit a word. -/
def record? (m : Meter) (octets : Nat) (now : Int) : Option Meter :=
  (Word.fit (m.total + octets)).map fun total =>
    { m with total, samples := m.kept now (m.samples ++ [⟨octets, now⟩]) }

/-- Back to the beginning. -/
def reset (m : Meter) : Meter := { m with samples := [], total := 0 }

/-- The octets of all samples and the nanoseconds from the first to the last, if there are two
samples and time has passed between them. -/
def span? (m : Meter) : Option (Nat × Nat) :=
  match m.samples with
  | [] | [_] => none
  | first :: rest =>
    let elapsed := ((rest.getLastD first).time - first.time).toNat
    if elapsed = 0 then none else some ((m.samples.map Sample.octets).foldl (· + ·) 0, elapsed)

/-! ## Rates -/

/-- A number below `2 ^ 64` as a floating-point number. -/
def float (n : Nat) : Float := (UInt64.ofNat n).toFloat

/-- Nanoseconds as seconds. -/
def seconds (nanos : Nat) : Float :=
  float (nanos / nanosPerSecond) + float (nanos % nanosPerSecond) / float nanosPerSecond

/-- **The rate** in octets for a second. -/
def rate (m : Meter) : Float :=
  match m.span? with
  | none => 0
  | some s => float s.1 / seconds s.2

/-- When something will be done. -/
inductive Estimate where
  | unknown
  | after (seconds nanos : Nat)
  | beyond
  deriving DecidableEq, Repr

/-- A quotient rounded to the nearest number, a half to the even one. -/
def rounded (n d : Nat) : Nat :=
  let q := n / d
  let twice := 2 * (n % d)
  if d < twice ∨ (twice = d ∧ q % 2 = 1) then q + 1 else q

/-- The nanoseconds of a number of seconds that is given by the bits of a floating-point number, if
the seconds fit a word. -/
def nanosOfBits? (bits : Nat) : Option Nat :=
  let exponent := bits >>> 52 % 2048
  let fraction := bits % (1 <<< 52)
  let mantissa := if exponent = 0 then fraction else fraction + 1 <<< 52
  if exponent < 1075 then
    some (rounded (mantissa * nanosPerSecond) (1 <<< (1075 - max exponent 1)))
  else
    let seconds := mantissa <<< (exponent - 1075)
    if exponent = 2047 ∨ Word.limit ≤ seconds then none else some (seconds * nanosPerSecond)

/-- **How long the rest will take** at the rate, to the nearest nanosecond. -/
def estimate (m : Meter) (remaining : Nat) : Estimate :=
  let r := m.rate
  if r ≤ 0 then .unknown
  else match nanosOfBits? (float remaining / r).toBits.toNat with
    | none => .beyond
    | some n => .after (n / nanosPerSecond) (n % nanosPerSecond)

end Meter

end FileRelay
