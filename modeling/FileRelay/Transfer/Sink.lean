import FileRelay.Bytes
import FileRelay.Fault

/-!
# Transfer/Sink — an output that takes what it can

A **sink** takes octets in writes and may take fewer of them than it is offered; it remembers what
it took, and how often it was asked to write and to flush.  A write or flush of a given number may
fail.  Octets that were taken stay taken.
-/

namespace FileRelay

/-- What a sink does not do: the write and the flush that fail, counted from one, and the number of
octets that it takes at once. -/
structure SinkLimits where
  failingWrite : Option Nat
  failingFlush : Option Nat
  mostAtOnce : Option Nat
  deriving DecidableEq, Repr, Inhabited

/-- A **sink**. -/
structure Sink where
  limits : SinkLimits
  written : Bytes
  writes : Nat
  flushes : Nat
  deriving DecidableEq, Repr, Inhabited

namespace Sink

/-- A sink that has taken nothing. -/
def new (limits : SinkLimits) : Sink := ⟨limits, [], 0, 0⟩

/-- A sink that takes everything. -/
def unlimited : Sink := new default

/-- How many octets a sink takes of so many. -/
def room (s : Sink) (offered : Nat) : Nat := min offered (s.limits.mostAtOnce.getD offered)

/-- Is this the failing write? -/
def failsNow (s : Sink) : Bool := s.limits.failingWrite == some (s.writes + 1)

/-- The sink after a write that took these octets. -/
def took (s : Sink) (data : Bytes) : Sink :=
  { s with written := s.written ++ data, writes := s.writes + 1 }

/-- **Writes all of some octets**, in as many writes as it takes. -/
def writeAll (s : Sink) (data : Bytes) : Except IoFault Unit × Sink :=
  if data = [] then (.ok (), s)
  else if s.failsNow then (.error (.other "disk full"), s.took [])
  else
    let n := s.room data.length
    if n = 0 then (.error .nothingWritten, s.took [])
    else writeAll (s.took (data.take n)) (data.drop n)
termination_by data.length
decreasing_by
  simp only [List.length_drop]
  have : 0 < data.length := List.length_pos_iff.2 ‹_›
  omega

/-- **Flushes a sink.** -/
def flush (s : Sink) : Except IoFault Unit × Sink :=
  (if s.limits.failingFlush = some (s.flushes + 1) then .error (.other "flush failed") else .ok (),
    { s with flushes := s.flushes + 1 })

end Sink

end FileRelay
