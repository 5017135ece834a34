import FileRelay.Log.Subscription
import FileRelay.Transfer.Anomaly
import FileRelay.Word

/-!
# Transfer/Session — where a download stands

A **session** counts what has been accepted and says what must come next: the next delivery of the
reader that is open now, carrying the next part of the file.  A recovery opens a new reader, whose
deliveries are counted from one again; `adjustment` is the number of parts that were accepted before
it.  A session may recover as often as its budget allows.

Counters are natural numbers here; where one outgrows its 64-bit word there is no next session.
-/

namespace FileRelay

/-- What a session is doing. -/
inductive SessionState where
  | starting
  | reading
  | recovering
  | done
  | failed
  deriving DecidableEq, Repr

/-- A download's **session**. -/
structure Session where
  state : SessionState
  expecting : Nat
  adjustment : Nat
  retriesLeft : Nat
  recoveries : Nat
  origin : Position
  firstSequence : Option Nat
  lastSequence : Option Nat
  partsWritten : Nat
  bytesWritten : Nat
  deriving DecidableEq, Repr

namespace Session

/-- A session that has not begun. -/
def new (budget : Nat) (origin : Position) : Session :=
  ⟨.starting, 1, 0, budget, 0, origin, none, none, 0, 0⟩

/-- The number of the part that must come next. -/
def expectedPart (s : Session) : Nat := s.expecting + s.adjustment

/-- Have all parts been accepted? -/
def isComplete (s : Session) (parts : Nat) : Bool := parts ≤ s.partsWritten

/-- The session reads. -/
def startReading (s : Session) : Session := { s with state := .reading }

/-- The session has ended well. -/
def finish (s : Session) : Session := { s with state := .done }

/-- The session has failed. -/
def fail (s : Session) : Session := { s with state := .failed }

/-- **Is this the delivery and the part that must come next?** -/
def checkOrder (s : Session) (delivery part : Nat) : Except Anomaly Unit :=
  if delivery ≠ s.expecting then .error (.delivery s.expecting delivery)
  else if part ≠ s.expectedPart then .error (.part s.expectedPart part)
  else .ok ()

/-- **One more part** of so many bytes, from a place in the log. -/
def accept? (s : Session) (sequence bytes : Nat) : Option Session :=
  (Word.fit (s.bytesWritten + bytes)).map fun total =>
    { s with
      expecting := s.expecting + 1
      partsWritten := s.partsWritten + 1
      bytesWritten := total
      firstSequence := some (s.firstSequence.getD sequence)
      lastSequence := some sequence }

/-- **Where reading goes on**: after the last part that was accepted, or at the beginning. -/
def resumeFrom? (s : Session) : Option Position :=
  match s.lastSequence with
  | none => some s.origin
  | some n => (Word.fit (n + 1)).map .sequence

/-- **A recovery**, if the budget allows one, and where reading goes on. -/
def recover? (s : Session) : Option (Option Position × Session) :=
  if s.retriesLeft = 0 then some (none, { s with state := .failed })
  else
    let s := { s with
      state := .recovering
      retriesLeft := s.retriesLeft - 1
      recoveries := s.recoveries + 1
      adjustment := s.expectedPart - 1
      expecting := 1 }
    s.resumeFrom?.map fun p => (some p, s)

end Session

end FileRelay
