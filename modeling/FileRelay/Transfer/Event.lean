import FileRelay.Failure
import FileRelay.Transfer.Anomaly

/-!
# Transfer/Event — what a transfer tells while it goes on

An upload tells of every part that was published, a download of every part that was accepted, of
every reply to a flow-control message and of every recovery.  The last event tells how the transfer
ended.
-/

namespace FileRelay

/-- What a transfer tells; each event names the file. -/
inductive Event where
  | partPublished (file : String) (part parts sequence : Nat)
  /-- A part was accepted, with the octets that have been written so far. -/
  | partAccepted (file : String) (part parts bytes : Nat)
  | flowControl (file : String)
  /-- A new reader is opened at a place in the log, because of an anomaly. -/
  | recovering (file : String) (reason : Anomaly) (resume retriesLeft : Nat)
  | completed (file : String) (bytes : Nat)
  | failed (file : String) (why : Failure)
  deriving DecidableEq, Repr

end FileRelay
