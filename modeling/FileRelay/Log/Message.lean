import FileRelay.Part.Headers
import FileRelay.Text.Decimal

/-!
# Log/Message — what a log keeps and what it delivers

A log keeps **published** messages.  What it delivers to a reader is a message of one of three
kinds: a published one, with its place in the log and among the reader's deliveries; a
**flow-control** message, which asks for a reply at an address; or a **heartbeat**, which says
nothing but that the log is there.
-/

namespace FileRelay

/-- A message as it was published. -/
structure Published where
  subject : String
  headers : Headers
  payload : Bytes
  deriving DecidableEq, Inhabited

/-- What a delivery is. -/
inductive MessageKind where
  | data
  | flowControl
  | heartbeat
  deriving DecidableEq, Repr

/-- Where a reply goes: to an address that the log issued, counted from one, or to another text. -/
inductive Address where
  | issued (n : Nat)
  | named (text : String)
  deriving DecidableEq, Repr

/-- A text for an address. -/
def Address.text : Address → String
  | issued n => "$FC.#" ++ Text.Decimal.text n
  | named text => text

/-- A **delivery** to a reader. -/
structure Delivery where
  kind : MessageKind
  subject : String
  headers : Headers
  payload : Bytes
  replyTo : Option Address
  /-- The place in the log, from one; zero for what was not published. -/
  sequence : Nat
  /-- The place among the deliveries of its reader, from one; zero for what was not published. -/
  number : Nat
  deriving DecidableEq

namespace Delivery

/-- A delivery that was not published. -/
def status (kind : MessageKind) (subject : String) (replyTo : Option Address) : Delivery :=
  ⟨kind, subject, KeyMap.empty, [], replyTo, 0, 0⟩

/-- A published message delivered. -/
def ofPublished (m : Published) (sequence number : Nat) : Delivery :=
  ⟨.data, m.subject, m.headers, m.payload, none, sequence, number⟩

/-- The first octet of the payload turned over. -/
def corrupted (d : Delivery) : Delivery :=
  match d.payload with
  | [] => d
  | b :: rest => { d with payload := (b ^^^ 0xFF) :: rest }

end Delivery

end FileRelay
