import FileRelay.Log.Message

/-!
# Log/Basic — a log of messages, and what its readers have said

A **log** numbers the messages that are published from one on and keeps them unchanged.  It
remembers which messages were accepted and which were refused, which flow-control addresses wait
for a reply and which were answered, and how many readers were opened and are open.

Faults can be armed on single messages: the next deliveries of the message are corrupted, left out
or doubled, as many times as the fault is armed for.
-/

namespace FileRelay

/-- What may happen to a delivery. -/
inductive DeliveryFault where
  | corrupt
  | drop
  | duplicate
  deriving DecidableEq, Repr

/-- What a log sends of its own: a flow-control message after so many messages, and a heartbeat
after so many milliseconds without any. -/
structure LogOptions where
  flowControlEvery : Option Nat
  idleHeartbeatMs : Option Nat
  deriving DecidableEq, Repr, Inhabited

/-- The **log**. -/
structure Log where
  options : LogOptions
  messages : Array Published
  /-- The armed faults by the place of their message, with the times that are left, at least one. -/
  faults : List (Nat × DeliveryFault × Nat)
  /-- The number of flow-control addresses issued, and those that wait for a reply. -/
  issued : Nat
  waiting : List Nat
  answered : List Nat
  discarded : Nat
  acks : List Nat
  terms : List Nat
  opened : Nat
  stillOpen : Nat
  deriving DecidableEq

namespace Log

/-- A log without messages. -/
def new (options : LogOptions) : Log :=
  ⟨options, #[], [], 0, [], [], 0, [], [], 0, 0⟩

instance : Inhabited Log := ⟨new default⟩

/-- The place of the last message. -/
def lastSequence (l : Log) : Nat := l.messages.size

/-- **Publishes a message** and gives its place. -/
def publish (l : Log) (m : Published) : Nat × Log :=
  (l.messages.size + 1, { l with messages := l.messages.push m })

/-- The message at a place. -/
def message? (l : Log) (sequence : Nat) : Option Published :=
  if sequence = 0 then none else l.messages[sequence - 1]?

/-- Arms a fault on the message at a place, instead of the one that is armed there. -/
def arm (l : Log) (sequence : Nat) (fault : DeliveryFault) (times : Nat) : Log :=
  if times = 0 then l
  else { l with faults := (sequence, fault, times) :: l.faults.filter fun f => f.1 ≠ sequence }

/-- The fault that strikes a delivery of the message at a place, which is then armed once less. -/
def strike (l : Log) (sequence : Nat) : Option DeliveryFault × Log :=
  match l.faults.find? fun f => f.1 = sequence with
  | none => (none, l)
  | some (_, fault, times) =>
    let others := l.faults.filter fun f => f.1 ≠ sequence
    (some fault, { l with
      faults := if times ≤ 1 then others else (sequence, fault, times - 1) :: others })

/-- **A reply**: it answers a flow-control message that waits for one, or is discarded. -/
def reply (l : Log) (address : Address) : Log :=
  match address with
  | .issued n =>
    if l.waiting.contains n then
      { l with waiting := l.waiting.erase n, answered := l.answered ++ [n] }
    else { l with discarded := l.discarded + 1 }
  | .named _ => { l with discarded := l.discarded + 1 }

end Log

end FileRelay
