import FileRelay.Log.Basic

/-!
# Log/Subscription — one reader of a log

A **subscription** delivers the messages of one subject in the order of the log, from a place on,
and numbers them from one.  It counts a message that a fault leaves out, so that the reader sees a
gap, and delivers a doubled one again at once under the next number.  After so many deliveries it
asks for a reply, and delivers nothing until the reply has come.
-/

namespace FileRelay

/-- Where a reader begins. -/
inductive Position where
  | all
  | sequence (n : Nat)
  deriving DecidableEq, Repr

/-- The place of the first message of a position. -/
def Position.first : Position → Nat
  | all => 1
  | sequence n => max n 1

/-- A **reader** of a log. -/
structure Subscription where
  subject : String
  /-- The place of the message to look at next, at least one. -/
  cursor : Nat
  /-- The number of the last delivery. -/
  delivered : Nat
  sinceFlow : Nat
  awaiting : Option Nat
  doubled : Option Delivery
  closed : Bool
  deriving DecidableEq

/-- **Opens a reader.** -/
def Log.subscribe (l : Log) (subject : String) (position : Position) : Subscription × Log :=
  (⟨subject, position.first, 0, 0, none, none, false⟩,
    { l with opened := l.opened + 1, stillOpen := l.stillOpen + 1 })

namespace Subscription

/-- The next message of the subject among the next `n` of the log, with what faults make of it. -/
def scan : Nat → Subscription → Log → Option Delivery × Subscription × Log
  | 0, s, l => (none, s, l)
  | n + 1, s, l =>
    match l.message? s.cursor with
    | none => (none, s, l)
    | some m =>
      let here := s.cursor
      let s := { s with cursor := here + 1 }
      if m.subject ≠ s.subject then scan n s l
      else
        let s := { s with delivered := s.delivered + 1 }
        let d := Delivery.ofPublished m here s.delivered
        let struck := l.strike here
        let counted := { s with sinceFlow := s.sinceFlow + 1 }
        match struck.1 with
        | some .drop => scan n s struck.2
        | some .corrupt => (some d.corrupted, counted, struck.2)
        | some .duplicate => (some d, { counted with doubled := some d }, struck.2)
        | none => (some d, counted, struck.2)

/-- Is it time to ask for a reply? -/
def flowIsDue (s : Subscription) (l : Log) : Bool :=
  match l.options.flowControlEvery with
  | none => false
  | some every => 0 < every && every ≤ s.sinceFlow

/-- Asks for a reply at a new address. -/
def askForReply (s : Subscription) (l : Log) : Delivery × Subscription × Log :=
  let n := l.issued + 1
  (.status .flowControl s.subject (some (.issued n)),
    { s with awaiting := some n, sinceFlow := 0 },
    { l with issued := n, waiting := n :: l.waiting })

/-- The doubled message again, under the next number. -/
def again (s : Subscription) (d : Delivery) : Delivery × Subscription :=
  ({ d with number := s.delivered + 1 },
    { s with delivered := s.delivered + 1, sinceFlow := s.sinceFlow + 1, doubled := none })

/-- **What is there to deliver now**, if anything. -/
def poll (s : Subscription) (l : Log) : Option Delivery × Subscription × Log :=
  if s.awaiting.any l.waiting.contains then (none, s, l)
  else
    let s := { s with awaiting := none }
    match s.doubled with
    | some d =>
      let r := s.again d
      (some r.1, r.2, l)
    | none =>
      if s.flowIsDue l then
        let r := s.askForReply l
        (some r.1, r.2)
      else s.scan (l.messages.size + 1 - s.cursor) l

/-- Notes that a delivery was accepted. -/
def ack (s : Subscription) (d : Delivery) (l : Log) : Except Unit Log :=
  if s.closed then .error ()
  else .ok (if d.kind = .data then { l with acks := l.acks ++ [d.sequence] } else l)

/-- Notes that a delivery was refused. -/
def term (s : Subscription) (d : Delivery) (l : Log) : Except Unit Log :=
  if s.closed then .error ()
  else .ok (if d.kind = .data then { l with terms := l.terms ++ [d.sequence] } else l)

/-- **Closes a reader**; a reply that it waits for is no longer expected. -/
def unsubscribe (s : Subscription) (l : Log) : Subscription × Log :=
  if s.closed then (s, l)
  else
    ({ s with closed := true, doubled := none, awaiting := none },
      { l with
        stillOpen := l.stillOpen - 1
        waiting := match s.awaiting with
          | some n => l.waiting.erase n
          | none => l.waiting })

end Subscription

end FileRelay
