import FileRelay.Fault
import FileRelay.Log.Subscription

/-!
# Log/Timeline — a log in time

Time is counted in milliseconds and moves only while someone waits.  An **agenda** holds what others
will do at later moments: publish a message, arm a fault, reply at an address, or call off the work
that is going on.

A reader that is closed gets nothing.  One that waits is woken by everything that happens, and looks
whether there is something to deliver.  It waits at most as long as it was told; with a shorter
heartbeat interval it gets a heartbeat instead.  What is due at the very moment of waking comes after
it.
-/

namespace FileRelay

/-- What others do. -/
inductive Deed where
  | publish (m : Published)
  | arm (sequence : Nat) (fault : DeliveryFault) (times : Nat)
  | reply (address : Address)
  | callOff
  deriving DecidableEq

/-- The log after a deed. -/
def Deed.act (deed : Deed) (l : Log) : Log :=
  match deed with
  | publish m => (l.publish m).2
  | arm sequence fault times => l.arm sequence fault times
  | reply address => l.reply address
  | callOff => l

/-- A **log in time**: the moment, what is still to happen in order, and whether the work that is
going on was called off. -/
structure Timeline where
  log : Log
  now : Nat
  agenda : List (Nat × Deed)
  calledOff : Bool
  deriving DecidableEq

namespace Timeline

/-- A log at the beginning of time. -/
def start (l : Log) : Timeline := ⟨l, 0, [], false⟩

instance : Inhabited Timeline := ⟨start default⟩

/-- Puts something on the agenda, after what is due at the same moment. -/
def insertDeed (moment : Nat) (deed : Deed) : List (Nat × Deed) → List (Nat × Deed)
  | [] => [(moment, deed)]
  | e :: es => if moment < e.1 then (moment, deed) :: e :: es else e :: insertDeed moment deed es

/-- Something that will be done after so many milliseconds. -/
def plan (t : Timeline) (delay : Nat) (deed : Deed) : Timeline :=
  { t with agenda := insertDeed (t.now + delay) deed t.agenda }

/-- Does what is planned. -/
def perform (t : Timeline) (deed : Deed) : Timeline :=
  { t with log := deed.act t.log, calledOff := t.calledOff || deed = .callOff }

/-- Lets time pass up to a moment, with all that is due before it. -/
def passUntil (moment : Nat) : List (Nat × Deed) → Timeline → Timeline
  | [], t => { t with now := max t.now moment, agenda := [] }
  | (due, deed) :: rest, t =>
    if due < moment then passUntil moment rest (perform { t with now := max t.now due } deed)
    else { t with now := max t.now moment, agenda := (due, deed) :: rest }

/-- Lets so many milliseconds pass. -/
def sleep (t : Timeline) (ms : Nat) : Timeline := passUntil (t.now + ms) t.agenda t

/-- What a wait ends with. -/
inductive Waited where
  | delivery (d : Delivery)
  | timeout
  | calledOff
  | closed
  deriving DecidableEq

/-- The moment at which a wait ends without a delivery, and whether that is a heartbeat. -/
def wake (t : Timeline) (timeout : Nat) : Nat × Bool :=
  match t.log.options.idleHeartbeatMs with
  | some h => if h < timeout then (t.now + h, true) else (t.now + timeout, false)
  | none => (t.now + timeout, false)

/-- The end of a wait without a delivery, which is a heartbeat or not. -/
def waited (moment : Nat) (heartbeat : Bool) (s : Subscription) (t : Timeline) :
    Waited × Subscription × Timeline :=
  let t := { t with now := max t.now moment }
  if heartbeat then (.delivery (.status .heartbeat s.subject none), s, t) else (.timeout, s, t)

/-- Is something on the agenda that is due by a moment? -/
def isDue (moment : Nat) : List (Nat × Deed) → Bool
  | [] => false
  | (due, _) :: _ => due ≤ moment

/-- Waits up to a moment with an agenda; `heartbeat` says what comes then.  All that is due at one
moment is done before the reader looks. -/
def waitUntil (moment : Nat) (heartbeat : Bool) :
    List (Nat × Deed) → Subscription → Timeline → Waited × Subscription × Timeline
  | [], s, t => waited moment heartbeat s { t with agenda := [] }
  | (due, deed) :: rest, s, t =>
    if moment ≤ due then waited moment heartbeat s { t with agenda := (due, deed) :: rest }
    else
      let t := { perform { t with now := max t.now due } deed with agenda := rest }
      if isDue t.now rest then waitUntil moment heartbeat rest s t
      else if t.calledOff then (.calledOff, s, t)
      else
        let r := s.poll t.log
        let t := { t with log := r.2.2 }
        match r.1 with
        | some d => (.delivery d, r.2.1, t)
        | none => waitUntil moment heartbeat rest r.2.1 t

/-- **The next delivery** to a reader, which waits for it at most so many milliseconds; a reader that
is closed gets none. -/
def next (t : Timeline) (s : Subscription) (timeout : Nat) : Waited × Subscription × Timeline :=
  if s.closed then (.closed, s, t)
  else
    let r := s.poll t.log
    let t := { t with log := r.2.2 }
    match r.1 with
    | some d => (.delivery d, r.2.1, t)
    | none =>
      if t.calledOff then (.calledOff, r.2.1, t)
      else
        let w := t.wake timeout
        waitUntil w.1 w.2 t.agenda r.2.1 t

end Timeline

end FileRelay
