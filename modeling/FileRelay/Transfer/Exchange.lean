import FileRelay.Log.Timeline
import FileRelay.Path.FileTree
import FileRelay.Store
import FileRelay.Transfer.Interference

/-!
# Transfer/Exchange — where transfers meet

An **exchange** is what transfers share: a log in time, a store of records and the files around
them.  Every call of a transfer on the log or the store goes through here, where rules may
interfere with it.

What a reader hears (`hear`) is a published message, a request for a reply, or nothing, when there
was only a heartbeat or not even that; or the transfer was called off, which is looked at first;
or the log refused.
-/

namespace FileRelay

/-- An **exchange**. -/
structure Exchange where
  time : Timeline
  store : Store
  files : FileTree
  interference : Interference
  deriving DecidableEq, Inhabited

/-- What a reader hears. -/
inductive Heard where
  | data (d : Delivery)
  | flowControl (replyTo : Option Address)
  | nothing
  | calledOff
  | broken (error : DeliveryError)
  deriving DecidableEq

/-- What is heard of a delivery. -/
def Heard.ofDelivery (d : Delivery) : Heard :=
  match d.kind with
  | .data => .data d
  | .flowControl => .flowControl d.replyTo
  | .heartbeat => .nothing

/-- What is heard at the end of a wait. -/
def Heard.ofWaited : Timeline.Waited → Heard
  | .delivery d => ofDelivery d
  | .timeout => .nothing
  | .calledOff => .calledOff
  | .closed => .broken .closed

namespace Exchange

/-- An exchange in which nothing has happened. -/
def new (options : LogOptions) (files : FileTree) : Exchange :=
  ⟨.start (.new options), .empty, files, .ofRules []⟩

/-- The log. -/
def log (x : Exchange) : Log := x.time.log

/-- The exchange with another log. -/
def withLog (x : Exchange) (l : Log) : Exchange := { x with time := { x.time with log := l } }

/-- Is a deed one of calling off? -/
def isCallOff : Nat × Deed → Bool
  | (_, .callOff) => true
  | _ => false

/-- The exchange for a new transfer, which nobody has called off and nobody is going to, with the
rules for its calls. -/
def prepared (x : Exchange) (rules : List Rule) : Exchange :=
  { x with
    time := { x.time with
      calledOff := false
      agenda := x.time.agenda.filter fun e => !isCallOff e }
    interference := .ofRules rules }

/-- Calls off the transfer that is going on. -/
def callOff (x : Exchange) : Exchange := { x with time := { x.time with calledOff := true } }

/-- Plans a deed after so many milliseconds. -/
def plan (x : Exchange) (delay : Nat) (deed : Deed) : Exchange :=
  { x with time := x.time.plan delay deed }

/-- **Counts a call** and does what comes before it. -/
def meet (x : Exchange) (c : Call) : Option Meeting × Exchange :=
  let m := x.interference.meet c
  let x := { x with interference := m.2 }
  match m.1 with
  | some .callOff => (m.1, x.callOff)
  | some (.resize p n) => (m.1, { x with files := x.files.change p (FileTree.resized n) })
  | _ => (m.1, x)

/-- **Makes a call**, which is refused or done. -/
def attempt {α : Type} (c : Call) (act : Exchange → Except DeliveryError α × Exchange)
    (x : Exchange) : Except DeliveryError α × Exchange :=
  match x.meet c with
  | (some (.refusal e), x) => (.error e, x)
  | (_, x) => act x

/-! ## Calls on the log -/

/-- Publishes a message and gives its place. -/
def publish (x : Exchange) (m : Published) : Except DeliveryError Nat × Exchange :=
  attempt .publish (fun x =>
    let r := x.log.publish m
    (.ok r.1, x.withLog r.2)) x

/-- Opens a reader. -/
def subscribe (x : Exchange) (subject : String) (position : Position) :
    Except DeliveryError Subscription × Exchange :=
  attempt .subscribe (fun x =>
    let r := x.log.subscribe subject position
    (.ok r.1, x.withLog r.2)) x

/-- Replies at an address. -/
def reply (x : Exchange) (address : Address) : Except DeliveryError Unit × Exchange :=
  attempt .reply (fun x => (.ok (), x.withLog (x.log.reply address))) x

/-- The exchange with the log that a reader has noted something in. -/
def noted (x : Exchange) : Except Unit Log → Except DeliveryError Unit × Exchange
  | .ok l => (.ok (), x.withLog l)
  | .error () => (.error .closed, x)

/-- Notes that a delivery was accepted. -/
def ack (x : Exchange) (s : Subscription) (d : Delivery) : Except DeliveryError Unit × Exchange :=
  attempt .ack (fun x => x.noted (s.ack d x.log)) x

/-- Notes that a delivery was refused. -/
def term (x : Exchange) (s : Subscription) (d : Delivery) : Except DeliveryError Unit × Exchange :=
  attempt .term (fun x => x.noted (s.term d x.log)) x

/-- Closes a reader; a reader that the log does not close is left as it is. -/
def unsubscribe (x : Exchange) (s : Subscription) : Subscription × Exchange :=
  match x.meet .unsubscribe with
  | (some (.refusal _), x) => (s, x)
  | (_, x) =>
    let r := s.unsubscribe x.log
    (r.1, x.withLog r.2)

/-- **What a reader hears** within so many milliseconds. -/
def hear (x : Exchange) (s : Subscription) (timeout : Nat) : Heard × Subscription × Exchange :=
  if x.time.calledOff then (.calledOff, s, x)
  else match x.meet .next with
    | (some (.refusal e), x) => (if e.isTimeout then .nothing else .broken e, s, x)
    | (some (.delivery d), x) => (.ofDelivery d, s, x)
    | (_, x) =>
      let w := x.time.next s timeout
      (.ofWaited w.1, w.2.1, { x with time := w.2.2 })

/-! ## Calls on the store -/

/-- Stores a value and gives its revision. -/
def put (x : Exchange) (key : String) (value : Bytes) : Except DeliveryError Nat × Exchange :=
  attempt .put (fun x =>
    match x.store.put key value with
    | .ok r => (.ok r.1, { x with store := r.2 })
    | .error e => (.error e, x)) x

/-- The value of a key. -/
def get (x : Exchange) (key : String) : Except DeliveryError (Option Bytes) × Exchange :=
  attempt .get (fun x => (.ok (x.store.get? key), x)) x

/-- The keys in order. -/
def keys (x : Exchange) : Except DeliveryError (List String) × Exchange :=
  attempt .keys (fun x => (.ok x.store.keys, x)) x

/-- The values of some keys in order, of those that have one. -/
def getAll : List String → Exchange → Except DeliveryError (List Bytes) × Exchange
  | [], x => (.ok [], x)
  | k :: ks, x =>
    match x.get k with
    | (.error e, x) => (.error e, x)
    | (.ok value, x) =>
      match getAll ks x with
      | (.error e, x) => (.error e, x)
      | (.ok values, x) => (.ok (value.toList ++ values), x)

end Exchange

end FileRelay
