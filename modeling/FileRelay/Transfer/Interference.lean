import FileRelay.Fault
import FileRelay.Log.Subscription
import FileRelay.Path.Components

/-!
# Transfer/Interference — calls that meet with something else than their answer

A transfer **calls** on the log, on its reader of the log and on the store.  Rules say which calls
meet with something: the call is refused, or a reader is given a delivery of no log, or the call is
done after the transfer was called off or a file was cut.

Calls are counted by their kind, over all readers, and the first rule that fits a call counts.
-/

namespace FileRelay

/-- What a transfer asks for. -/
inductive Call where
  | publish
  | subscribe
  | reply
  | next
  | ack
  | term
  | unsubscribe
  | put
  | get
  | keys
  deriving DecidableEq, Repr

/-- What a call meets with. -/
inductive Meeting where
  /-- The call is refused and not done. -/
  | refusal (error : DeliveryError)
  /-- A reader gets this delivery, and the log is not asked. -/
  | delivery (d : Delivery)
  /-- The transfer is called off, and the call is done. -/
  | callOff
  /-- A file gets another length, and the call is done. -/
  | resize (path : Path) (length : Nat)
  deriving DecidableEq

/-- A **rule**: the call of a kind with a number, counted from one, or with number zero every call
of the kind, meets with something. -/
structure Rule where
  call : Call
  number : Nat
  meeting : Meeting
  deriving DecidableEq

/-- Does a rule fit the call of this kind and number? -/
def Rule.fits (r : Rule) (c : Call) (number : Nat) : Bool :=
  r.call = c && (r.number = 0 || r.number = number)

/-- The rules, and the calls that were made. -/
structure Interference where
  rules : List Rule
  calls : List Call
  deriving DecidableEq

namespace Interference

/-- Rules for the calls to come. -/
def ofRules (rules : List Rule) : Interference := ⟨rules, []⟩

instance : Inhabited Interference := ⟨ofRules []⟩

/-- **What a call meets with**, if anything; the call is counted. -/
def meet (i : Interference) (c : Call) : Option Meeting × Interference :=
  let i := { i with calls := c :: i.calls }
  ((i.rules.find? fun r => r.fits c (i.calls.count c)).map Rule.meeting, i)

/-- Without rules a call meets with nothing. -/
theorem meet_of_rules_eq_nil {i : Interference} (h : i.rules = []) (c : Call) :
    i.meet c = (none, { i with calls := c :: i.calls }) := by
  simp [meet, h]

end Interference

end FileRelay
