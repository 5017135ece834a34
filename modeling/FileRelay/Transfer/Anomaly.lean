import FileRelay.Fault
import FileRelay.Text.Decimal

/-!
# Transfer/Anomaly — why a delivery is not the part that is expected

A delivery may be out of order, belong elsewhere, or be damaged.  Each reason has its wording
here; a download recovers from all of them in the same way.
-/

namespace FileRelay

/-- Why a label is not that of a part of the file. -/
inductive BadLabel where
  | unreadable (why : Malformed)
  | otherFile (id : String)
  | beyondLast (part parts : Nat)
  | unknownAlgorithm (error : ContentError)
  deriving DecidableEq, Repr

/-- **Why a delivery is not the part that is expected.** -/
inductive Anomaly where
  | delivery (expected actual : Nat)
  | part (expected actual : Nat)
  | length (part expected actual : Nat)
  | offset (part expected actual : Nat)
  | payload (part expected actual : Nat)
  | digest (part : Nat)
  | undecodable (part : Nat) (error : ContentError)
  | label (why : BadLabel)
  deriving DecidableEq, Repr

open Text.Decimal (text)

/-- The wording of a bad label. -/
def BadLabel.message : BadLabel → String
  | unreadable why => why.message
  | otherFile id => "part belongs to file " ++ id
  | beyondLast part parts =>
    "part " ++ text part ++ " beyond the " ++ text parts ++ " parts on record"
  | unknownAlgorithm error => error.message

/-- **The wording of an anomaly.** -/
def Anomaly.message : Anomaly → String
  | delivery expected actual =>
    "delivery " ++ text actual ++ " out of order, expected " ++ text expected
  | part expected actual => "part " ++ text actual ++ " out of order, expected " ++ text expected
  | length n expected actual =>
    "part " ++ text n ++ " is " ++ text actual ++ " bytes, expected " ++ text expected
  | offset n expected actual =>
    "part " ++ text n ++ " starts at " ++ text actual ++ ", expected " ++ text expected
  | payload n expected actual =>
    "part " ++ text n ++ " payload is " ++ text actual ++ " bytes, header says " ++
      text expected
  | digest n => "part " ++ text n ++ " digest mismatch"
  | undecodable n error =>
    "part " ++ text n ++ " could not be decoded: " ++ error.message
  | label why => "malformed part: " ++ why.message

end FileRelay
