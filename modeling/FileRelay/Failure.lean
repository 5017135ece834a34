import FileRelay.Fault
import FileRelay.Text.Decimal

/-!
# Failure — why a transfer did not end well

A transfer fails for a reason of its own or for one that stands behind it: of the file system, of a
record or label, of a content, of the log or the store.  The wording is in `Failure.message`.

A number that outgrows its 64-bit word ends a transfer at once (`overflow`), and so does a log that
keeps a transfer busy without end while no time passes (`stalled`).
-/

namespace FileRelay

/-- What is wrong with a configuration. -/
inductive ConfigFault where
  | zeroPartSize
  | badPrefix (text : String)
  | zeroReadTimeout
  | shortIdle
  deriving DecidableEq, Repr

/-- The wording of a configuration's fault. -/
def ConfigFault.message : ConfigFault → String
  | zeroPartSize => "partSize must be positive"
  | badPrefix text => "invalid partPrefix: " ++ Text.quoted text
  | zeroReadTimeout => "readTimeoutMs must be positive"
  | shortIdle => "maxIdleMs must be at least readTimeoutMs"

/-- **Why a transfer failed.** -/
inductive Failure where
  | io (fault : IoFault)
  | record (why : Malformed)
  | content (error : ContentError)
  | delivery (error : DeliveryError)
  | sourceNotFound (path : String)
  | sourceNotFile (path : String)
  | emptySource (path : String)
  | shortRead (expected actual : Nat)
  | fileNotFound (name : String)
  | uploadIncomplete (id : String)
  | tooManyMismatches (attempts parts bytes : Nat)
  | cancelled
  | config (fault : ConfigFault)
  | overflow
  | stalled
  deriving DecidableEq, Repr

namespace Failure

open Text.Decimal (text)

/-- **The wording of a failure.** -/
def message : Failure → String
  | io fault => "I/O error: " ++ fault.message
  | record why => "metadata error: " ++ why.message
  | content error => "transfer error: " ++ error.message
  | delivery error => "transport error: " ++ error.message
  | sourceNotFound path => "source not found: " ++ path
  | sourceNotFile path => "source is not a regular file: " ++ path
  | emptySource path => "source is empty: " ++ path
  | shortRead expected actual =>
    "short read: expected " ++ text expected ++ " bytes, read " ++ text actual
  | fileNotFound name => "file not found: " ++ name
  | uploadIncomplete id => "upload of " ++ id ++ " has not completed"
  | tooManyMismatches attempts parts bytes =>
    "too many mismatches after " ++ text attempts ++ " recoveries (" ++ text parts ++ " parts, " ++
      text bytes ++ " bytes written)"
  | cancelled => "cancelled"
  | config fault => "invalid configuration: " ++ fault.message
  | overflow => "overflow"
  | stalled => "stalled"

/-- The wordings of the failures behind a failure, from the next one on. -/
def causes : Failure → List String
  | io fault => [fault.message]
  | record why => [why.message]
  | content (.io fault) => [(ContentError.io fault).message, fault.message]
  | content error => [error.message]
  | delivery error => [error.message]
  | _ => []

end Failure

end FileRelay
