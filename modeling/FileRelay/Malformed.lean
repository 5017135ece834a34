import FileRelay.Text.Decimal
import FileRelay.Text.Quoted

/-!
# Malformed — what can be wrong with a record, a part's label or their pieces

Every reader of the wire formats answers with a value or with the reason why there is none.  The
reasons are listed here, in one type, with their wording.
-/

namespace FileRelay

/-- Fields that do not fit together. -/
inductive Inconsistency where
  | emptyId
  /-- The parts that a length and a part size give, and those that the record says. -/
  | layout (length partSize parts lastSize saysParts saysLastSize : UInt64)
  | zeroFirstSequence
  | halfDigest
  | halfEncoding
  deriving DecidableEq, Repr

/-- **Why there is no value.** -/
inductive Malformed where
  | missingHeader (key : String)
  | invalidHeader (key value : String)
  | invalidDigest (text : String)
  | unsupportedEncoding (name : String)
  | emptyFile
  | zeroPartSize
  | inconsistent (why : Inconsistency)
  | notJson
  deriving DecidableEq, Repr

open Text.Decimal (ofWord)

/-- The wording of a lack of fit. -/
def Inconsistency.message : Inconsistency → String
  | emptyId => "empty file id"
  | layout length partSize parts lastSize saysParts saysLastSize =>
    "length " ++ ofWord length ++ " with part size " ++ ofWord partSize ++ " needs " ++
      ofWord parts ++ " parts (last " ++ ofWord lastSize ++ "), record says " ++
      ofWord saysParts ++ " (last " ++ ofWord saysLastSize ++ ")"
  | zeroFirstSequence => "first sequence must be positive"
  | halfDigest => "digest algorithm and value must be set together"
  | halfEncoding => "encoded-length and Content-Encoding must be set together"

/-- **The wording of a reason.** -/
def Malformed.message : Malformed → String
  | missingHeader key => "missing header: " ++ key
  | invalidHeader key value => "invalid header " ++ key ++ ": " ++ Text.quoted value
  | invalidDigest text => "invalid digest entry: " ++ Text.quoted text
  | unsupportedEncoding name => "unsupported content encoding: " ++ name
  | emptyFile => "file is empty"
  | zeroPartSize => "part size must be greater than zero"
  | inconsistent why => "inconsistent record: " ++ why.message
  | notJson => "JSON error"

/-- What the first of two steps gave that came to a value, and what the second made of it. -/
theorem ok_of_bind {ε α β : Type} {x : Except ε α} {f : α → Except ε β} {b : β}
    (h : x >>= f = .ok b) : ∃ a, x = .ok a ∧ f a = .ok b := by
  cases x with
  | error e => cases h
  | ok a => exact ⟨a, rfl, h⟩

end FileRelay
