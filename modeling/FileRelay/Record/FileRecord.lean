import FileRelay.Calendar.Instant
import FileRelay.Digest.Algorithm
import FileRelay.Digest.Entry
import FileRelay.Record.Layout

/-!
# Record/FileRecord — what is stored about a file

The **record** of a file describes it (name, description, content type, length, date), says how it
is divided into parts, and is **complete** when it has the digest of the whole file.  Its
identifier is made from what describes the content and not from how it is divided (`deriveId`).

A record that was read may say anything.  `validate` accepts those whose parts fill the length;
the length and the beginning of each part are then `partLength?` and `partStart?`.
-/

namespace FileRelay

open Calendar

/-- The **record** of a file. -/
structure FileRecord where
  id : String
  name : String
  description : String
  contentType : String
  length : UInt64
  parts : UInt64
  partSize : UInt64
  lastPartSize : UInt64
  date : Instant
  digestAlgorithm : Option String
  digestValue : Option String
  firstSequence : Option UInt64
  deriving DecidableEq

namespace FileRecord

/-- The octets of the identifier of a file. -/
def idOctets : Nat := 12

/-- The octets that describe a file: its name and content type, each before a null octet, its length
and its date in milliseconds, in eight octets each. -/
def descriptor (name contentType : String) (length : UInt64) (date : Instant) : Bytes :=
  Bytes.ofText name ++ 0 :: (Bytes.ofText contentType ++ 0 ::
    (Bytes.bigEndian 8 length.toNat ++ Bytes.bigEndian 8 (date.millis % Word.limit).toNat))

/-- **The identifier of a file** is the beginning of the digest of its description. -/
def deriveId (name contentType : String) (length : UInt64) (date : Instant) : String :=
  Bytes.hexLower
    ((Digest.Algorithm.sha256.digest (descriptor name contentType length date)).take idOctets)

/-- **The record of a new file**, without a digest. -/
def new (name contentType : String) (length partSize : UInt64) (date : Instant) :
    Except Malformed FileRecord :=
  (layout length partSize).map fun l =>
    { id := deriveId name contentType length date
      name
      description := ""
      contentType
      length
      parts := l.1
      partSize
      lastPartSize := l.2
      date
      digestAlgorithm := none
      digestValue := none
      firstSequence := none }

/-- The digest of the whole file, if the record has one. -/
def digest? (r : FileRecord) : Option Digest.Entry :=
  match r.digestAlgorithm, r.digestValue with
  | some a, some v => some ⟨a, v⟩
  | _, _ => none

/-- The record with the digest of the whole file. -/
def withDigest (r : FileRecord) (e : Digest.Entry) : FileRecord :=
  { r with digestAlgorithm := some e.algorithm, digestValue := some e.value }

/-- Does the record have the digest of the whole file? -/
def isComplete (r : FileRecord) : Bool := r.digest?.isSome

/-- The length of a part that the record has. -/
def partLength? (r : FileRecord) (n : UInt64) : Option UInt64 :=
  if n = 0 ∨ r.parts < n then none
  else if n = r.parts then some r.lastPartSize
  else some r.partSize

/-- **Where a part begins**, if the record has it; there is no answer at all when the product does
not fit a word, which happens only in a record that does not validate. -/
def partStart? (r : FileRecord) (n : UInt64) : Option (Option UInt64) :=
  match r.partLength? n with
  | none => some none
  | some _ => (Word.mul? (n - 1) r.partSize).map some

/-- **Do the fields fit together?** -/
def validate (r : FileRecord) : Except Malformed Unit :=
  if r.id.isEmpty then .error (.inconsistent .emptyId)
  else match layout r.length r.partSize with
    | .error e => .error e
    | .ok (parts, lastSize) =>
      if parts ≠ r.parts ∨ lastSize ≠ r.lastPartSize then
        .error (.inconsistent
          (.layout r.length r.partSize parts lastSize r.parts r.lastPartSize))
      else if r.firstSequence = some 0 then .error (.inconsistent .zeroFirstSequence)
      else if r.digestAlgorithm.isSome ≠ r.digestValue.isSome then
        .error (.inconsistent .halfDigest)
      else .ok ()

end FileRecord

end FileRelay
