import FileRelay.Calendar.Rfc3339
import FileRelay.Json.Fields
import FileRelay.Record.FileRecord

/-!
# Record/Text — the JSON form of a file record

A record is written as an object of its fields in order; an empty description and fields without a
value are left out.  `FileRecord.ofText` reads what `toText` writes, and accepts only records that
validate; `ofTextUnchecked` accepts all.
-/

namespace FileRelay.FileRecord

open Calendar Json

/-- The names of the fields in order. -/
def fieldNames : List String :=
  ["id", "name", "description", "contentType", "length", "parts", "partSize", "lastPartSize",
    "fileDate", "digestAlgorithm", "digestValue", "firstSequence"]

/-- A word as a value. -/
def ofWord (n : UInt64) : Value := ofNat n.toNat

/-- The members of the object. -/
def members (r : FileRecord) : List (Bytes × Value) :=
  [member "id" (Json.ofText r.id), member "name" (Json.ofText r.name)] ++
  memberIfSome Json.ofText "description"
    (if r.description.isEmpty then none else some r.description) ++
  [member "contentType" (Json.ofText r.contentType), member "length" (ofWord r.length),
    member "parts" (ofWord r.parts), member "partSize" (ofWord r.partSize),
    member "lastPartSize" (ofWord r.lastPartSize),
    member "fileDate" (Json.ofText (Rfc3339.text r.date))] ++
  memberIfSome Json.ofText "digestAlgorithm" r.digestAlgorithm ++
  memberIfSome Json.ofText "digestValue" r.digestValue ++
  memberIfSome ofWord "firstSequence" r.firstSequence

/-- **The text of a record.** -/
def toText (r : FileRecord) : Bytes := render (.object r.members)

/-- A point of time. -/
def instant? (v : Value) : Option Instant := (text? v).bind fun s => Rfc3339.parse? s.toList

/-- The record of some fields. -/
def ofFields? (fs : Fields) : Option FileRecord := do
  let id ← fs.required? text? "id"
  let name ← fs.required? text? "name"
  let description ← fs.defaulted? text? "" "description"
  let contentType ← fs.required? text? "contentType"
  let length ← fs.required? word? "length"
  let parts ← fs.required? word? "parts"
  let partSize ← fs.required? word? "partSize"
  let lastPartSize ← fs.required? word? "lastPartSize"
  let date ← fs.required? instant? "fileDate"
  let digestAlgorithm ← fs.nullable? text? "digestAlgorithm"
  let digestValue ← fs.nullable? text? "digestValue"
  let firstSequence ← fs.nullable? word? "firstSequence"
  some { id, name, description, contentType, length, parts, partSize, lastPartSize, date,
         digestAlgorithm, digestValue, firstSequence }

/-- The record that a text is, whether its fields fit together or not. -/
def ofTextUnchecked (text : Bytes) : Except Malformed FileRecord :=
  match ((parse? text).bind (Fields.ofValue? fieldNames)).bind ofFields? with
  | some r => .ok r
  | none => .error .notJson

/-- **The record that a text is.** -/
def ofText (text : Bytes) : Except Malformed FileRecord :=
  (ofTextUnchecked text).bind fun r => r.validate.map fun _ => r

end FileRelay.FileRecord
