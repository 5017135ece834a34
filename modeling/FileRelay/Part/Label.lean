import FileRelay.Digest.Entry
import FileRelay.Encoding
import FileRelay.Part.Headers

/-!
# Part/Label — what a message says about the part of a file that it carries

Each message carries one part of a file and a **label** that says which: the file's identifier, the
number of the part, where its data begin in the file and how long they are, how they are encoded,
and their digest.  Labels travel as headers (`toHeaders`, `ofHeaders`).

Names are made here too: the subject under which a file's parts are published, and the identifier
of a part.
-/

namespace FileRelay

/-- The subject of the parts of a file. -/
def partSubject (pre fileId : String) : String := pre ++ "." ++ fileId

/-- The key under which the record of a file is stored. -/
def recordKey (fileId : String) : String := fileId

/-- The identifier of a part. -/
def partId (fileId : String) (number : UInt64) : String :=
  fileId ++ "-" ++ Text.Decimal.ofWord number

/-- The **label** of a part. -/
structure Label where
  id : String
  fileId : String
  number : UInt64
  start : UInt64
  length : UInt64
  encodedLength : Option UInt64
  encoding : Option Encoding
  digest : Digest.Entry
  deriving DecidableEq, Repr, Inhabited

namespace Label

open Text.Decimal (ofWord)

/-! ## The keys of the headers -/

def keyId : String := "id"
def keyFileId : String := "file-id"
def keyNumber : String := "part-number"
def keyStart : String := "start"
def keyLength : String := "length"
def keyEncodedLength : String := "encoded-length"
def keyEncoding : String := "Content-Encoding"
def keyDigest : String := "Digest"

/-- A part that is not encoded. -/
def plain (fileId : String) (number start length : UInt64) (digest : Digest.Entry) : Label where
  id := partId fileId number
  fileId
  number
  start
  length
  encodedLength := none
  encoding := none
  digest

/-- The same part, encoded. -/
def encoded (l : Label) (encoding : Encoding) (encodedLength : UInt64) : Label :=
  { l with encoding := some encoding, encodedLength := some encodedLength }

/-- The length of the payload. -/
def payloadLength (l : Label) : UInt64 := l.encodedLength.getD l.length

/-! ## As headers -/

/-- **A label as headers.** -/
def toHeaders (l : Label) : Headers :=
  let h : Headers := KeyMap.ofList [(keyId, l.id), (keyFileId, l.fileId),
    (keyNumber, ofWord l.number), (keyStart, ofWord l.start), (keyLength, ofWord l.length),
    (keyDigest, l.digest.text)]
  match l.encoding, l.encodedLength with
  | some e, some n => (h.insert keyEncodedLength (ofWord n)).insert keyEncoding e.name
  | _, _ => h

/-- A header that must be there. -/
def required (h : Headers) (key : String) : Except Malformed String :=
  match h.find? key with
  | some v => .ok v
  | none => .error (.missingHeader key)

/-- The word that the value of a header is, between blanks. -/
def word (key value : String) : Except Malformed UInt64 :=
  match Text.Decimal.word? (Text.trim value.toList) with
  | some n => .ok n
  | none => .error (.invalidHeader key value)

/-- A header that must be there and be a word. -/
def requiredWord (h : Headers) (key : String) : Except Malformed UInt64 :=
  required h key >>= word key

/-- What a header says, if it is there. -/
def optional {α : Type} (read : String → Except Malformed α) (h : Headers) (key : String) :
    Except Malformed (Option α) :=
  match h.find? key with
  | none => .ok none
  | some v => (read v).map some

/-- A part number: parts are counted from one. -/
def partNumber (h : Headers) : Except Malformed UInt64 :=
  requiredWord h keyNumber >>= fun n =>
    if n = 0 then .error (.invalidHeader keyNumber "0") else .ok n

/-- **The label that headers are**, whatever the case of their keys and whatever else there is. -/
def ofHeaders (h : Headers) : Except Malformed Label := do
  let fileId ← required h keyFileId
  let number ← partNumber h
  let start ← requiredWord h keyStart
  let length ← requiredWord h keyLength
  let digest ← required h keyDigest >>= Digest.Entry.parse
  let encodedLength ← optional (word keyEncodedLength) h keyEncodedLength
  let encoding ← optional Encoding.parse h keyEncoding
  if encodedLength.isSome != encoding.isSome then .error (.inconsistent .halfEncoding)
  else
    let id := (h.find? keyId).getD (partId fileId number)
    .ok { id, fileId, number, start, length, encodedLength, encoding, digest }

end Label

end FileRelay
