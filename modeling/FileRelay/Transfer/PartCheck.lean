import FileRelay.Codec
import FileRelay.Log.Message
import FileRelay.Part.Label
import FileRelay.Record.FileRecord
import FileRelay.Transfer.Session

/-!
# Transfer/PartCheck — is a delivery the part that must come next?

A delivery is accepted when its label can be read and names the file, when it is the next delivery
and carries the next part, when it lies in the file where the record says (`checkPlace`), and when
its payload decodes to a content of the length and the digest that the label announces
(`checkContent`).  The first of these that fails is the anomaly.
-/

namespace FileRelay

/-- **The content of a payload**, held to its label and to the length of the part. -/
def Label.checkContent (l : Label) (length : UInt64) (payload : Bytes) : Except Anomaly Bytes :=
  let n := l.number.toNat
  if l.payloadLength.toNat ≠ payload.length then
    .error (.payload n l.payloadLength.toNat payload.length)
  else match decodePayload l.encoding length.toNat payload with
    | .error e => .error (.undecodable n e)
    | .ok data =>
      if data.length ≠ length.toNat then .error (.length n length.toNat data.length)
      else match Digest.Algorithm.parse? l.digest.algorithm with
        | none =>
          .error (.label (.unknownAlgorithm (.unsupportedAlgorithm l.digest.algorithm)))
        | some a =>
          if Digest.Entry.agrees ⟨a.name, a.hexDigest data⟩ l.digest then .ok data
          else .error (.digest n)

namespace FileRecord

/-- **Is a part where the record says?**  Its length is the answer; there is none at all when the
beginning of the part does not fit a word. -/
def checkPlace (r : FileRecord) (l : Label) : Option (Except Anomaly UInt64) :=
  let n := l.number.toNat
  (r.partStart? l.number).map fun start =>
    match r.partLength? l.number, start with
    | some length, some start =>
      if l.start ≠ start then .error (.offset n start.toNat l.start.toNat)
      else if l.length ≠ length then .error (.length n length.toNat l.length.toNat)
      else .ok length
    | _, _ => .error (.label (.beyondLast n r.parts.toNat))

/-- The label of a message, if it is one of the file. -/
def labelOf (r : FileRecord) (h : Headers) : Except BadLabel Label :=
  match Label.ofHeaders h with
  | .error why => .error (.unreadable why)
  | .ok l => if l.fileId = r.id then .ok l else .error (.otherFile l.fileId)

/-- **The content of a part of the file**, if it is one. -/
def partContent (r : FileRecord) (l : Label) (payload : Bytes) : Option (Except Anomaly Bytes) :=
  (r.checkPlace l).map fun place => place.bind fun length => l.checkContent length payload

end FileRecord

/-- **Is a delivery the part that must come next?**  The content of the part is the answer. -/
def Session.checkPart (s : Session) (r : FileRecord) (d : Delivery) :
    Option (Except Anomaly Bytes) :=
  match r.labelOf d.headers with
  | .error why => some (.error (.label why))
  | .ok l =>
    match s.checkOrder d.number l.number.toNat with
    | .error a => some (.error a)
    | .ok () => r.partContent l d.payload

end FileRelay
