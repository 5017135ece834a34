import FileRelay.Config
import FileRelay.Digest.Digester
import FileRelay.Part.Label
import FileRelay.Record.Text
import FileRelay.Source.ChunkReader
import FileRelay.Source.Inspect
import FileRelay.Transfer.Event
import FileRelay.Transfer.Exchange
import FileRelay.Transfer.Turn

/-!
# Transfer/Upload — a file published in parts, and then its record

An upload looks at the file, opens it, and then reads it part by part; the file may change all the
time.  Each turn publishes one part with its label.  The record, which carries the digest of all
that was read, is stored only when the parts published fill the length that the file had at first;
any failure leaves the store as it is.
-/

namespace FileRelay

/-- What an uploader may say of a file instead of what the file itself says. -/
structure UploadOptions where
  name : Option String
  description : Option String
  contentType : Option String
  deriving DecidableEq, Repr, Inhabited

/-- **What an upload settles when it looks at its file.**  The file may be longer or shorter when it is
opened. -/
structure UploadPlan where
  config : Config
  algorithm : Digest.Algorithm
  source : Source
  /-- The record of the file, without a digest. -/
  record : FileRecord
  deriving DecidableEq

/-- What an upload comes to. -/
structure UploadReport where
  record : FileRecord
  subject : String
  bytesRead : Nat
  /-- The octets of all payloads. -/
  bytesPublished : Nat
  firstSequence : Nat
  lastSequence : Nat
  /-- The revision of the record in the store. -/
  revision : Nat
  deriving DecidableEq

/-- An **upload** that is going on. -/
structure Upload where
  path : Path
  subject : String
  algorithm : Digest.Algorithm
  codec : Option Codec
  /-- The record of the file, without a digest. -/
  record : FileRecord
  reader : ChunkReader
  digester : Digest.Digester
  /-- The places in the log of the first part and of the last one. -/
  sequences : Option (UInt64 × UInt64)
  bytesPublished : Nat
  events : List Event
  deriving DecidableEq

namespace Upload

/-! ## The beginning -/

/-- The record of a file to upload, without a digest. -/
def recordOf (config : Config) (options : UploadOptions) (source : Source) :
    Except Failure FileRecord :=
  match Word.ofNat? source.length with
  | none => .error .overflow
  | some length =>
    let name := options.name.getD source.name
    let usual := (Source.contentType? source.path).getD Source.usualType
    match FileRecord.new name (options.contentType.getD usual) length config.partSize
        source.modified with
    | .error why => .error (.record why)
    | .ok r => .ok { r with description := options.description.getD r.description }

/-- An upload that has published nothing, of a file that was as long as this when it was opened. -/
def of (p : UploadPlan) (length : Nat) : Upload where
  path := p.source.path
  subject := partSubject p.config.partPrefix p.record.id
  algorithm := p.algorithm
  codec := p.config.codec
  record := p.record
  reader := .openAt length p.config.partSize.toNat
  digester := .new p.algorithm
  sequences := none
  bytesPublished := 0
  events := []

/-- **The look at a file.** -/
def plan (config : Config) (path : Path) (options : UploadOptions) (x : Exchange) :
    Except Failure UploadPlan := do
  config.validate
  if x.time.calledOff then .error .cancelled
  let source ← Source.inspect x.files path
  let algorithm ← config.digest
  let record ← recordOf config options source
  .ok { config, algorithm, source, record }

/-- **Opens the file**, as long as it is now. -/
def openFile (p : UploadPlan) (files : FileTree) : Except Failure Upload :=
  match files.read p.source.path with
  | .error e => .error (.content (.io e))
  | .ok content =>
    match Word.ofNat? content.length with
    | none => .error .overflow
    | some length => .ok (of p length.toNat)

/-- **The beginning of an upload.** -/
def start (config : Config) (path : Path) (options : UploadOptions) (x : Exchange) :
    Except Failure Upload := do
  let p ← plan config path options x
  openFile p x.files

/-! ## Turns -/

/-- One more event. -/
def tell (u : Upload) (e : Event) : Upload := { u with events := u.events ++ [e] }

/-- The label and the payload of a chunk. -/
def partOf (u : Upload) (c : Chunk) : Label × Bytes :=
  let digest : Digest.Entry := ⟨u.algorithm.name, u.algorithm.hexDigest c.data⟩
  let label := Label.plain u.record.id (UInt64.ofNat c.number) (UInt64.ofNat c.start)
    (UInt64.ofNat c.data.length) digest
  match u.codec with
  | none => (label, c.data)
  | some k =>
    let payload := k.encode c.data
    (label.encoded k.encoding (UInt64.ofNat payload.length), payload)

/-- The upload after a chunk was published at a place. -/
def published (u : Upload) (c : Chunk) (payload : Nat) (sequence : UInt64) : Upload :=
  let u := { u with
    sequences := some ((u.sequences.map Prod.fst).getD sequence, sequence)
    bytesPublished := u.bytesPublished + payload }
  u.tell (.partPublished u.record.id c.number u.record.parts.toNat sequence.toNat)

/-- Publishes a chunk. -/
def publish (u : Upload) (c : Chunk) (x : Exchange) : Turn Upload × Exchange :=
  let u := { u with digester := u.digester.absorb c.data }
  let part := u.partOf c
  match x.publish ⟨u.subject, part.1.toHeaders, part.2⟩ with
  | (.error e, x) => (.broken u (.delivery e), x)
  | (.ok n, x) =>
    match Word.ofNat? n with
    | none => (.broken u .overflow, x)
    | some sequence => (.on (u.published c part.2.length sequence), x)

/-- **One turn**: the next chunk of the file as it is now. -/
def turn (u : Upload) (x : Exchange) : Turn Upload × Exchange :=
  if x.time.calledOff then (.broken u .cancelled, x)
  else match x.files.read u.path with
    | .error e => (.broken u (.content (.io e)), x)
    | .ok content =>
      let r := u.reader.next content
      let u := { u with reader := r.2 }
      match r.1 with
      | none => (.done u, x)
      | some c => u.publish c x

/-- The number of turns that an upload takes at most: no chunk is empty. -/
def patience (u : Upload) : Nat := u.reader.remaining + 1

/-! ## The end -/

/-- The record of a file that was read to its end. -/
def finalRecord (u : Upload) : FileRecord :=
  { u.record.withDigest ⟨u.algorithm.name, u.digester.value.1⟩ with
    firstSequence := u.sequences.map Prod.fst }

/-- **The end of an upload**: the record is stored if the parts fill the length. -/
def finish (u : Upload) (x : Exchange) : Except Failure UploadReport × Upload × Exchange :=
  if u.reader.offset ≠ u.record.length.toNat ∨ u.reader.partsRead ≠ u.record.parts.toNat then
    (.error (.shortRead u.record.length.toNat u.reader.offset), u, x)
  else
    let record := u.finalRecord
    match x.put (recordKey record.id) record.toText with
    | (.error e, x) => (.error (.delivery e), u, x)
    | (.ok revision, x) =>
      (.ok {
        record
        subject := u.subject
        bytesRead := u.reader.offset
        bytesPublished := u.bytesPublished
        firstSequence := (u.sequences.map fun s => s.1.toNat).getD 0
        lastSequence := (u.sequences.map fun s => s.2.toNat).getD 0
        revision }, u.tell (.completed record.id record.length.toNat), x)

/-- The rest of an upload that has begun. -/
def complete (u : Upload) (x : Exchange) : Except Failure UploadReport × Upload × Exchange :=
  match Turn.takeTurns turn u.patience u x with
  | (.on u, x) => (.error .stalled, u, x)
  | (.broken u why, x) => (.error why, u, x)
  | (.done u, x) => u.finish x

/-- What an upload came to, and what it told.  A failed one names no file in its last event. -/
structure Outcome where
  result : Except Failure UploadReport
  events : List Event

/-- The outcome of a failed upload. -/
def failed (why : Failure) (events : List Event) : Outcome :=
  ⟨.error why, events ++ [.failed "" why]⟩

/-- **Uploads a file.** -/
def run (config : Config) (path : Path) (options : UploadOptions) (x : Exchange) :
    Outcome × Exchange :=
  match start config path options x with
  | .error why => (failed why [], x)
  | .ok u =>
    match u.complete x with
    | (.error why, u, x) => (failed why u.events, x)
    | (.ok report, u, x) => (⟨.ok report, u.events⟩, x)

end Upload

end FileRelay
