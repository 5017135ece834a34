import FileRelay.Config
import FileRelay.Digest.Digester
import FileRelay.Path.OutputName
import FileRelay.Transfer.Catalogue
import FileRelay.Transfer.Event
import FileRelay.Transfer.Exchange
import FileRelay.Transfer.PartCheck
import FileRelay.Transfer.Sink
import FileRelay.Transfer.Turn

/-!
# Transfer/Download — a file put together from its parts, and verified

A download opens a reader of the file's subject and takes one delivery in each turn.  The part
that must come next is written; anything else is refused, and the download **recovers**: it closes
its reader and opens another one just after the last part it has accepted, as often as its budget
allows.  Requests for a reply are answered.  When nothing but heartbeats has come for too long,
the download ends without the rest.

What was written is never taken back.  At the end the digest of all that was written is compared
with the one on record.
-/

namespace FileRelay

/-- What the comparison with the record comes to. -/
inductive Verification where
  | verified
  /-- All parts came, but the digest is another. -/
  | digestMismatch (expected actual : String)
  /-- Not all parts came. -/
  | incomplete (expected received : Nat)
  deriving DecidableEq, Repr

/-- Do all parts and the digest agree with the record? -/
def Verification.isVerified : Verification → Bool
  | verified => true
  | _ => false

/-- What a download comes to. -/
structure DownloadReport where
  fileId : String
  name : String
  partsWritten : Nat
  bytesWritten : Nat
  /-- The places in the log of the first part and of the last one. -/
  firstSequence : Option Nat
  lastSequence : Option Nat
  recoveries : Nat
  flowReplies : Nat
  /-- The digest of all that was written. -/
  digest : Digest.Entry
  verification : Verification
  deriving DecidableEq, Repr

/-- What is to be downloaded, and how. -/
structure DownloadTask where
  config : Config
  record : FileRecord
  /-- The digest on record, and its algorithm. -/
  expected : Digest.Entry
  algorithm : Digest.Algorithm
  deriving DecidableEq

/-- A **download** that is going on. -/
structure Download where
  task : DownloadTask
  session : Session
  reader : Subscription
  digester : Digest.Digester
  sink : Sink
  /-- The moment of the last message that was not a heartbeat. -/
  lastActivity : Nat
  flowReplies : Nat
  events : List Event
  deriving DecidableEq

/-! ## The task -/

namespace DownloadTask

/-- **What is to be downloaded**, if the settings are valid and the record has a digest of a known
algorithm. -/
def of (config : Config) (record : FileRecord) : Except Failure DownloadTask :=
  config.validate.bind fun () =>
    match record.digest? with
    | none => .error (.uploadIncomplete record.id)
    | some expected =>
      match Digest.Algorithm.parse? expected.algorithm with
      | none => .error (.content (.unsupportedAlgorithm expected.algorithm))
      | some algorithm => .ok { config, record, expected, algorithm }

/-- The subject of the parts. -/
def subject (t : DownloadTask) : String := partSubject t.config.partPrefix t.record.id

/-- Where reading begins. -/
def origin (t : DownloadTask) : Position :=
  match t.record.firstSequence with
  | none => .all
  | some n => .sequence n.toNat

/-- The number of parts. -/
def parts (t : DownloadTask) : Nat := t.record.parts.toNat

/-- How many turns in a row hear nothing before the download gives up, if nothing but the clock
makes them. -/
def idleTurns (t : DownloadTask) (o : LogOptions) : Nat :=
  let timeout := t.config.readTimeoutMs.toNat
  t.config.maxIdleMs.toNat / min timeout (o.idleHeartbeatMs.getD timeout) + 1

/-- **The number of turns that a download takes at most.** Each of its data deliveries carries the
next part or costs a recovery, and no two requests for a reply come without a delivery between
them; a rule can add one more of either.  Between them nothing is heard until the download gives
up. -/
def patience (t : DownloadTask) (x : Exchange) : Nat :=
  let rules := x.interference.rules.length
  let deliveries := t.parts + t.config.retryBudget.toNat + 1
  (2 * deliveries + rules + 1) * (t.idleTurns x.log.options + 1) + rules + 1

end DownloadTask

namespace Download

/-! ## The beginning -/

/-- A download that has opened its reader. -/
def of (t : DownloadTask) (sink : Sink) (reader : Subscription) (now : Nat) : Download where
  task := t
  session := (Session.new t.config.retryBudget.toNat t.origin).startReading
  reader
  digester := .new t.algorithm
  sink
  lastActivity := now
  flowReplies := 0
  events := []

/-! ## Turns -/

/-- The identifier of the file. -/
def fileId (d : Download) : String := d.task.record.id

/-- One more event. -/
def tell (d : Download) (e : Event) : Download := { d with events := d.events ++ [e] }

/-- Closes the reader. -/
def close (d : Download) (x : Exchange) : Download × Exchange :=
  let r := x.unsubscribe d.reader
  ({ d with reader := r.1 }, r.2)

/-- Closes the reader and breaks off. -/
def breakOff (d : Download) (why : Failure) (x : Exchange) : Turn Download × Exchange :=
  let r := d.close x
  (.broken { r.1 with session := r.1.session.fail } why, r.2)

/-- A turn that has heard nothing: the download gives up after too many of them. -/
def rest (d : Download) (x : Exchange) : Turn Download × Exchange :=
  if d.task.config.maxIdleMs.toNat ≤ x.time.now - d.lastActivity then (.done d, x) else (.on d, x)

/-- A turn that has heard a request for a reply. -/
def answer (d : Download) (replyTo : Option Address) (x : Exchange) : Turn Download × Exchange :=
  match replyTo with
  | none => (.on d, x)
  | some address =>
    match x.reply address with
    | (.error e, x) => d.breakOff (.delivery e) x
    | (.ok (), x) =>
      (.on ({ d with flowReplies := d.flowReplies + 1 }.tell (.flowControl d.fileId)), x)

/-- The exchange after an accepted delivery: the log is told of it, if it wants to know. -/
def acknowledge (d : Download) (m : Delivery) (x : Exchange) : Exchange :=
  match d.task.config.ackPolicy with
  | .explicit => (x.ack d.reader m).2
  | .none => x

/-- A turn that has heard the next part: its content is written. -/
def accept (d : Download) (m : Delivery) (data : Bytes) (x : Exchange) :
    Turn Download × Exchange :=
  let w := d.sink.writeAll data
  let d := { d with sink := w.2 }
  match w.1 with
  | .error e => d.breakOff (.io e) x
  | .ok () =>
    match d.session.accept? m.sequence data.length with
    | none => (.broken d .overflow, x)
    | some session =>
      let d := { d with session, digester := d.digester.absorb data }
      (.on (d.tell (.partAccepted d.fileId session.partsWritten d.task.parts
        session.bytesWritten)), d.acknowledge m x)

/-- The end of a download whose budget is spent. -/
def giveUp (d : Download) (x : Exchange) : Turn Download × Exchange :=
  let f := d.sink.flush
  let d := { d with sink := f.2 }
  match f.1 with
  | .error e => (.broken d (.io e), x)
  | .ok () =>
    (.broken d (.tooManyMismatches d.session.recoveries d.session.partsWritten
      d.session.bytesWritten), x)

/-- A new reader at a place. -/
def resume (d : Download) (reason : Anomaly) (p : Position) (x : Exchange) :
    Turn Download × Exchange :=
  let place := match p with
    | .all => 1
    | .sequence n => n
  let d := d.tell (.recovering d.fileId reason place d.session.retriesLeft)
  match x.subscribe d.task.subject p with
  | (.error e, x) => (.broken d (.delivery e), x)
  | (.ok reader, x) => (.on { d with reader, session := d.session.startReading }, x)

/-- A turn that has heard anything but the next part: it is refused, and the download recovers. -/
def recover (d : Download) (m : Delivery) (reason : Anomaly) (x : Exchange) :
    Turn Download × Exchange :=
  let r := d.close (x.term d.reader m).2
  let d := r.1
  match d.session.recover? with
  | none => (.broken d .overflow, r.2)
  | some (none, session) => { d with session }.giveUp r.2
  | some (some p, session) => { d with session }.resume reason p r.2

/-- A turn that has heard a published message. -/
def take (d : Download) (m : Delivery) (x : Exchange) : Turn Download × Exchange :=
  match d.session.checkPart d.task.record m with
  | none => (.broken d .overflow, x)
  | some (.ok data) => d.accept m data x
  | some (.error reason) => d.recover m reason x

/-- **One turn**, unless all parts have been accepted. -/
def turn (d : Download) (x : Exchange) : Turn Download × Exchange :=
  if d.session.isComplete d.task.parts then (.done d, x)
  else
    let h := x.hear d.reader d.task.config.readTimeoutMs.toNat
    let d := { d with reader := h.2.1 }
    let x := h.2.2
    match h.1 with
    | .calledOff => d.breakOff .cancelled x
    | .broken e => d.breakOff (.delivery e) x
    | .nothing => d.rest x
    | .flowControl replyTo => { d with lastActivity := x.time.now }.answer replyTo x
    | .data m => { d with lastActivity := x.time.now }.take m x

/-! ## The end -/

/-- The digest of all that was written. -/
def digest (d : Download) : Digest.Entry := ⟨d.task.algorithm.name, d.digester.value.1⟩

/-- **The comparison with the record.** -/
def verification (d : Download) : Verification :=
  if !d.session.isComplete d.task.parts then .incomplete d.task.parts d.session.partsWritten
  else if d.digest.agrees d.task.expected then .verified
  else .digestMismatch d.task.expected.value d.digest.value

/-- The report of a download. -/
def report (d : Download) : DownloadReport where
  fileId := d.fileId
  name := d.task.record.name
  partsWritten := d.session.partsWritten
  bytesWritten := d.session.bytesWritten
  firstSequence := d.session.firstSequence
  lastSequence := d.session.lastSequence
  recoveries := d.session.recoveries
  flowReplies := d.flowReplies
  digest := d.digest
  verification := d.verification

/-- **The end of a download** that was not broken off. -/
def finish (d : Download) (x : Exchange) : Except Failure DownloadReport × Download × Exchange :=
  let r := d.close x
  let f := r.1.sink.flush
  let d := { r.1 with sink := f.2 }
  match f.1 with
  | .error e => (.error (.io e), d, r.2)
  | .ok () =>
    let d := { d with session := d.session.finish }
    (.ok d.report, d.tell (.completed d.fileId d.session.bytesWritten), r.2)

/-- The rest of a download that has begun. -/
def complete (d : Download) (x : Exchange) : Except Failure DownloadReport × Download × Exchange :=
  match Turn.takeTurns turn (d.task.patience x) d x with
  | (.on d, x) => (.error .stalled, d, x)
  | (.broken d why, x) => (.error why, d, x)
  | (.done d, x) => d.finish x

/-- What a download came to, what it told, and the sink. -/
structure Outcome where
  result : Except Failure DownloadReport
  events : List Event
  sink : Sink

/-- The outcome of a failed download, which flushes its sink whatever comes of it. -/
def failed (fileId : String) (why : Failure) (events : List Event) (sink : Sink) : Outcome :=
  ⟨.error why, events ++ [.failed fileId why], sink.flush.2⟩

/-- **Downloads a file** by its record. -/
def run (config : Config) (record : FileRecord) (sink : Sink) (x : Exchange) : Outcome × Exchange :=
  match DownloadTask.of config record with
  | .error why => (failed record.id why [] sink, x)
  | .ok task =>
    match x.subscribe task.subject task.origin with
    | (.error e, x) => (failed record.id (.delivery e) [] sink, x)
    | (.ok reader, x) =>
      match (of task sink reader x.time.now).complete x with
      | (.error why, d, x) => (failed record.id why d.events d.sink, x)
      | (.ok report, d, x) => (⟨.ok report, d.events, d.sink⟩, x)

/-! ## By identifier, and into a directory -/

/-- **Downloads a file** by its identifier. -/
def runById (config : Config) (id : String) (sink : Sink) (x : Exchange) : Outcome × Exchange :=
  match x.fetch id with
  | (.error why, x) => (⟨.error why, [], sink⟩, x)
  | (.ok record, x) => run config record sink x

/-- Makes the file below a directory that a record names, empty, together with the directory. -/
def createIn (dir : Path) (record : FileRecord) (files : FileTree) :
    Except Failure Path × FileTree :=
  match Path.checkOutputName record.name with
  | .error e => (.error (.content (.badName e)), files)
  | .ok () =>
    match files.makeDirs dir with
    | .error e => (.error (.io e), files)
    | .ok files =>
      let path := Path.join dir (Bytes.ofText record.name)
      match files.write path [] Calendar.Instant.epoch with
      | .error e => (.error (.io e), files)
      | .ok files => (.ok path, files)

/-- **Downloads a file into a directory**, under the name on record, and gives the path of the file.
What was written stays in the file, whatever the download comes to. -/
def runInto (config : Config) (id : String) (dir : Path) (x : Exchange) :
    Option Path × Outcome × Exchange :=
  match x.fetch id with
  | (.error why, x) => (none, ⟨.error why, [], .unlimited⟩, x)
  | (.ok record, x) =>
    match createIn dir record x.files with
    | (.error why, files) => (none, ⟨.error why, [], .unlimited⟩, { x with files })
    | (.ok path, files) =>
      let r := run config record .unlimited { x with files }
      let files := r.2.files.change path fun _ => r.1.sink.written
      (some path, r.1, { r.2 with files })

end Download

end FileRelay
