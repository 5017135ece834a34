import FileRelay.Codec
import FileRelay.Digest.Algorithm
import FileRelay.Failure
import FileRelay.Json.Fields
import FileRelay.Path.FileTree
import FileRelay.Source.ChunkReader

/-!
# Config — the settings of a relay and the file they are kept in

Every setting has a usual value, so that a file need name only some of them; a file that cannot be
read as settings stands for the usual ones.  Settings are saved with one field on each line, and
what is saved is loaded again.
-/

namespace FileRelay

open Json

/-- Is the log told of each accepted part? -/
inductive AckPolicy where
  | explicit
  | none
  deriving DecidableEq, Repr

/-- The **settings** of a relay. -/
structure Config where
  partPrefix : String
  partSize : UInt64
  compression : Option Encoding
  compressionLevel : Int32
  digestAlgorithm : String
  retryBudget : UInt32
  readTimeoutMs : UInt64
  maxIdleMs : UInt64
  ackPolicy : AckPolicy
  deriving DecidableEq, Repr

namespace Config

/-- The usual settings. -/
def usual : Config where
  partPrefix := "parts"
  partSize := 65536
  compression := .none
  compressionLevel := Int32.ofInt Codec.usualLevel
  digestAlgorithm := Digest.Algorithm.sha256.name
  retryBudget := 10
  readTimeoutMs := 1000
  maxIdleMs := 10000
  ackPolicy := .explicit

instance : Inhabited Config := ⟨usual⟩

/-! ## As text -/

/-- The names of the fields in order. -/
def fieldNames : List String :=
  ["partPrefix", "partSize", "compression", "compressionLevel", "digestAlgorithm", "retryBudget",
    "readTimeoutMs", "maxIdleMs", "ackPolicy"]

/-- The encodings by name. -/
def encodings : List (String × Encoding) := [(Encoding.zstd.name, .zstd)]

/-- The name of a policy, and the policies by name. -/
def policyName : AckPolicy → String
  | .explicit => "explicit"
  | .none => "none"

def policies : List (String × AckPolicy) :=
  [AckPolicy.explicit, AckPolicy.none].map fun p => (policyName p, p)

/-- The settings of some fields; those that are not there are as usual. -/
def ofFields? (fs : Fields) : Option Config := do
  let partPrefix ← fs.defaulted? text? usual.partPrefix "partPrefix"
  let partSize ← fs.defaulted? word? usual.partSize "partSize"
  let compression ← fs.nullable? (choice? encodings) "compression"
  let compressionLevel ← fs.defaulted? signed? usual.compressionLevel "compressionLevel"
  let digestAlgorithm ← fs.defaulted? text? usual.digestAlgorithm "digestAlgorithm"
  let retryBudget ← fs.defaulted? halfWord? usual.retryBudget "retryBudget"
  let readTimeoutMs ← fs.defaulted? word? usual.readTimeoutMs "readTimeoutMs"
  let maxIdleMs ← fs.defaulted? word? usual.maxIdleMs "maxIdleMs"
  let ackPolicy ← fs.defaulted? (choice? policies) usual.ackPolicy "ackPolicy"
  some { partPrefix, partSize, compression, compressionLevel, digestAlgorithm, retryBudget,
         readTimeoutMs, maxIdleMs, ackPolicy }

/-- **The settings that a text holds.** -/
def ofText? (text : Bytes) : Option Config :=
  ((parse? text).bind (Fields.ofValue? fieldNames)).bind ofFields?

/-- The members of the object. -/
def members (c : Config) : List (Bytes × Value) := [
  member "partPrefix" (ofText c.partPrefix),
  member "partSize" (ofNat c.partSize.toNat),
  member "compression" (match c.compression with
    | .none => .null
    | some e => ofText e.name),
  member "compressionLevel" (ofInt c.compressionLevel.toInt),
  member "digestAlgorithm" (ofText c.digestAlgorithm),
  member "retryBudget" (ofNat c.retryBudget.toNat),
  member "readTimeoutMs" (ofNat c.readTimeoutMs.toNat),
  member "maxIdleMs" (ofNat c.maxIdleMs.toNat),
  member "ackPolicy" (ofText (policyName c.ackPolicy))]

/-- The settings on one line. -/
def toText (c : Config) : Bytes := render (.object c.members)

/-- **The text of the file** that settings are saved in. -/
def toFileText (c : Config) : Bytes := renderLines c.members

/-! ## In a file -/

/-- **The settings in a file**: as usual where no file is, or one that holds no settings. -/
def load (t : FileTree) (p : Path) : Except Failure Config :=
  if !t.pathExists p then .ok usual
  else match t.read p with
    | .error e => .error (.io e)
    | .ok content =>
      if (Bytes.toText? content).isNone then .error (.io .notText)
      else .ok ((ofText? content).getD usual)

/-- **Saves settings in a file**, in a directory that is made if it is not there. -/
def save (t : FileTree) (p : Path) (c : Config) : Except Failure FileTree :=
  let dirs : Except IoFault FileTree := match Path.parent? p with
    | .none => .ok t
    | some d => t.makeDirs d
  match dirs.bind fun t => t.write p c.toFileText Calendar.Instant.epoch with
  | .ok t => .ok t
  | .error e => .error (.io e)

/-- The file of a user's settings, below the user's directory or else below `/tmp`. -/
def userFile (home : Option String) : Path :=
  [".config", "chunkrelay", "config.json"].foldl (fun p s => p.join (Bytes.ofText s))
    (Bytes.ofText (home.getD "/tmp"))

/-! ## Their meaning -/

/-- The algorithm of digests. -/
def digest (c : Config) : Except Failure Digest.Algorithm :=
  match Digest.Algorithm.parse? c.digestAlgorithm with
  | some a => .ok a
  | .none => .error (.content (.unsupportedAlgorithm c.digestAlgorithm))

/-- The codec of payloads, if they are to be encoded. -/
def codec (c : Config) : Option Codec :=
  c.compression.map fun e => Codec.new e c.compressionLevel.toInt

/-- **Can a relay work with these settings?** -/
def validate (c : Config) : Except Failure Unit :=
  if c.partSize = 0 then .error (.config .zeroPartSize)
  else if c.partPrefix.isEmpty || c.partPrefix.toList.any Text.isBlank then
    .error (.config (.badPrefix c.partPrefix))
  else match c.digest with
    | .error e => .error e
    | .ok _ =>
      if c.readTimeoutMs = 0 then .error (.config .zeroReadTimeout)
      else if c.maxIdleMs < c.readTimeoutMs then .error (.config .shortIdle)
      else .ok ()

end Config

end FileRelay
