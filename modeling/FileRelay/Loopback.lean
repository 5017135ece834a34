import FileRelay.Text.Quoted
import FileRelay.Transfer.Download
import FileRelay.Transfer.Upload

/-!
# Loopback — a file sent to a log and brought back

The command uploads a file to a log of its own, downloads it again into a directory and verifies it.
It takes the file and, after it, the directory; the settings are the user's.

What goes wrong is told in one message, followed by the causes behind it, which are numbered if
there are several.
-/

namespace FileRelay

namespace Loopback

open Text.Decimal (text)

/-! ## Messages -/

/-- What goes wrong. -/
inductive Trouble where
  | usage
  /-- A failure, and what was being done when it came. -/
  | failure (during : Option String) (why : Failure)
  | unverified (v : Verification)
  deriving DecidableEq, Repr

/-- A verification with its particulars. -/
def particulars : Verification → String
  | .verified => "Verified"
  | .digestMismatch expected actual =>
    "DigestMismatch \x7b expected: " ++ Text.quoted expected ++ ", actual: " ++
      Text.quoted actual ++ " \x7d"
  | .incomplete expected received =>
    "Incomplete \x7b expected_parts: " ++ text expected ++ ", received_parts: " ++
      text received ++ " \x7d"

/-- The message and the causes behind it. -/
def Trouble.messages : Trouble → String × List String
  | usage => ("usage: chunkrelay-loopback <file> [out-dir]", [])
  | failure none why => (why.message, why.causes)
  | failure (some during) why => (during, why.message :: why.causes)
  | unverified v => ("verification failed: " ++ particulars v, [])

/-- A text with a margin before each line but the first. -/
def indented (margin : String) (s : String) : List Char :=
  s.toList.flatMap fun c => if c = '\n' then '\n' :: margin.toList else [c]

/-- A cause on lines of its own. -/
def single (s : String) : List Char := '\n' :: "    ".toList ++ indented "    " s

/-- A cause with its number on lines of its own. -/
def numbered (n : Nat) (s : String) : List Char :=
  let digits := (text n).toList
  '\n' :: List.replicate (5 - digits.length) ' ' ++ digits ++ ": ".toList ++
    indented "       " s

/-- The causes behind a message. -/
def causes : List String → List Char
  | [] => []
  | [s] => "\n\nCaused by:".toList ++ single s
  | ss => "\n\nCaused by:".toList ++ (ss.mapIdx numbered).flatten

/-- **What is told of a trouble.** -/
def Trouble.text (t : Trouble) : String :=
  "Error: " ++ t.messages.1 ++ String.ofList (causes t.messages.2) ++ "\n"

/-! ## The command -/

/-- What the command finds around it: its arguments, the user's directory and the one for temporary
files. -/
structure Surroundings where
  arguments : List String
  home : Option String
  temporary : Path
  deriving DecidableEq, Repr

/-- The number of messages after which the log asks for a reply. -/
def flowControlEvery : Nat := 16

/-- The log sends a heartbeat a little after half of the time that a reader waits. -/
def logOptions (c : Config) : LogOptions :=
  ⟨some flowControlEvery, some (c.readTimeoutMs.toNat / 2 + 1)⟩

/-- The directory for the file that is brought back. -/
def outputDir (s : Surroundings) : Path :=
  match s.arguments with
  | _ :: dir :: _ => Bytes.ofText dir
  | _ => s.temporary.join (Bytes.ofText "chunkrelay")

/-- Sends a file and brings it back. -/
def transfer (config : Config) (source : String) (dir : Path) (files : FileTree) :
    Option Trouble × FileTree :=
  let x := Exchange.new (logOptions config) files
  let sent := Upload.run config (Bytes.ofText source) default x
  match sent.1.result with
  | .error why => (some (.failure (some ("uploading " ++ source)) why), sent.2.files)
  | .ok sending =>
    let id := sending.record.id
    let received := Download.runInto config id dir sent.2
    let files := received.2.2.files
    match received.2.1.result with
    | .error why => (some (.failure (some ("downloading " ++ id)) why), files)
    | .ok report =>
      if report.verification.isVerified then (none, files)
      else (some (.unverified report.verification), files)

/-- **Runs the command**: what goes wrong, if anything, and the files afterwards. -/
def run (s : Surroundings) (files : FileTree) : Option Trouble × FileTree :=
  match s.arguments with
  | [] => (some .usage, files)
  | source :: _ =>
    match Config.load files (Config.userFile s.home) with
    | .error why => (some (.failure none why), files)
    | .ok config =>
      match config.validate with
      | .error why => (some (.failure none why), files)
      | .ok () => transfer config source (outputDir s) files

end Loopback

end FileRelay
