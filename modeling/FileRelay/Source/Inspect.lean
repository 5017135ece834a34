import FileRelay.Failure
import FileRelay.Path.FileTree
import FileRelay.Text.Letters

/-!
# Source/Inspect — what is known about a file before it is sent

A source must be a file that is not empty.  Its name is the last name of its path, its type is told
from what follows the last dot of that name, and its date is that of its last change.
-/

namespace FileRelay

/-- A file that can be sent. -/
structure Source where
  path : Path
  name : String
  length : Nat
  modified : Calendar.Instant
  deriving DecidableEq

namespace Source

/-- **Looks at a file.** -/
def inspect (t : FileTree) (p : Path) : Except Failure Source :=
  match t.stat p with
  | .error .notFound => .error (.sourceNotFound p.text)
  | .error e => .error (.io e)
  | .ok .dir => .error (.sourceNotFile p.text)
  | .ok (.file content modified) =>
    if content.isEmpty then .error (.emptySource p.text)
    else match Path.fileName? p with
      | none => .error (.sourceNotFile p.text)
      | some name => .ok ⟨p, Bytes.lossyText name, content.length, modified⟩

/-- The type of a file that is not told from its name. -/
def usualType : String := "application/octet-stream"

/-- The types by what follows the last dot. -/
def types : List (String × String) := [
  ("txt", "text/plain"), ("log", "text/plain"), ("csv", "text/csv"), ("html", "text/html"),
  ("htm", "text/html"), ("json", "application/json"), ("xml", "application/xml"),
  ("pdf", "application/pdf"), ("zip", "application/zip"), ("gz", "application/gzip"),
  ("tar", "application/x-tar"), ("zst", "application/zstd"), ("png", "image/png"),
  ("jpg", "image/jpeg"), ("jpeg", "image/jpeg"), ("webp", "image/webp"), ("gif", "image/gif"),
  ("ico", "image/x-icon"), ("mp3", "audio/mpeg"), ("mp4", "video/mp4")]

/-- **The type of a file by its path.** -/
def contentType? (p : Path) : Option String :=
  ((Path.fileName? p).bind Path.suffix?).bind fun s =>
    (Bytes.toText? s).bind fun t => types.lookup (Text.lowered t)

end Source

end FileRelay
