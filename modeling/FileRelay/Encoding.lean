import FileRelay.Malformed
import FileRelay.Text.Blank
import FileRelay.Text.Letters

/-!
# Encoding — how the payload of a part may be encoded

A payload that is not the plain data of its part names its encoding.  One encoding is known.
-/

namespace FileRelay

/-- A **content encoding**. -/
inductive Encoding where
  | zstd
  deriving DecidableEq, Repr, Inhabited

namespace Encoding

/-- The name of an encoding. -/
def name : Encoding → String
  | zstd => "zstd"

/-- **The encoding that a text names**, in letters of either case between blanks. -/
def parse (s : String) : Except Malformed Encoding :=
  let n := Text.lowered (Text.trimmed s)
  if n = "zstd" then .ok zstd else .error (.unsupportedEncoding n)

end Encoding

end FileRelay
