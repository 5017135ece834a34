import FileRelay.Digest.Sha2
import FileRelay.Text.Blank
import FileRelay.Text.Letters

/-!
# Digest/Algorithm — the digest algorithms by name

Three algorithms are known.  A name is read without regard to blanks around it, hyphens, underscores
and the case of letters, so that an algorithm has many spellings and one proper name.
-/

namespace FileRelay.Digest

/-- A **digest algorithm**. -/
inductive Algorithm where
  | sha256
  | sha384
  | sha512
  deriving DecidableEq, Repr, Inhabited

namespace Algorithm

/-- The proper name. -/
def name : Algorithm → String
  | sha256 => "SHA-256"
  | sha384 => "SHA-384"
  | sha512 => "SHA-512"

/-- A name without what does not count in it. -/
def plain (s : String) : List Char :=
  ((Text.trim s.toList).filter fun c => c != '-' && c != '_').map Char.toUpper

/-- **The algorithm that a text names.** -/
def parse? (s : String) : Option Algorithm :=
  let p := plain s
  if p = ['S', 'H', 'A', '2', '5', '6'] then some sha256
  else if p = ['S', 'H', 'A', '3', '8', '4'] then some sha384
  else if p = ['S', 'H', 'A', '5', '1', '2'] then some sha512
  else none

/-- A proper name names its algorithm. -/
theorem parse?_name (a : Algorithm) : parse? a.name = some a := by
  cases a <;> decide

/-- The number of octets of a digest. -/
def digestOctets : Algorithm → Nat
  | sha256 => 32
  | sha384 => 48
  | sha512 => 64

/-- **The digest of a message.** -/
def digest : Algorithm → Bytes → Bytes
  | sha256, m => family32.digest first256 m
  | sha384, m => (family64.digest first384 m).take 48
  | sha512, m => family64.digest first512 m

/-- The digest of a message in upper-case hexadecimal. -/
def hexDigest (a : Algorithm) (m : Bytes) : String := Bytes.hexUpper (a.digest m)

end Algorithm

end FileRelay.Digest
