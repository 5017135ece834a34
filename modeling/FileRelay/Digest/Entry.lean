import FileRelay.Malformed
import FileRelay.Text.Blank
import FileRelay.Text.Letters

/-!
# Digest/Entry — a digest as it is written: `<algorithm>=<hexadecimal>`

An **entry** names an algorithm and gives a digest.  Entries match when they differ at most in the
case of letters; the spelling of the algorithm counts otherwise.
-/

namespace FileRelay.Digest

/-- A **digest entry**. -/
structure Entry where
  algorithm : String
  value : String
  deriving DecidableEq, Repr, Inhabited

namespace Entry

/-- The text of an entry. -/
def text (e : Entry) : String := e.algorithm ++ "=" ++ e.value

/-- Equal up to the case of letters. -/
def agrees (e f : Entry) : Bool :=
  Text.sameLetters e.algorithm f.algorithm && Text.sameLetters e.value f.value

/-- What is before the first equals sign and what is after it. -/
def splitAtEquals? : List Char → Option (List Char × List Char)
  | [] => none
  | c :: cs => if c = '=' then some ([], cs) else (splitAtEquals? cs).map fun r => (c :: r.1, r.2)

/-- **The entry that a text is**: two pieces, neither of them blank, the second of hexadecimal
digits. -/
def parse (s : String) : Except Malformed Entry :=
  match splitAtEquals? s.toList with
  | none => .error (.invalidDigest s)
  | some (a, v) =>
    let algorithm := Text.trim a
    let value := Text.trim v
    if algorithm.isEmpty || value.isEmpty || !value.all Text.isHexDigit then
      .error (.invalidDigest s)
    else .ok ⟨String.ofList algorithm, String.ofList value⟩

end Entry

end FileRelay.Digest
