import FileRelay.Digest.Digester
import FileRelay.Path.FileTree

/-!
# Digest/OfFile — the digest of a file

A file is not read at once: a digester absorbs it piece by piece, until a reading comes to nothing.
-/

namespace FileRelay

/-- The octets that are read of a file at once. -/
def Digest.pieceOctets : Nat := 8192

/-- A digester that has absorbed a content in pieces of so many octets, the last of which may be
shorter. -/
def Digest.Digester.absorbPieces (d : Digester) (content : Bytes) : Digester :=
  if content = [] then d
  else (d.absorb (content.take pieceOctets)).absorbPieces (content.drop pieceOctets)
  termination_by content.length
  decreasing_by
    have hpos := List.length_pos_iff.2 ‹content ≠ []›
    have hpiece : 0 < pieceOctets := by decide
    rw [List.length_drop]
    omega

/-- **The digest of a file** in upper-case hexadecimal. -/
def FileTree.digest (t : FileTree) (a : Digest.Algorithm) (p : Path) : Except ContentError String :=
  match t.read p with
  | .error e => .error (.io e)
  | .ok content => .ok ((Digest.Digester.new a).absorbPieces content).value.1

end FileRelay
