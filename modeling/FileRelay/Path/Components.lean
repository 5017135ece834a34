import FileRelay.Bytes

/-!
# Path/Components — paths as rows of names

A **path** is a row of octets, divided by slashes into segments.  Empty segments and segments of
one dot say nothing, except a dot at the very beginning; what is left are the **components**: the
root, the current directory, parents and names.

`join` puts a path behind a directory, `parent?` takes the last component away, and `fileName?` and
`suffix?` look at it.
-/

namespace FileRelay

/-- A **path**. -/
abbrev Path := Bytes

namespace Path

def slash : UInt8 := 0x2F
def dot : UInt8 := 0x2E

/-- The segments between slashes, empty ones included. -/
def segments : Path → List Bytes
  | [] => [[]]
  | b :: p =>
    if b = slash then [] :: segments p
    else match segments p with
      | [] => [[b]]
      | s :: ss => (b :: s) :: ss

/-- What a path is made of. -/
inductive Component where
  | root
  | current
  | parent
  | name (octets : Bytes)
  deriving DecidableEq, Repr

/-- What a segment says after the beginning of a path. -/
def component? (s : Bytes) : Option Component :=
  if s = [] ∨ s = [dot] then none
  else if s = [dot, dot] then some .parent
  else some (.name s)

/-- Does a path begin at the root? -/
def isAbsolute (p : Path) : Bool := p.head? == some slash

/-- **The components of a path.** -/
def components (p : Path) : List Component :=
  let first := if p.isAbsolute then [.root] else if (segments p).head? = some [dot] then [.current]
    else []
  first ++ (segments p).filterMap component?

/-- **A path behind a directory**; an absolute path stays itself. -/
def join (dir p : Path) : Path :=
  if p.isAbsolute then p
  else if dir = [] ∨ dir.getLast? = some slash then dir ++ p
  else dir ++ slash :: p

/-- The octets that a component takes. -/
def Component.octets : Component → Bytes
  | root => [slash]
  | current => [dot]
  | parent => [dot, dot]
  | name s => s

/-- The path of some components. -/
def ofComponents : List Component → Path
  | [] => []
  | [c] => c.octets
  | .root :: cs => slash :: ofComponents cs
  | c :: cs => c.octets ++ slash :: ofComponents cs

/-- The path without its last component; there is none above the root and above nothing. -/
def parent? (p : Path) : Option Path :=
  match (components p).reverse with
  | [] | [.root] => none
  | _ :: cs => some (ofComponents cs.reverse)

/-- The last component, if it is a name. -/
def fileName? (p : Path) : Option Bytes :=
  match (components p).getLast? with
  | some (.name s) => some s
  | _ => none

/-- What follows the last dot of a name that does not begin with it. -/
def suffix? (name : Bytes) : Option Bytes :=
  let r := name.reverse
  match r.dropWhile (· ≠ dot) with
  | [] | [_] => none
  | _ :: _ => some (r.takeWhile (· ≠ dot)).reverse

/-- A path as a text. -/
def text (p : Path) : String := Bytes.lossyText p

end Path

end FileRelay
