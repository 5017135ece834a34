import FileRelay.Calendar.Instant
import FileRelay.Fault
import FileRelay.Path.Components

/-!
# Path/FileTree — the files below one directory

A file tree lists what is below a directory, its **top**: files with their content and the time of
their last change, and directories.  Either the top is where paths without a leading slash begin,
and above it and at the root there are directories of which nothing is known: they are there, but
no name in them is.  Or the top is the root, and paths without a leading slash begin somewhere
below it.

A path is followed segment by segment (`resolve`): every segment but the last must lead to a
directory, and a slash at the end asks for a directory too.
-/

namespace FileRelay

open FileRelay.Path

/-- What a name stands for. -/
inductive Entry where
  | file (content : Bytes) (modified : Calendar.Instant)
  | dir
  deriving DecidableEq

/-- Where a path leads: so many names below the top, or elsewhere. -/
inductive Place where
  | below (names : List Bytes)
  | elsewhere
  deriving DecidableEq

/-- The **files** below the top, by the names that lead to them. -/
structure FileTree where
  entries : List (List Bytes × Entry)
  /-- The names from the top to where relative paths begin, if the top is the root. -/
  here : Option (List Bytes)
  deriving DecidableEq

namespace FileTree

/-- Nothing but a top where relative paths begin. -/
def empty : FileTree := ⟨[], none⟩

/-- Nothing but the root, with relative paths beginning below it. -/
def rooted (here : List Bytes) : FileTree := ⟨[], some here⟩

instance : Inhabited FileTree := ⟨empty⟩

/-- The longest name and the longest path. -/
def nameLimit : Nat := 255
def pathLimit : Nat := 4095

/-- What is at a place. -/
def entry? (t : FileTree) : Place → Option Entry
  | .elsewhere => some .dir
  | .below [] => some .dir
  | .below ns => t.entries.lookup ns

/-- Puts an entry at some names. -/
def put (t : FileTree) (ns : List Bytes) (e : Entry) : FileTree :=
  { t with entries := t.entries.filter (fun x => x.1 ≠ ns) ++ [(ns, e)] }

/-- The place above another; the root is above itself. -/
def above (t : FileTree) : Place → Place
  | .elsewhere => .elsewhere
  | .below [] => if t.here.isSome then .below [] else .elsewhere
  | .below ns => .below ns.dropLast

/-- The place of a name in a directory, whether it is there or not. -/
def child (p : Place) (name : Bytes) : Except IoFault Place :=
  if nameLimit < name.length then .error .nameTooLong
  else match p with
    | .elsewhere => .error .notFound
    | .below ns => .ok (.below (ns ++ [name]))

/-- Is a directory there? -/
def requireDir (t : FileTree) (p : Place) : Except IoFault Unit :=
  match t.entry? p with
  | none => .error .notFound
  | some .dir => .ok ()
  | some (.file _ _) => .error .notADirectory

/-- One segment further. -/
def enter (t : FileTree) (p : Place) (segment : Bytes) : Except IoFault Place := do
  t.requireDir p
  if segment = [dot] then .ok p
  else if segment = [dot, dot] then .ok (t.above p)
  else
    let q ← child p segment
    if (t.entry? q).isSome then .ok q else .error .notFound

/-- The segments of a path that are not empty. -/
def steps (p : Path) : List Bytes := (segments p).filter (· ≠ [])

/-- Where a path begins. -/
def origin (t : FileTree) (p : Path) : Place :=
  match t.here with
  | none => if p.isAbsolute then .elsewhere else .below []
  | some ns => .below (if p.isAbsolute then [] else ns)

/-- Does a path end with a slash? -/
def endsOpen (p : Path) : Bool := p.getLast? == some slash

/-- Can there be such a path? -/
def checkPath (p : Path) : Except IoFault Unit :=
  if p.contains 0 then .error .nullInPath
  else if p.isEmpty then .error .notFound
  else if pathLimit < p.length then .error .nameTooLong
  else .ok ()

/-- **Where a path leads**, if something is there. -/
def resolve (t : FileTree) (p : Path) : Except IoFault Place := do
  checkPath p
  let place ← (steps p).foldlM t.enter (t.origin p)
  if endsOpen p then t.requireDir place
  .ok place

/-- What is at the end of a path. -/
def stat (t : FileTree) (p : Path) : Except IoFault Entry :=
  (t.resolve p).bind fun place =>
    match t.entry? place with
    | some e => .ok e
    | none => .error .notFound

/-- Is something at the end of a path? -/
def pathExists (t : FileTree) (p : Path) : Bool :=
  match t.stat p with
  | .ok _ => true
  | .error _ => false

/-- Is a directory at the end of a path? -/
def isDir (t : FileTree) (p : Path) : Bool :=
  match t.stat p with
  | .ok .dir => true
  | _ => false

/-- **The content of a file.** -/
def read (t : FileTree) (p : Path) : Except IoFault Bytes :=
  (t.stat p).bind fun
    | .file content _ => .ok content
    | .dir => .error .isADirectory

/-- Where the last segment of a path would be, when it is a name; `none` if it leads to a directory
that is there by its nature. -/
def target (t : FileTree) (p : Path) : Except IoFault (Option Place) := do
  checkPath p
  match (steps p).reverse with
  | [] => .ok none
  | last :: before =>
    let place ← before.reverse.foldlM t.enter (t.origin p)
    t.requireDir place
    if last = [dot] ∨ last = [dot, dot] then .ok none
    else (child place last).map some

/-- **Writes a file**, in place of the one that is there. -/
def write (t : FileTree) (p : Path) (content : Bytes) (modified : Calendar.Instant) :
    Except IoFault FileTree :=
  (t.target p).bind fun
    | none | some .elsewhere => .error .isADirectory
    | some (.below ns) =>
      if endsOpen p then .error .isADirectory
      else match t.entry? (.below ns) with
        | some .dir => .error .isADirectory
        | _ => .ok (t.put ns (.file content modified))

/-- Makes one directory. -/
def makeDir (t : FileTree) (p : Path) : Except IoFault FileTree :=
  (t.target p).bind fun
    | none | some .elsewhere => .error .alreadyExists
    | some (.below ns) =>
      if (t.entry? (.below ns)).isSome then .error .alreadyExists else .ok (t.put ns .dir)

/-- Makes a directory, or takes the one that is there. -/
def ensureDir (t : FileTree) (p : Path) : Except IoFault FileTree :=
  match t.makeDir p with
  | .ok t => .ok t
  | .error e => if t.isDir p then .ok t else .error e

/-- Makes a directory and those above it; the first argument bounds their number. -/
def makeDirsWithin : Nat → FileTree → Path → Except IoFault FileTree
  | 0, _, _ => .error .notFound
  | n + 1, t, p =>
    if p.isEmpty then .ok t
    else match t.ensureDir p with
      | .error .notFound =>
        match parent? p with
        | none => .error (.other "failed to create whole tree")
        | some q => (makeDirsWithin n t q).bind fun t => t.ensureDir p
      | r => r

/-- **Makes a directory and those above it.** -/
def makeDirs (t : FileTree) (p : Path) : Except IoFault FileTree :=
  makeDirsWithin (p.length + 1) t p

/-- **Puts a file at a path**, with the directories above it; nothing happens where none can be. -/
def place (t : FileTree) (p : Path) (content : Bytes) (modified : Calendar.Instant) : FileTree :=
  let dirs := match parent? p with
    | some d => t.makeDirs d
    | none => .ok t
  match dirs.bind fun t => t.write p content modified with
  | .ok t => t
  | .error _ => t

/-- A content cut off, or filled up with zeros. -/
def resized (n : Nat) (content : Bytes) : Bytes :=
  content.take n ++ List.replicate (n - content.length) 0

/-- A file with its content changed; nothing happens where no file is. -/
def change (t : FileTree) (p : Path) (f : Bytes → Bytes) : FileTree :=
  match t.resolve p with
  | .ok (.below ns) =>
    match t.entry? (.below ns) with
    | some (.file content modified) => t.put ns (.file (f content) modified)
    | _ => t
  | _ => t

/-- What is directly in a directory, by name. -/
def list (t : FileTree) (p : Path) : List (Bytes × Entry) :=
  match t.resolve p with
  | .ok (.below ns) =>
    t.entries.filterMap fun e =>
      match e.1.reverse with
      | last :: before => if before.reverse = ns then some (last, e.2) else none
      | [] => none
  | _ => []

end FileTree

end FileRelay
