import FileRelay.Loopback

/-!
# Main — the loopback command on the files of the machine

The files that the command looks at are read beforehand, and what it has written is written
afterwards; all that lies between is `Loopback.run`.
-/

namespace FileRelay.Loopback

/-- The time of a file's last change. -/
def instantOf (t : IO.FS.SystemTime) : Calendar.Instant :=
  (Calendar.Instant.of? t.sec t.nsec.toNat).getD default

/-- A file tree with what is at a path, if anything is. -/
def withPath (t : FileTree) (path : String) : IO FileTree := do
  let p : Path := Bytes.ofText path
  try
    let real ← IO.FS.realPath path
    let data ← real.metadata
    match data.type with
    | .dir => return (t.makeDirs p).toOption.getD t
    | .file =>
      let content ← IO.FS.readBinFile path
      return t.place p content.data.toList (instantOf data.modified)
    | _ => return t
  catch _ => return t

/-- Writes the files of a directory that were not there before. -/
def writeNew (before after : FileTree) (dir : Path) : IO Unit := do
  let old := before.list dir
  for e in after.list dir do
    match e.2 with
    | .file content _ =>
      if !old.contains e then
        IO.FS.createDirAll (Path.text dir)
        IO.FS.writeBinFile (Path.text (dir.join e.1)) ⟨content.toArray⟩
    | .dir => pure ()

/-- What the command finds around it. -/
def surroundings (arguments : List String) : IO Surroundings := do
  let home ← IO.getEnv "HOME"
  let temporary ← IO.getEnv "TMPDIR"
  return ⟨arguments, home, Bytes.ofText (temporary.getD "/tmp")⟩

/-- The files that the command looks at, in a tree whose top is the root. -/
def filesFor (s : Surroundings) : IO FileTree := do
  let here : Path := Bytes.ofText (← IO.currentDir).toString
  let top := FileTree.rooted (FileTree.steps here)
  let paths := s.arguments.take 1 ++
    [Path.text (Config.userFile s.home), Path.text (outputDir s)]
  paths.foldlM withPath ((top.makeDirs here).toOption.getD top)

end FileRelay.Loopback

open FileRelay Loopback

/-- **The loopback command**: it ends with one if anything goes wrong, and tells what. -/
def main (arguments : List String) : IO UInt32 := do
  let s ← surroundings arguments
  let files ← filesFor s
  let r := run s files
  writeNew files r.2 (outputDir s)
  match r.1 with
  | none => return 0
  | some trouble =>
    IO.eprint trouble.text
    return 1
