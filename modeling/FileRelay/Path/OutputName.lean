import FileRelay.Fault
import FileRelay.Path.Components

/-!
# Path/OutputName — names under which a file may be written into a directory

A record may come from anyone, and its name becomes the name of a file.  It is accepted only if its
components are one name and nothing that leads elsewhere.
-/

namespace FileRelay.Path

/-- Is a component a name? -/
def Component.isName : Component → Bool
  | name _ => true
  | _ => false

/-- **May a file be written under this name?** -/
def checkOutputName (name : String) : Except NameFault Unit :=
  let path : Path := Bytes.ofText name
  let cs := components path
  if (Text.trim name.toList).isEmpty then .error .blank
  else if isAbsolute path then .error (.absolute name)
  else if cs.contains .parent then .error (.parent name)
  else if cs.countP Component.isName = 1 then .ok ()
  else .error (.notBare name)

end FileRelay.Path
