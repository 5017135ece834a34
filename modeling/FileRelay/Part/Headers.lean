import FileRelay.KeyMap
import FileRelay.Text.Letters
import FileRelay.Json.Fields

/-!
# Part/Headers — the headers of a message

A message carries **headers**: texts under keys.  A transport may change the case of a key's
letters on the way, so a look-up takes the key as it is given if it is there, and otherwise the
first key, in order, that is equal to it up to case.
-/

namespace FileRelay

/-- The **headers** of a message. -/
abbrev Headers := KeyMap String

namespace Headers

/-- The value of the first of some entries whose key is the given one up to case. -/
def similar? (key : String) : List (String × String) → Option String
  | [] => none
  | e :: es => if Text.sameLetters e.1 key then some e.2 else similar? key es

/-- **The value of a header.** -/
def find? (h : Headers) (key : String) : Option String :=
  match KeyMap.get? h key with
  | some v => some v
  | none => similar? key h.entries

/-- The members of an object whose values are all texts. -/
def texts? : List (Bytes × Json.Value) → Option (List (String × String))
  | [] => some []
  | (key, v) :: ms =>
    (Json.decode? key).bind fun k => (Json.text? v).bind fun t => (texts? ms).map ((k, t) :: ·)

/-- The headers that a JSON object holds; of two members of one name the later counts. -/
def ofJson? (text : Bytes) : Option Headers :=
  (Json.parse? text).bind fun
    | .object ms => (texts? ms).map KeyMap.ofList
    | _ => none

/-- The headers as a JSON object. -/
def toJson (h : Headers) : Bytes :=
  Json.render (.object (h.entries.map fun e => Json.member e.1 (Json.ofText e.2)))

end Headers

end FileRelay
