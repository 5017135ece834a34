import FileRelay.Failure
import FileRelay.Part.Label
import FileRelay.Record.Text
import FileRelay.Transfer.Exchange

/-!
# Transfer/Catalogue — the records of a store

A file is looked up by its identifier (`fetch`) or by its name (`locate`).  Records that cannot be
read or have no digest are no use to a download: the first way refuses them, the second passes
over them.  Of several files of one name the one with the latest date counts, and of those of one
date the one whose key comes first.
-/

namespace FileRelay

namespace FileRecord

/-- The record in a text, if it is complete and of a file of this name. -/
def candidate? (name : String) (text : Bytes) : Option FileRecord :=
  match ofText text with
  | .ok r => if r.name = name && r.isComplete then some r else none
  | .error _ => none

/-- The later of two records, and of two of one date the first. -/
def later (best : Option FileRecord) (r : FileRecord) : Option FileRecord :=
  match best with
  | none => some r
  | some b => if b.date.before r.date then some r else some b

/-- **The latest complete record** of a name among some texts. -/
def latest? (name : String) (texts : List Bytes) : Option FileRecord :=
  (texts.filterMap (candidate? name)).foldl later none

/-- The complete record in the text that is stored for an identifier. -/
def complete (id : String) (text : Option Bytes) : Except Failure FileRecord :=
  match text with
  | none => .error (.fileNotFound id)
  | some text =>
    match ofText text with
    | .error why => .error (.record why)
    | .ok r => if r.isComplete then .ok r else .error (.uploadIncomplete id)

end FileRecord

namespace Exchange

/-- **The complete record of a file.** -/
def fetch (x : Exchange) (id : String) : Except Failure FileRecord × Exchange :=
  match x.get (recordKey id) with
  | (.error e, x) => (.error (.delivery e), x)
  | (.ok text, x) => (FileRecord.complete id text, x)

/-- **The latest complete record of a name.** -/
def locate (x : Exchange) (name : String) : Except Failure FileRecord × Exchange :=
  match x.keys with
  | (.error e, x) => (.error (.delivery e), x)
  | (.ok keys, x) =>
    match getAll keys x with
    | (.error e, x) => (.error (.delivery e), x)
    | (.ok texts, x) =>
      match FileRecord.latest? name texts with
      | some r => (.ok r, x)
      | none => (.error (.fileNotFound name), x)

end Exchange

end FileRelay
