import FileRelay.Bytes
import FileRelay.Fault
import FileRelay.KeyMap

/-!
# Store — values under keys, with revisions

A **store** keeps one value under each key.  Every write takes the next revision of the whole store.
-/

namespace FileRelay

/-- The **store**: values with the revisions of their writes, and the last revision. -/
structure Store where
  entries : KeyMap (Bytes × Nat)
  lastRevision : Nat
  deriving DecidableEq

namespace Store

/-- A store without values. -/
def empty : Store := ⟨KeyMap.empty, 0⟩

instance : Inhabited Store := ⟨empty⟩

/-- **Writes a value** and gives its revision; a key is not empty. -/
def put (s : Store) (key : String) (value : Bytes) : Except DeliveryError (Nat × Store) :=
  if key.isEmpty then .error (.failed "empty key")
  else
    let revision := s.lastRevision + 1
    .ok (revision, ⟨s.entries.insert key (value, revision), revision⟩)

/-- The value of a key. -/
def get? (s : Store) (key : String) : Option Bytes := (s.entries.get? key).map Prod.fst

/-- The revision of the last write to a key. -/
def revision? (s : Store) (key : String) : Option Nat := (s.entries.get? key).map Prod.snd

/-- The keys in order. -/
def keys (s : Store) : List String := s.entries.keys

end Store

end FileRelay
