import FileRelay.Json.Value
import FileRelay.Text.Decimal

/-!
# Json/Fields — records of named fields, read from and written to JSON

A record is written as an object with its fields in a fixed order.  It is read from

* an object that names each known field at most once — members of other names are passed over —, or
* an array of the fields' values in order, which may stop early but not go on.

Either way the reader gets the **fields** that are there, and says of each one that is not whether
it may be left out.
-/

namespace FileRelay.Json

/-- The values of the known fields that a text gives, by name. -/
abbrev Fields := List (String × Value)

namespace Fields

/-- The members of an object under their decoded names; `none` if a name stands for no text. -/
def named? : List (Bytes × Value) → Option Fields
  | [] => some []
  | (key, v) :: ms => (decode? key).bind fun k => (named? ms).map ((k, v) :: ·)

/-- Is no name in the list twice? -/
def distinct : List String → Bool
  | [] => true
  | k :: ks => !ks.contains k && distinct ks

/-- **The known fields of a record.** -/
def ofValue? (known : List String) : Value → Option Fields
  | .object ms =>
    (named? ms).bind fun fs =>
      let here := fs.filter fun f => known.contains f.1
      if distinct (here.map Prod.fst) then some here else none
  | .array vs => if vs.length ≤ known.length then some (known.zip vs) else none
  | _ => none

/-- The value of a field. -/
def get? (fs : Fields) (name : String) : Option Value := fs.lookup name

/-- A field that must be there. -/
def required? {α : Type} (read : Value → Option α) (fs : Fields) (name : String) : Option α :=
  (fs.get? name).bind read

/-- A field with a value to take when it is not there. -/
def defaulted? {α : Type} (read : Value → Option α) (default : α) (fs : Fields) (name : String) :
    Option α :=
  match fs.get? name with
  | none => some default
  | some v => read v

/-- A field that may be null, and is null when it is not there. -/
def nullable? {α : Type} (read : Value → Option α) (fs : Fields) (name : String) :
    Option (Option α) :=
  match fs.get? name with
  | none | some .null => some none
  | some v => (read v).map some

end Fields

/-! ## The values of fields -/

/-- The text of a string. -/
def text? : Value → Option String
  | .string body => decode? body
  | _ => none

/-- The digits of a row of octets, as characters. -/
def asChars (b : Bytes) : List Char := b.map fun x => Char.ofNat x.toNat

/-- A whole number without sign, fraction or exponent. -/
def natural? : Value → Option Nat
  | .number lexeme => Text.Decimal.value? (asChars lexeme)
  | _ => none

/-- A 64-bit word. -/
def word? (v : Value) : Option UInt64 := (natural? v).bind Word.ofNat?

/-- A 32-bit word. -/
def halfWord? (v : Value) : Option UInt32 :=
  (natural? v).bind fun n => if n < UInt32.size then some (UInt32.ofNat n) else none

/-- A whole number with at most a minus sign; zero has none. -/
def integer? : Value → Option Int
  | .number (0x2D :: lexeme) =>
    (Text.Decimal.value? (asChars lexeme)).bind fun n => if n = 0 then none else some (-(n : Int))
  | v => (natural? v).map Int.ofNat

/-- A signed 32-bit number. -/
def signed? (v : Value) : Option Int32 :=
  (integer? v).bind fun n =>
    if Int32.minValue.toInt ≤ n ∧ n ≤ Int32.maxValue.toInt then some (Int32.ofInt n) else none

/-- **One of a fixed set of names**: the name as a string, or an object whose only member has the
name and the value null. -/
def choice? {α : Type} (choices : List (String × α)) : Value → Option α
  | .string body => (decode? body).bind fun k => List.lookup k choices
  | .object [(key, .null)] => (decode? key).bind fun k => List.lookup k choices
  | _ => none

/-! ## Writing fields -/

/-- A text as a value. -/
def ofText (s : String) : Value := .string (escape s)

/-- A natural number as a value. -/
def ofNat (n : Nat) : Value := .number ((Text.Decimal.digits n).map Char.toUInt8)

/-- An integer as a value. -/
def ofInt : Int → Value
  | .ofNat n => ofNat n
  | .negSucc n => .number (0x2D :: (Text.Decimal.digits (n + 1)).map Char.toUInt8)

/-- A field of a record to be written. -/
def member (name : String) (v : Value) : Bytes × Value := (escape name, v)

/-- A field that is left out when it has no value. -/
def memberIfSome {α : Type} (write : α → Value) (name : String) : Option α → List (Bytes × Value)
  | none => []
  | some a => [member name (write a)]

end FileRelay.Json
