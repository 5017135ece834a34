import FileRelay.Json.Literal

/-!
# Json/Value — JSON texts as trees, read and written

A **value** is a JSON text without its blanks: numbers and the bodies of string literals stay as
they were written (`Json/Literal` says what they stand for), arrays and objects keep their order,
and an object may name a member twice.  `parse?` reads a text of octets, `render` writes one without
blanks, `renderLines` writes an object with one member on each line.

Nothing limits how deep a text may nest.
-/

namespace FileRelay.Json

/-- A JSON text without its blanks. -/
inductive Value where
  | null
  | bool (b : Bool)
  | number (lexeme : Bytes)
  | string (body : Bytes)
  | array (items : List Value)
  | object (members : List (Bytes × Value))

/-! ## Octets of the grammar -/

def comma : UInt8 := 0x2C
def colon : UInt8 := 0x3A
def openBracket : UInt8 := 0x5B
def closeBracket : UInt8 := 0x5D
def openBrace : UInt8 := 0x7B
def closeBrace : UInt8 := 0x7D

/-- The blanks between tokens: space, tab, line feed and carriage return. -/
def isSpace (b : UInt8) : Bool := b == 0x20 || b == 0x09 || b == 0x0A || b == 0x0D

/-- A text without the blanks at its beginning. -/
def skipSpace (s : Bytes) : Bytes := s.dropWhile isSpace

/-! ## Reading -/

/-- A text without a word at its beginning, if it begins with the word. -/
def afterWord? : Bytes → Bytes → Option Bytes
  | [], s => some s
  | _ :: _, [] => none
  | w :: word, b :: s => if w == b then afterWord? word s else none

/-- A row of at least one digit, and what follows it. -/
def digitRow? (s : Bytes) : Option (Bytes × Bytes) :=
  let ds := s.takeWhile isDigit
  if ds.isEmpty then none else some (ds, s.dropWhile isDigit)

/-- The digits of a whole part: no zero before another digit. -/
def wholePart? (s : Bytes) : Option (Bytes × Bytes) :=
  (digitRow? s).bind fun r =>
    if r.1.head? == some 0x30 && r.1.length != 1 then none else some r

/-- A fraction if a point follows, else nothing. -/
def fractionPart? : Bytes → Option (Bytes × Bytes)
  | [] => some ([], [])
  | b :: s => if b == 0x2E then (digitRow? s).map fun r => (b :: r.1, r.2) else some ([], b :: s)

/-- The sign of an exponent, if there is one, and its digits. -/
def signedDigits? : Bytes → Option (Bytes × Bytes)
  | [] => none
  | b :: s =>
    if b == 0x2B || b == 0x2D then (digitRow? s).map fun r => (b :: r.1, r.2)
    else digitRow? (b :: s)

/-- An exponent if a letter for one follows, else nothing. -/
def exponentPart? : Bytes → Option (Bytes × Bytes)
  | [] => some ([], [])
  | b :: s =>
    if b == 0x65 || b == 0x45 then (signedDigits? s).map fun r => (b :: r.1, r.2)
    else some ([], b :: s)

/-- A number without its sign. -/
def magnitude? (s : Bytes) : Option (Bytes × Bytes) :=
  (wholePart? s).bind fun w =>
    (fractionPart? w.2).bind fun f =>
      (exponentPart? f.2).map fun e => (w.1 ++ f.1 ++ e.1, e.2)

/-- **A number** as it was written, and what follows it. -/
def number? : Bytes → Option (Bytes × Bytes)
  | [] => none
  | b :: s => if b == 0x2D then (magnitude? s).map fun r => (b :: r.1, r.2) else magnitude? (b :: s)

/-- The words for null and the truth values. -/
def wordNull : Bytes := [0x6E, 0x75, 0x6C, 0x6C]
def wordTrue : Bytes := [0x74, 0x72, 0x75, 0x65]
def wordFalse : Bytes := [0x66, 0x61, 0x6C, 0x73, 0x65]

mutual

/-- The value that a text begins with, and what follows it.  The first argument bounds the number
of values; the length of the text is always enough. -/
def value? : Nat → Bytes → Option (Value × Bytes)
  | 0, _ => none
  | _ + 1, [] => none
  | n + 1, b :: s =>
    if b == quote then (body? .plain s).map fun r => (.string r.1, r.2)
    else if b == openBracket then
      match skipSpace s with
      | [] => none
      | c :: r =>
        if c == closeBracket then some (.array [], r)
        else (items? n (c :: r)).map fun r => (.array r.1, r.2)
    else if b == openBrace then
      match skipSpace s with
      | [] => none
      | c :: r =>
        if c == closeBrace then some (.object [], r)
        else (members? n (c :: r)).map fun r => (.object r.1, r.2)
    else if b == 0x6E then (afterWord? wordNull (b :: s)).map fun r => (.null, r)
    else if b == 0x74 then (afterWord? wordTrue (b :: s)).map fun r => (.bool true, r)
    else if b == 0x66 then (afterWord? wordFalse (b :: s)).map fun r => (.bool false, r)
    else (number? (b :: s)).map fun r => (.number r.1, r.2)

/-- The items of an array from its next one on, and what follows the closing bracket. -/
def items? : Nat → Bytes → Option (List Value × Bytes)
  | 0, _ => none
  | n + 1, s =>
    (value? n s).bind fun v =>
      match skipSpace v.2 with
      | [] => none
      | c :: r =>
        if c == comma then (items? n (skipSpace r)).map fun vs => (v.1 :: vs.1, vs.2)
        else if c == closeBracket then some ([v.1], r)
        else none

/-- The members of an object from its next one on, and what follows the closing brace. -/
def members? : Nat → Bytes → Option (List (Bytes × Value) × Bytes)
  | 0, _ => none
  | _ + 1, [] => none
  | n + 1, b :: s =>
    if b != quote then none
    else (body? .plain s).bind fun key =>
      match skipSpace key.2 with
      | [] => none
      | c :: r =>
        if c != colon then none
        else (value? n (skipSpace r)).bind fun v =>
          match skipSpace v.2 with
          | [] => none
          | d :: t =>
            if d == comma then
              (members? n (skipSpace t)).map fun ms => ((key.1, v.1) :: ms.1, ms.2)
            else if d == closeBrace then some ([(key.1, v.1)], t)
            else none

end

/-- **The value that a whole text is**, blanks at either end apart. -/
def parse? (s : Bytes) : Option Value :=
  (value? (s.length + 1) (skipSpace s)).bind fun r =>
    if (skipSpace r.2).isEmpty then some r.1 else none

/-! ## Writing -/

/-- A string literal with this body. -/
def literal (body : Bytes) : Bytes := quote :: (body ++ [quote])

mutual

/-- **A value as a text without blanks.** -/
def render : Value → Bytes
  | .null => wordNull
  | .bool true => wordTrue
  | .bool false => wordFalse
  | .number lexeme => lexeme
  | .string body => literal body
  | .array items => openBracket :: (renderItems items ++ [closeBracket])
  | .object members => openBrace :: (renderMembers members ++ [closeBrace])

/-- The items of an array between commas. -/
def renderItems : List Value → Bytes
  | [] => []
  | [v] => render v
  | v :: w :: vs => render v ++ comma :: renderItems (w :: vs)

/-- The members of an object between commas. -/
def renderMembers : List (Bytes × Value) → Bytes
  | [] => []
  | [(key, v)] => literal key ++ colon :: render v
  | (key, v) :: m :: ms => literal key ++ colon :: render v ++ comma :: renderMembers (m :: ms)

end

/-- One member on a line of its own, two spaces from the margin. -/
def renderLine (m : Bytes × Value) : Bytes :=
  [0x0A, 0x20, 0x20] ++ literal m.1 ++ [colon, 0x20] ++ render m.2

/-- **An object with one member on each line**; its members' own values stand on one line. -/
def renderLines : List (Bytes × Value) → Bytes
  | [] => [openBrace, closeBrace]
  | m :: ms =>
    openBrace :: (renderLine m ++ ms.flatMap (fun m => comma :: renderLine m) ++ [0x0A, closeBrace])

end FileRelay.Json
