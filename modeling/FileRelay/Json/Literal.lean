import FileRelay.Bytes

/-!
# Json/Literal — string literals and numbers as they stand in a text

The body of a string literal is kept **as written**, escapes and all; `decode?` gives the text that
it stands for, if it stands for one.  A body that is never looked at need not stand for a text: a
half of a surrogate pair, or octets that are no UTF-8, are refused only by `decode?`.

`escape` writes a text as a body: the quote, the backslash and the controls below `0x20` are
escaped and every other character stands for itself.
-/

namespace FileRelay.Json

/-! ## Octets with a meaning -/

def quote : UInt8 := 0x22
def backslash : UInt8 := 0x5C
def letterU : UInt8 := 0x75

/-- A decimal digit. -/
def isDigit (b : UInt8) : Bool := 0x30 ≤ b && b ≤ 0x39

/-- The value of a hexadecimal digit of either case. -/
def hexValue? (b : UInt8) : Option Nat :=
  if isDigit b then some (b.toNat - 0x30)
  else if 0x61 ≤ b && b ≤ 0x66 then some (b.toNat - 0x61 + 10)
  else if 0x41 ≤ b && b ≤ 0x46 then some (b.toNat - 0x41 + 10)
  else none

/-- The octet that a letter after a backslash stands for. -/
def shortEscape? (b : UInt8) : Option UInt8 :=
  if b == quote || b == backslash || b == 0x2F then some b
  else if b == 0x62 then some 0x08
  else if b == 0x66 then some 0x0C
  else if b == 0x6E then some 0x0A
  else if b == 0x72 then some 0x0D
  else if b == 0x74 then some 0x09
  else none

/-! ## The extent of a string literal -/

/-- Where a reader stands inside a literal. -/
inductive Mode where
  | plain
  | escaped
  | hex (owed : Nat) (value : Nat)
  deriving DecidableEq

/-- The literal's next octet, the closing quote apart; `none` if it may not stand there. -/
def Mode.step : Mode → UInt8 → Option Mode
  | .plain, b => if b == backslash then some .escaped else if b < 0x20 then none else some .plain
  | .escaped, b =>
    if b == letterU then some (.hex 4 0)
    else if (shortEscape? b).isSome then some .plain else none
  | .hex owed value, b =>
    match hexValue? b with
    | none => none
    | some d => if owed ≤ 1 then some .plain else some (.hex (owed - 1) (value * 16 + d))

/-- **The body of a literal** up to its closing quote, and what follows the quote. -/
def body? : Mode → Bytes → Option (Bytes × Bytes)
  | _, [] => none
  | m, b :: rest =>
    if m = .plain ∧ b = quote then some ([], rest)
    else match m.step b with
      | none => none
      | some m' => (body? m' rest).map fun r => (b :: r.1, r.2)

/-! ## The text of a body -/

/-- A piece of a body: an octet of the text, or a unit written in hexadecimal. -/
inductive Piece where
  | octet (b : UInt8)
  | codeUnit (n : Nat)
  deriving DecidableEq

/-- The pieces of a body. -/
def pieces? : Mode → Bytes → Option (List Piece)
  | .plain, [] => some []
  | _, [] => none
  | .plain, b :: rest =>
    if b == backslash then pieces? .escaped rest else (pieces? .plain rest).map (.octet b :: ·)
  | .escaped, b :: rest =>
    if b == letterU then pieces? (.hex 4 0) rest
    else (shortEscape? b).bind fun c => (pieces? .plain rest).map (.octet c :: ·)
  | .hex owed value, b :: rest =>
    (hexValue? b).bind fun d =>
      if owed ≤ 1 then (pieces? .plain rest).map (.codeUnit (value * 16 + d) :: ·)
      else pieces? (.hex (owed - 1) (value * 16 + d)) rest

/-- The first half of a surrogate pair. -/
def isHighHalf (n : Nat) : Bool := 0xD800 ≤ n && n ≤ 0xDBFF

/-- The second half of a surrogate pair. -/
def isLowHalf (n : Nat) : Bool := 0xDC00 ≤ n && n ≤ 0xDFFF

/-- The UTF-8 octets of a code point. -/
def octetsOf (n : Nat) : Bytes := Bytes.ofText (String.singleton (Char.ofNat n))

/-- The octets of a row of pieces, after the first half of a pair or after none; a half without
its other half has no octets. -/
def join? : Option Nat → List Piece → Option Bytes
  | none, [] => some []
  | some _, [] => none
  | none, .octet b :: rest => (join? none rest).map (b :: ·)
  | none, .codeUnit n :: rest =>
    if isHighHalf n then join? (some n) rest
    else if isLowHalf n then none
    else (join? none rest).map (octetsOf n ++ ·)
  | some _, .octet _ :: _ => none
  | some high, .codeUnit n :: rest =>
    if isLowHalf n then
      (join? none rest).map (octetsOf (0x10000 + (high - 0xD800) * 0x400 + (n - 0xDC00)) ++ ·)
    else none

/-- **The text that a body stands for**, if it stands for one. -/
def decode? (body : Bytes) : Option String :=
  ((pieces? .plain body).bind (join? none)).bind Bytes.toText?

/-! ## Writing a text as a body -/

/-- The lower-case hexadecimal digit of a value below 16. -/
def hexOctet (n : UInt8) : UInt8 := if n < 10 then 0x30 + n else 0x57 + n

/-- One octet of a text as it stands in a body. -/
def escapeOctet (b : UInt8) : Bytes :=
  if b == quote then [backslash, quote]
  else if b == backslash then [backslash, backslash]
  else if b == 0x08 then [backslash, 0x62]
  else if b == 0x0C then [backslash, 0x66]
  else if b == 0x0A then [backslash, 0x6E]
  else if b == 0x0D then [backslash, 0x72]
  else if b == 0x09 then [backslash, 0x74]
  else if b < 0x20 then
    [backslash, letterU, 0x30, 0x30, hexOctet (b / 16), hexOctet (b % 16)]
  else [b]

/-- **A text as the body of a literal.** -/
def escape (s : String) : Bytes := (Bytes.ofText s).flatMap escapeOctet

end FileRelay.Json
