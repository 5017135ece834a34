/-!
# Bytes — byte strings, their UTF-8 reading, their hexadecimal and big-endian writing

A **byte string** is a list of octets, so that files, payloads and stored records are data one can
recurse on.  The module fixes the four ways in which the rest of the library looks at one:

* `ofText` and `toText?` — UTF-8, strict: `toText?_ofText` says that a text is read back;
* `lossyText` — UTF-8 with one replacement character for each maximal ill-formed piece;
* `hexLower`, `hexUpper` — two digits for each octet;
* `bigEndian` — a natural number in a fixed number of octets, the most significant first.
-/

namespace FileRelay

/-- A **byte string**. -/
abbrev Bytes := List UInt8

namespace Bytes

/-! ## UTF-8 -/

/-- The UTF-8 octets of a text. -/
def ofText (s : String) : Bytes := s.toUTF8.data.toList

/-- The text whose UTF-8 octets these are, if they are well formed. -/
def toText? (b : Bytes) : Option String := String.fromUTF8? ⟨b.toArray⟩

/-- **A text is read back** from its octets. -/
theorem toText?_ofText (s : String) : toText? (ofText s) = some s := by
  have h : (⟨(ofText s).toArray⟩ : ByteArray) = s.toByteArray := by simp [ofText]
  unfold toText? String.fromUTF8?
  rw [h]
  simp only [s.isValidUTF8, ↓reduceDIte]
  rfl

/-! ## UTF-8 with replacements -/

/-- A character begun: its leading bits, the octets still owed, and the range of the next one. -/
structure Begun where
  bits : Nat
  owed : Nat
  low : UInt8
  high : UInt8

/-- What a first octet begins: a one-octet character, a longer one, or nothing. -/
def Begun.first (b : UInt8) : Option (Char ⊕ Begun) :=
  if b < 0x80 then some (.inl (Char.ofNat b.toNat))
  else if b < 0xC2 then none
  else if b < 0xE0 then some (.inr ⟨b.toNat - 0xC0, 1, 0x80, 0xBF⟩)
  else if b == 0xE0 then some (.inr ⟨0, 2, 0xA0, 0xBF⟩)
  else if b == 0xED then some (.inr ⟨0xD, 2, 0x80, 0x9F⟩)
  else if b < 0xF0 then some (.inr ⟨b.toNat - 0xE0, 2, 0x80, 0xBF⟩)
  else if b == 0xF0 then some (.inr ⟨0, 3, 0x90, 0xBF⟩)
  else if b < 0xF4 then some (.inr ⟨b.toNat - 0xF0, 3, 0x80, 0xBF⟩)
  else if b == 0xF4 then some (.inr ⟨4, 3, 0x80, 0x8F⟩)
  else none

/-- The replacement character. -/
def replacement : Char := Char.ofNat 0xFFFD

/-- Reads on with at most one character begun. -/
def lossyFrom : Option Begun → Bytes → List Char
  | none, [] => []
  | some _, [] => [replacement]
  | none, b :: rest =>
    match Begun.first b with
    | none => replacement :: lossyFrom none rest
    | some (.inl c) => c :: lossyFrom none rest
    | some (.inr p) => lossyFrom (some p) rest
  | some p, b :: rest =>
    if p.low ≤ b && b ≤ p.high then
      let bits := p.bits * 64 + (b.toNat - 0x80)
      if p.owed ≤ 1 then Char.ofNat bits :: lossyFrom none rest
      else lossyFrom (some ⟨bits, p.owed - 1, 0x80, 0xBF⟩) rest
    else
      match Begun.first b with
      | none => replacement :: replacement :: lossyFrom none rest
      | some (.inl c) => replacement :: c :: lossyFrom none rest
      | some (.inr q) => replacement :: lossyFrom (some q) rest

/-- The text of a byte string, with **one replacement character for each ill-formed piece**, a
piece being as long as it is the beginning of some character. -/
def lossyText (b : Bytes) : String := String.ofList (lossyFrom none b)

/-! ## Hexadecimal -/

/-- The digit of a value below 16, with `a` standing for ten. -/
def hexDigit (a : Char) (n : Nat) : Char :=
  if n < 10 then Char.ofNat (48 + n) else Char.ofNat (a.toNat + (n - 10))

/-- Two digits for each octet, the high half first. -/
def hexDigits (a : Char) (b : Bytes) : List Char :=
  b.flatMap fun x => [hexDigit a (x.toNat / 16), hexDigit a (x.toNat % 16)]

/-- Lower-case hexadecimal. -/
def hexLower (b : Bytes) : String := String.ofList (hexDigits 'a' b)

/-- Upper-case hexadecimal. -/
def hexUpper (b : Bytes) : String := String.ofList (hexDigits 'A' b)

theorem length_hexDigits (a : Char) (b : Bytes) : (hexDigits a b).length = 2 * b.length := by
  induction b with
  | nil => rfl
  | cons x b ih => simp only [hexDigits, List.flatMap_cons, List.length_append, List.length_cons,
      List.length_nil] at ih ⊢; omega

/-! ## Big-endian numbers -/

/-- The number in `width` octets, the most significant first; higher digits are left out. -/
def bigEndian : Nat → Nat → Bytes
  | 0, _ => []
  | width + 1, n => bigEndian width (n / 256) ++ [UInt8.ofNat n]

@[simp] theorem length_bigEndian (width n : Nat) : (bigEndian width n).length = width := by
  induction width generalizing n with
  | zero => rfl
  | succ w ih => simp [bigEndian, ih]

/-- The number whose octets these are, the most significant first. -/
def ofBigEndian (b : Bytes) : Nat := b.foldl (fun n x => n * 256 + x.toNat) 0

/-- The number whose octets these are, the least significant first. -/
def ofLittleEndian : Bytes → Nat
  | [] => 0
  | x :: b => x.toNat + 256 * ofLittleEndian b

/-- The number in `width` octets, the least significant first. -/
def littleEndian : Nat → Nat → Bytes
  | 0, _ => []
  | width + 1, n => UInt8.ofNat n :: littleEndian width (n / 256)

@[simp] theorem length_littleEndian (width n : Nat) : (littleEndian width n).length = width := by
  induction width generalizing n with
  | zero => rfl
  | succ w ih => simp [littleEndian, ih]

end Bytes

end FileRelay
