import FileRelay.Word

/-!
# Text/Decimal — numbers in decimal digits, written and read back

`digits` writes a natural number without leading zeros.  `word?` reads a 64-bit word: one plus sign
may come first, then at least one digit and nothing else.  The main statement, `word?_digits`, is
that what is written is read back.
-/

namespace FileRelay.Text.Decimal

/-- The decimal digits of a number, the first one not zero unless it is the only one. -/
def digits (n : Nat) : List Char := Nat.toDigits 10 n

/-- The number in decimal digits. -/
def text (n : Nat) : String := String.ofList (digits n)

/-- A 64-bit word in decimal digits. -/
def ofWord (a : UInt64) : String := text a.toNat

/-- The digits of a number, widened with zeros in front to at least `width` of them. -/
def padded (width n : Nat) : List Char :=
  List.replicate (width - (digits n).length) '0' ++ digits n

/-- The value of a row of digits, if it is one and not empty. -/
def value? (cs : List Char) : Option Nat :=
  if cs.isEmpty || !cs.all Char.isDigit then none else some (Nat.ofDigitChars 10 cs 0)

/-- A row of digits after at most one plus sign. -/
def unsigned : List Char → List Char
  | '+' :: cs => cs
  | cs => cs

/-- **The 64-bit word** that a text of digits names, with at most one plus sign in front. -/
def word? (cs : List Char) : Option UInt64 := (value? (unsigned cs)).bind Word.ofNat?

/-! ## Reading what was written -/

theorem isDigit_of_mem_digits {n : Nat} {c : Char} (h : c ∈ digits n) : c.isDigit = true :=
  Nat.isDigit_of_mem_toDigits (by decide) (by decide) h

theorem digits_ne_nil (n : Nat) : digits n ≠ [] := Nat.toDigits_ne_nil

theorem value?_digits (n : Nat) : value? (digits n) = some n := by
  have hall : ∀ c ∈ digits n, c.isDigit = true := fun _ => isDigit_of_mem_digits
  have hvalue : Nat.ofDigitChars 10 (digits n) 0 = n :=
    Nat.ofDigitChars_toDigits (by decide) (by decide)
  simpa [value?, digits_ne_nil, hvalue] using hall

theorem digits_injective {m n : Nat} (h : digits m = digits n) : m = n := by
  have := value?_digits m
  rw [h, value?_digits] at this
  exact (Option.some.inj this).symm

theorem unsigned_digits (n : Nat) : unsigned (digits n) = digits n := by
  unfold unsigned
  split
  · rename_i cs h
    have := isDigit_of_mem_digits (n := n) (c := '+') (by rw [h]; simp)
    simp [Char.isDigit] at this
  · rfl

/-- **A word is read back from its digits.** -/
theorem word?_digits (a : UInt64) : word? (digits a.toNat) = some a := by
  simp [word?, unsigned_digits, value?_digits, Word.ofNat?_toNat]

end FileRelay.Text.Decimal
