/-!
# Text/Letters — comparing texts without regard to the case of ASCII letters

Header keys, digest values and algorithm names are compared with the letters `A`–`Z` and `a`–`z`
taken as equal and every other character as itself.  No other alphabet is folded: the names this
library defines are ASCII.
-/

namespace FileRelay.Text

/-- A text with its ASCII letters in lower case. -/
def lowered (s : String) : String := String.ofList (s.toList.map Char.toLower)

/-- A text with its ASCII letters in upper case. -/
def raised (s : String) : String := String.ofList (s.toList.map Char.toUpper)

/-- **Equal up to the case of ASCII letters.** -/
def sameLetters (s t : String) : Bool := s.toList.map Char.toLower == t.toList.map Char.toLower

theorem sameLetters_iff {s t : String} :
    sameLetters s t = true ↔ s.toList.map Char.toLower = t.toList.map Char.toLower := by
  simp [sameLetters]

@[simp] theorem sameLetters_refl (s : String) : sameLetters s s = true := by simp [sameLetters]

theorem sameLetters_symm {s t : String} (h : sameLetters s t = true) : sameLetters t s = true := by
  rw [sameLetters_iff] at *; exact h.symm

theorem sameLetters_trans {s t u : String} (h : sameLetters s t = true)
    (h' : sameLetters t u = true) : sameLetters s u = true := by
  rw [sameLetters_iff] at *; exact h.trans h'

/-- An ASCII hexadecimal digit, of either case. -/
def isHexDigit (c : Char) : Bool :=
  c.isDigit || ('a' ≤ c && c ≤ 'f') || ('A' ≤ c && c ≤ 'F')

end FileRelay.Text
