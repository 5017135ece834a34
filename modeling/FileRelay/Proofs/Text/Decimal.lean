import FileRelay.Text.Blank
import FileRelay.Text.Decimal
import Mathlib.Algebra.Group.Nat.Defs
import Mathlib.Tactic.Common

/-!
# Proofs/Text/Decimal — the digits of numbers

Only zero begins with the digit zero (`head?_digits`).  A number that is widened with zeros keeps its
value (`value?_padded`), and its width if it has no more digits (`length_padded`).
-/

namespace FileRelay.Text

/-- A digit is not blank. -/
theorem isBlank_of_isDigit {c : Char} (h : c.isDigit = true) : isBlank c = false := by
  simp only [Char.isDigit, Bool.and_eq_true, decide_eq_true_eq] at h
  have hlow : 48 ≤ c.toNat := h.1
  have hhigh : c.toNat ≤ 57 := h.2
  simp only [isBlank, Bool.or_eq_false_iff, Bool.and_eq_false_iff, decide_eq_false_iff_not,
    beq_eq_false_iff_ne, ne_eq]
  omega

namespace Decimal

theorem isDigit_digits (n : Nat) : ∀ c ∈ digits n, c.isDigit = true := fun _ => isDigit_of_mem_digits

/-- **Only zero begins with the digit zero.** -/
theorem head?_digits {n : Nat} (h : (digits n).head? = some '0') : digits n = ['0'] := by
  have key : ∀ n : Nat, 0 < n → (digits n).head? ≠ some '0' := fun n => by
    induction n using Nat.strongRecOn with
    | ind n ih =>
      intro hpos
      rw [digits, Nat.toDigits_eq_if (by decide)]
      split
      · rename_i hlt
        rw [List.head?_cons]
        intro hzero
        have := Nat.digitChar_eq_zero.1 (Option.some.inj hzero)
        omega
      · rename_i hle
        have hquot : 0 < n / 10 := by omega
        have hne : Nat.toDigits 10 (n / 10) ≠ [] := Nat.toDigits_ne_nil
        rw [List.head?_append, List.head?_eq_some_head hne, Option.some_or,
          ← List.head?_eq_some_head hne]
        exact ih (n / 10) (by omega) hquot
  rcases Nat.eq_zero_or_pos n with rfl | hpos
  · exact Nat.toDigits_zero 10
  · exact absurd h (key n hpos)

theorem isDigit_padded (width n : Nat) : ∀ c ∈ padded width n, c.isDigit = true := fun c hc => by
  rcases List.mem_append.1 hc with hc | hc
  · rw [List.eq_of_mem_replicate hc]
    decide
  · exact isDigit_of_mem_digits hc

/-- A number that has no more digits is as wide as it is to be. -/
theorem length_padded {width n : Nat} (hw : 0 < width) (h : n < 10 ^ width) :
    (padded width n).length = width := by
  have hle : (digits n).length ≤ width := (Nat.length_toDigits_le_iff (by decide) hw).2 h
  rw [padded, List.length_append, List.length_replicate]
  omega

/-- **Zeros in front change no value.** -/
theorem value?_padded (width n : Nat) : value? (padded width n) = some n := by
  have hne : padded width n ≠ [] := fun h => digits_ne_nil n (List.append_eq_nil_iff.1 h).2
  have hall : (padded width n).all Char.isDigit = true := List.all_eq_true.2 (isDigit_padded width n)
  have hvalue : Nat.ofDigitChars 10 (padded width n) 0 = n := by
    rw [padded, Nat.ofDigitChars_append, Nat.ofDigitChars_replicate_zero, Nat.mul_zero]
    exact Nat.ofDigitChars_toDigits (by decide) (by decide)
  simp [value?, hne, hall, hvalue]

end Decimal

end FileRelay.Text
