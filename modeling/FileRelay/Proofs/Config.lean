import FileRelay.Config
import Mathlib.Tactic.Common

/-!
# Proofs/Config — what valid settings are

Settings are valid when parts have a size, the prefix of subjects is not empty and has no blanks,
the digest algorithm is known, and a reader waits for some time but no longer than the idle time
allows (`validate_eq_ok_iff`).
-/

namespace FileRelay.Config

variable {c : Config}

/-- **What settings that validate say.** -/
theorem validate_eq_ok_iff : c.validate = .ok () ↔ 0 < c.partSize.toNat ∧ c.partPrefix ≠ "" ∧
    (∀ ch ∈ c.partPrefix.toList, Text.isBlank ch = false) ∧ (∃ a, c.digest = .ok a) ∧
    0 < c.readTimeoutMs.toNat ∧ c.readTimeoutMs.toNat ≤ c.maxIdleMs.toNat := by
  have hzero : ∀ w : UInt64, w = 0 ↔ w.toNat = 0 := fun w => by
    rw [← UInt64.toNat_inj]; rfl
  unfold validate
  by_cases hs : c.partSize = 0
  · have := (hzero _).1 hs
    simp [hs]
  have hs' : 0 < c.partSize.toNat := Nat.pos_of_ne_zero fun h => hs ((hzero _).2 h)
  by_cases hp : (c.partPrefix.isEmpty || c.partPrefix.toList.any Text.isBlank) = true
  · simp only [hs, ↓reduceIte, hp, reduceCtorEq, false_iff]
    rintro ⟨-, hne, hblank, -⟩
    rcases Bool.or_eq_true_iff.1 hp with h | h
    · exact hne (by simpa using h)
    · obtain ⟨ch, hch, h⟩ := List.any_eq_true.1 h
      simp [hblank ch hch] at h
  have hp' : c.partPrefix ≠ "" ∧ ∀ ch ∈ c.partPrefix.toList, Text.isBlank ch = false := by
    simpa using hp
  rcases hd : c.digest with e | a
  · simp [hs, hp]
  by_cases hr : c.readTimeoutMs = 0
  · have := (hzero _).1 hr
    simp [hs, hp, hr]
  have hr' : 0 < c.readTimeoutMs.toNat := Nat.pos_of_ne_zero fun h => hr ((hzero _).2 h)
  simp only [hs, ↓reduceIte, hp, Bool.false_eq_true, hr, UInt64.lt_iff_toNat_lt]
  split
  · rename_i hshort
    simp only [reduceCtorEq, false_iff]
    rintro ⟨-, -, -, -, -, hle⟩
    omega
  · rename_i hlong
    simp only [true_iff]
    exact ⟨hs', hp'.1, hp'.2, ⟨a, rfl⟩, hr', Nat.le_of_not_lt hlong⟩

end FileRelay.Config
