import FileRelay.Record.FileRecord
import Mathlib.Tactic.Common

/-!
# Proofs/Record/Tiling — the parts of a valid record fill its length

In a record that validates, every part but the last has the part size, and the parts lie behind one
another from zero to the length (`Tiled`).  The first `k` parts reach up to `reach k`
(`reach_succ`, `reach_parts`), so no place or length of a part outgrows a word.
-/

namespace FileRelay

theorem layout_eq_ok_iff {length partSize parts last : UInt64} :
    layout length partSize = .ok (parts, last) ↔ 0 < length.toNat ∧ 0 < partSize.toNat ∧
      parts.toNat = partCount length.toNat partSize.toNat ∧
      last.toNat = lastPartLength length.toNat partSize.toNat := by
  unfold layout
  have hzero : ∀ w : UInt64, w = 0 ↔ w.toNat = 0 := fun w => by
    rw [← UInt64.toNat_inj]; rfl
  by_cases hs : partSize = 0
  · have : partSize.toNat = 0 := (hzero _).1 hs
    simp [hs]
  by_cases hl : length = 0
  · have : length.toNat = 0 := (hzero _).1 hl
    simp [hs, hl]
  have hs' : 0 < partSize.toNat := Nat.pos_of_ne_zero fun h => hs ((hzero _).2 h)
  have hl' : 0 < length.toNat := Nat.pos_of_ne_zero fun h => hl ((hzero _).2 h)
  have hcount : partCount length.toNat partSize.toNat < 2 ^ 64 := by
    have h := partCount_pred_mul_lt hl' hs'
    have hle : partCount length.toNat partSize.toNat - 1
        ≤ (partCount length.toNat partSize.toNat - 1) * partSize.toNat :=
      Nat.le_mul_of_pos_right _ hs'
    have := length.toNat_lt
    omega
  have hlast : lastPartLength length.toNat partSize.toNat < 2 ^ 64 :=
    Nat.lt_of_le_of_lt (Nat.sub_le _ _) length.toNat_lt
  simp only [hs, hl, ↓reduceIte, Except.ok.injEq, Prod.mk.injEq, hl', hs', true_and]
  rw [← UInt64.toNat_inj, ← UInt64.toNat_inj, UInt64.toNat_ofNat_of_lt' hcount,
    UInt64.toNat_ofNat_of_lt' hlast]
  exact and_congr eq_comm eq_comm

namespace FileRecord

variable {r : FileRecord} {n : UInt64} {k : Nat}

/-- **The parts of a record fill its length**, and none of them is empty or too long. -/
structure Tiled (r : FileRecord) : Prop where
  parts_pos : 0 < r.parts.toNat
  fills : (r.parts.toNat - 1) * r.partSize.toNat + r.lastPartSize.toNat = r.length.toNat
  last_pos : 0 < r.lastPartSize.toNat
  last_le : r.lastPartSize.toNat ≤ r.partSize.toNat

theorem tiled_of_layout (h : layout r.length r.partSize = .ok (r.parts, r.lastPartSize)) :
    r.Tiled := by
  obtain ⟨hl, hs, hp, hlast⟩ := layout_eq_ok_iff.1 h
  have hfills := layout_fills hl hs
  rw [← hp, ← hlast] at hfills
  have hpred := partCount_pred_mul_lt hl hs
  rw [← hp] at hpred
  exact ⟨hp ▸ partCount_pos hl hs, hfills, by omega, hlast ▸ layout_last_le hl hs⟩

/-- **What a record that validates says.** -/
theorem validate_eq_ok_iff : r.validate = .ok () ↔ r.id ≠ "" ∧
    layout r.length r.partSize = .ok (r.parts, r.lastPartSize) ∧ r.firstSequence ≠ some 0 ∧
    (r.digestAlgorithm.isSome ↔ r.digestValue.isSome) := by
  unfold validate
  by_cases hid : r.id.isEmpty = true
  · have : r.id = "" := by simpa using hid
    simp [this]
  have hid' : r.id ≠ "" := by simpa using hid
  rw [if_neg hid]
  rcases hl : layout r.length r.partSize with e | ⟨parts, last⟩
  · simp
  by_cases hp : parts ≠ r.parts ∨ last ≠ r.lastPartSize
  · have hne : ¬ (parts = r.parts ∧ last = r.lastPartSize) := by tauto
    simp [hp, hne]
  have heq : parts = r.parts ∧ last = r.lastPartSize := by tauto
  obtain ⟨rfl, rfl⟩ := heq
  by_cases hf : r.firstSequence = some 0
  · simp [hf]
  by_cases hd : r.digestAlgorithm.isSome = r.digestValue.isSome
  · simp [hid', hf, hd]
  · have : ¬ (r.digestAlgorithm.isSome ↔ r.digestValue.isSome) := by
      rwa [Bool.eq_iff_iff] at hd
    simp [hf, hd, this]

theorem tiled_of_validate (h : r.validate = .ok ()) : r.Tiled :=
  tiled_of_layout (validate_eq_ok_iff.1 h).2.1

/-- The octets of the first `k` parts. -/
def reach (r : FileRecord) (k : Nat) : Nat := min (k * r.partSize.toNat) r.length.toNat

/-- The length of part `k + 1`. -/
def span (r : FileRecord) (k : Nat) : Nat :=
  if k + 1 = r.parts.toNat then r.lastPartSize.toNat else r.partSize.toNat

theorem reach_zero (r : FileRecord) : r.reach 0 = 0 := by simp [reach]

theorem reach_le_length (r : FileRecord) (k : Nat) : r.reach k ≤ r.length.toNat :=
  Nat.min_le_right _ _

theorem reach_lt_limit (r : FileRecord) (k : Nat) : r.reach k < Word.limit :=
  Nat.lt_of_le_of_lt (r.reach_le_length k) (Word.toNat_lt_limit _)

/-- A part that the record has is as long as its place says. -/
theorem partLength?_eq_some_iff {length : UInt64} :
    r.partLength? n = some length ↔
      0 < n.toNat ∧ n.toNat ≤ r.parts.toNat ∧ length.toNat = r.span (n.toNat - 1) := by
  have hzero : n = 0 ↔ n.toNat = 0 := by rw [← UInt64.toNat_inj]; rfl
  unfold partLength? span
  simp only [UInt64.lt_iff_toNat_lt, hzero, ← UInt64.toNat_inj (a := n) (b := r.parts)]
  by_cases hn : n.toNat = 0 ∨ r.parts.toNat < n.toNat
  · simp only [hn, ↓reduceIte, reduceCtorEq, false_iff]
    omega
  · have hpos : n.toNat - 1 + 1 = n.toNat := by omega
    simp only [hn, ↓reduceIte, hpos]
    split <;> simp only [Option.some.injEq, ← UInt64.toNat_inj] <;> omega

namespace Tiled

/-- The parts before the last one have the part size and end before the length. -/
theorem mul_lt (h : r.Tiled) (hk : k < r.parts.toNat) :
    k * r.partSize.toNat < r.length.toNat := by
  have hle : k * r.partSize.toNat ≤ (r.parts.toNat - 1) * r.partSize.toNat :=
    Nat.mul_le_mul_right _ (by omega)
  have := h.fills
  have := h.last_pos
  omega

theorem length_le (h : r.Tiled) : r.length.toNat ≤ r.parts.toNat * r.partSize.toNat := by
  obtain ⟨p, hp⟩ : ∃ p, r.parts.toNat = p + 1 := ⟨r.parts.toNat - 1, by have := h.parts_pos; omega⟩
  have hf := h.fills
  have hl := h.last_le
  rw [hp] at hf ⊢
  rw [Nat.add_mul]
  simp only [Nat.add_sub_cancel] at hf
  omega

theorem reach_of_lt (h : r.Tiled) (hk : k < r.parts.toNat) :
    r.reach k = k * r.partSize.toNat :=
  Nat.min_eq_left (Nat.le_of_lt (h.mul_lt hk))

/-- **All parts together reach the length.** -/
theorem reach_parts (h : r.Tiled) : r.reach r.parts.toNat = r.length.toNat :=
  Nat.min_eq_right h.length_le

/-- **One part more reaches as much further as it is long.** -/
theorem reach_succ (h : r.Tiled) (hk : k < r.parts.toNat) :
    r.reach (k + 1) = r.reach k + r.span k := by
  rw [h.reach_of_lt hk, span]
  split
  · rename_i hlast
    rw [hlast, h.reach_parts, ← h.fills, ← hlast, Nat.add_sub_cancel]
  · rw [h.reach_of_lt (by omega), Nat.add_mul, Nat.one_mul]

/-- **Where a part of a tiled record begins**: behind the parts before it.  The place always fits a
word. -/
theorem partStart?_eq (h : r.Tiled) (n : UInt64) : ∃ o, r.partStart? n = some o ∧
    (∀ start, o = some start ↔ 0 < n.toNat ∧ n.toNat ≤ r.parts.toNat ∧
      start.toNat = (n.toNat - 1) * r.partSize.toNat) := by
  unfold partStart?
  rcases hl : r.partLength? n with _ | length
  · refine ⟨none, rfl, fun start => ?_⟩
    simp only [reduceCtorEq, false_iff]
    rintro ⟨hpos, hle, -⟩
    have hspan : r.span (n.toNat - 1) < 2 ^ 64 := by
      unfold span
      split <;> exact UInt64.toNat_lt _
    have hlength : r.partLength? n = some (UInt64.ofNat (r.span (n.toNat - 1))) :=
      partLength?_eq_some_iff.2 ⟨hpos, hle, UInt64.toNat_ofNat_of_lt' hspan⟩
    simp [hl] at hlength
  · obtain ⟨hpos, hle, -⟩ := partLength?_eq_some_iff.1 hl
    have hpred : (n - 1).toNat = n.toNat - 1 := by
      rw [UInt64.toNat_sub_of_le _ _ (by rw [UInt64.le_iff_toNat_le]; exact hpos)]
      rfl
    have hlt : (n - 1).toNat * r.partSize.toNat < Word.limit := by
      rw [hpred]
      exact Nat.lt_trans (h.mul_lt (by omega)) (Word.toNat_lt_limit _)
    obtain ⟨w, hw, hw'⟩ := Word.ofNat?_of_lt hlt
    refine ⟨some w, by simp only [Word.mul?, hw, Option.map_some], fun start => ?_⟩
    rw [Option.some.injEq, ← UInt64.toNat_inj, hw', hpred]
    simp only [hpos, hle, true_and]
    exact eq_comm

end Tiled

end FileRecord

end FileRelay
