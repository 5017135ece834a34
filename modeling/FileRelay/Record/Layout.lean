import FileRelay.Malformed
import FileRelay.Word

/-!
# Record/Layout — how a length is divided into parts

A file of a positive length is divided into parts of one positive size, of which the last may be
shorter.  `layout` gives the number of parts and the size of the last one; its two laws say that the
parts fill the length exactly (`layout_fills`) and that the last part is neither empty nor too long
(`layout_last_le`).
-/

namespace FileRelay

/-- The number of parts of a size that a length takes. -/
def partCount (length partSize : Nat) : Nat := (length + (partSize - 1)) / partSize

/-- What is left of a length for its last part. -/
def lastPartLength (length partSize : Nat) : Nat :=
  length - (partCount length partSize - 1) * partSize

/-- **The number of parts and the size of the last one.** -/
def layout (length partSize : UInt64) : Except Malformed (UInt64 × UInt64) :=
  if partSize = 0 then .error .zeroPartSize
  else if length = 0 then .error .emptyFile
  else .ok (UInt64.ofNat (partCount length.toNat partSize.toNat),
    UInt64.ofNat (lastPartLength length.toNat partSize.toNat))

/-- A positive length has a part. -/
theorem partCount_pos {length partSize : Nat} (hl : 0 < length) (hs : 0 < partSize) :
    0 < partCount length partSize :=
  Nat.div_pos (by omega) hs

/-- All parts but one are shorter than the length together. -/
theorem partCount_pred_mul_lt {length partSize : Nat} (hl : 0 < length) (hs : 0 < partSize) :
    (partCount length partSize - 1) * partSize < length := by
  have h := Nat.div_mul_le_self (length + (partSize - 1)) partSize
  have hpos := partCount_pos hl hs
  rw [Nat.sub_mul]
  unfold partCount at *
  omega

/-- **The parts fill the length exactly.** -/
theorem layout_fills {length partSize : Nat} (hl : 0 < length) (hs : 0 < partSize) :
    (partCount length partSize - 1) * partSize + lastPartLength length partSize = length := by
  have := partCount_pred_mul_lt hl hs
  unfold lastPartLength
  omega

/-- The last part is not longer than the others. -/
theorem layout_last_le {length partSize : Nat} (hl : 0 < length) (hs : 0 < partSize) :
    lastPartLength length partSize ≤ partSize := by
  have h : length + (partSize - 1) < (partCount length partSize + 1) * partSize := by
    have := Nat.lt_succ_self ((length + (partSize - 1)) / partSize)
    exact (Nat.div_lt_iff_lt_mul hs).1 this
  have hpos := partCount_pos hl hs
  have hf := layout_fills hl hs
  have hm : (partCount length partSize + 1) * partSize
      = (partCount length partSize - 1) * partSize + 2 * partSize := by
    rw [← Nat.add_mul]; congr 1; omega
  omega

end FileRelay
