import FileRelay.Source.ChunkReader
import Mathlib.Tactic.Common

/-!
# Proofs/Source/ChunkReader — what a reader of a changing file gives

A reader **advances** by chunks that lie behind one another (`ChunkReader.Advances`).  A chunk that
is shorter than it was wanted leaves the reader before the end of the file, and then no other one
follows (`next_none`).
-/

namespace FileRelay.ChunkReader

variable {r r' : ChunkReader} {content : Bytes} {c : Chunk}

/-- How many octets the next chunk is to have. -/
def want (r : ChunkReader) : Nat := min r.remaining r.partSize

/-- **A reader that has given one chunk more.** -/
structure Advances (r : ChunkReader) (c : Chunk) (r' : ChunkReader) : Prop where
  fresh : r.exhausted = false
  before : r.offset < r.fileSize
  number : c.number = r.partsRead + 1
  start : c.start = r.offset
  nonempty : c.data ≠ []
  length_le : c.data.length ≤ r.want
  after : r' = { r with
    offset := r.offset + c.data.length, partsRead := r.partsRead + 1
    exhausted := decide (c.data.length < r.want) }

/-- **A reader that gives a chunk advances.** -/
theorem next_some (h : r.next content = (some c, r')) : r.Advances c r' := by
  unfold next at h
  split at h
  · simp at h
  rename_i hguard
  simp only [Bool.or_eq_true, decide_eq_true_eq, not_or, Nat.not_le, Bool.not_eq_true] at hguard
  obtain ⟨hfresh, hbefore⟩ := hguard
  dsimp only at h
  split at h
  · simp at h
  rename_i hne
  obtain ⟨hc, rfl⟩ := Prod.mk.inj h
  obtain rfl := (Option.some.inj hc).symm
  refine ⟨hfresh, hbefore, rfl, rfl, ?_, List.length_take_le _ _, rfl⟩
  simpa using hne

/-- **The chunk that a reader gives** is what the file has behind the others, as much as is wanted. -/
theorem data_of_next (h : r.next content = (some c, r')) :
    c.data = (content.drop r.offset).take r.want := by
  unfold next at h
  split at h
  · simp at h
  dsimp only at h
  split at h
  · simp at h
  · obtain ⟨hc, -⟩ := Prod.mk.inj h
    rw [← Option.some.inj hc]
    rfl

/-- **A reader that gives no chunk** is left as it was, or it has learnt that the file is shorter. -/
theorem next_none (h : r.next content = (none, r')) :
    r' = r ∨ (r' = { r with exhausted := true } ∧ r.offset < r.fileSize) := by
  unfold next at h
  split at h
  · obtain ⟨-, rfl⟩ := Prod.mk.inj h
    exact .inl rfl
  rename_i hguard
  simp only [Bool.or_eq_true, decide_eq_true_eq, not_or, Nat.not_le, Bool.not_eq_true] at hguard
  obtain ⟨hfresh, hbefore⟩ := hguard
  dsimp only at h
  split at h
  · obtain ⟨-, rfl⟩ := Prod.mk.inj h
    rcases hshort : decide (((content.drop r.offset).take (min r.remaining r.partSize)).length
      < min r.remaining r.partSize) with _ | _
    · refine .inl ?_
      rw [← hfresh]
    · exact .inr ⟨rfl, hbefore⟩
  · simp at h

/-- **A reader that gives nothing more**: it has read its length, or found the file shorter. -/
def Stopped (r : ChunkReader) : Prop := r.exhausted = true ∨ r.fileSize ≤ r.offset

theorem next_of_stopped (h : r.Stopped) (content : Bytes) : r.next content = (none, r) := by
  unfold next
  rw [if_pos (by simpa [Stopped] using h)]

theorem Stopped.of_next (hsize : 0 < r.partSize) (h : r.next content = (none, r')) :
    r'.Stopped := by
  by_cases hr : r.Stopped
  · rw [next_of_stopped hr] at h
    obtain ⟨-, rfl⟩ := Prod.mk.inj h
    exact hr
  obtain ⟨hfresh, hbefore⟩ : r.exhausted = false ∧ r.offset < r.fileSize := by
    simpa [Stopped] using hr
  have hwant : 0 < min r.remaining r.partSize := by
    unfold remaining
    omega
  unfold next at h
  rw [if_neg (by simpa [Stopped] using hr)] at h
  dsimp only at h
  split at h
  · rename_i hempty
    obtain ⟨-, rfl⟩ := Prod.mk.inj h
    rw [List.isEmpty_iff] at hempty
    exact .inl (by simpa [hempty] using hwant)
  · simp at h

end FileRelay.ChunkReader
