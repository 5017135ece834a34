import FileRelay.Zstd.Writer
import Mathlib.Algebra.Group.Nat.Defs
import Mathlib.Tactic.Common

/-!
# Proofs/Zstd/RoundTrip — a content that was written as a frame is read back

Reading undoes writing block by block, as long as there is room (`blocks?_writeBlocks`), and a written
frame is one frame with nothing behind it.  So a content is read back when there is room for it, and
with an octet less it is not (`decode?_encode`).
-/

namespace FileRelay

/-- A number that fits so many octets is read back from them. -/
theorem Bytes.ofLittleEndian_littleEndian {width n : Nat} (h : n < 256 ^ width) :
    ofLittleEndian (littleEndian width n) = n := by
  induction width generalizing n with
  | zero =>
    rw [Nat.pow_zero] at h
    simp only [littleEndian, ofLittleEndian]
    omega
  | succ w ih =>
    have hquot : n / 256 < 256 ^ w := Nat.div_lt_of_lt_mul (by rwa [Nat.pow_succ, Nat.mul_comm] at h)
    simp only [littleEndian, ofLittleEndian, ih hquot, UInt8.toNat_ofNat']
    omega

namespace Zstd

variable {room most : Nat} {b s : Bytes}

/-! ## Blocks -/

/-- **The header of a block is read back.** -/
theorem BlockHeader.read?_blockHeader (last : Bool) {kind size : Nat} (hk : kind < 4)
    (hs : size ≤ blockLimit) (s : Bytes) :
    BlockHeader.read? (blockHeader last kind size ++ s) = some (⟨last, kind, size⟩, s) := by
  unfold blockLimit at hs
  have hlast : last.toNat < 2 := Bool.toNat_lt last
  have hfits : last.toNat + 2 * kind + 8 * size < 256 ^ 3 := by omega
  have hvalue := Bytes.ofLittleEndian_littleEndian hfits
  simp only [blockHeader, Bytes.littleEndian] at hvalue ⊢
  simp only [List.cons_append, List.nil_append, BlockHeader.read?, hvalue]
  have hodd : decide ((last.toNat + 2 * kind + 8 * size) % 2 = 1) = last := by
    cases last <;> simp <;> omega
  have hkind : (last.toNat + 2 * kind + 8 * size) / 2 % 4 = kind := by omega
  have hsize : (last.toNat + 2 * kind + 8 * size) / 8 = size := by omega
  rw [hodd, hkind, hsize]

/-- The progress of a frame after some octets more. -/
def Progress.after (p : Progress) (b : Bytes) : Progress := { p with out := p.out ++ b.toArray }

theorem Progress.append?_eq (p : Progress) (room : Nat) (b : Bytes) :
    p.append? room b = if p.out.size + b.length ≤ room then some (p.after b) else none := by
  unfold append?
  split
  · rw [if_neg (by omega)]
  · rw [if_pos (by omega)]
    rfl

/-- Octets in two pieces fit where they fit together. -/
theorem Progress.append?_append (p : Progress) (room : Nat) (a b : Bytes) :
    p.append? room (a ++ b) = (p.append? room a).bind fun p => p.append? room b := by
  have hsize : (p.after a).out.size = p.out.size + a.length := by simp [Progress.after]
  have hafter : (p.after a).after b = p.after (a ++ b) := by
    simp only [Progress.after, Array.append_assoc, List.append_toArray]
  rw [append?_eq, append?_eq, List.length_append]
  split
  · rw [if_pos (by omega), Option.bind_some, append?_eq, if_pos (by omega), hafter]
  · split
    · rw [Option.bind_some, append?_eq, if_neg (by omega)]
    · rfl

/-- A block of one repeated octet is a row of that octet. -/
theorem eq_replicate_of_repeatedOctet? {x : UInt8} (h : repeatedOctet? b = some x) :
    b = List.replicate b.length x := by
  rcases b with _ | ⟨y, b⟩
  · simp [repeatedOctet?] at h
  · simp only [repeatedOctet?] at h
    split at h
    · rename_i hall
      obtain rfl := Option.some.inj h
      refine List.eq_replicate_iff.2 ⟨rfl, fun z hz => ?_⟩
      rcases List.mem_cons.1 hz with rfl | hz
      · rfl
      · simpa using List.all_eq_true.1 hall z hz
    · simp at h

/-- **A block is read back**, if there is room for it. -/
theorem block?_writeBlock (room most : Nat) (last : Bool) (hb : b.length ≤ blockLimit)
    (p : Progress) (s : Bytes) :
    ∃ h s', BlockHeader.read? (writeBlock last b ++ s) = some (h, s') ∧ h.last = last ∧
      block? room most p h s' = (p.append? room b).map fun p => (p, s) := by
  unfold writeBlock
  split
  · rename_i x hx
    refine ⟨⟨last, 1, b.length⟩, x :: s, ?_, rfl, ?_⟩
    · rw [List.append_assoc, BlockHeader.read?_blockHeader last (by decide) hb]
      rfl
    · simp only [block?, Nat.one_ne_zero, ↓reduceIte, ← eq_replicate_of_repeatedOctet? hx]
      split
      · rw [Progress.append?, if_pos ‹_›, Option.map_none]
      · rfl
  · refine ⟨⟨last, 0, b.length⟩, b ++ s, ?_, rfl, ?_⟩
    · rw [List.append_assoc, BlockHeader.read?_blockHeader last (by decide) hb]
    · have hlength : ¬ (b ++ s).length < b.length := by
        rw [List.length_append]
        omega
      simp only [block?, ↓reduceIte, hlength, List.take_left, List.drop_left]

/-- **Blocks are read back** up to the last one, if there is room for all of them. -/
theorem blocks?_writeBlocks (room most : Nat) {k n : Nat} (hn : k < n)
    (hb : b.length ≤ (k + 1) * blockLimit) (p : Progress) (s : Bytes) :
    blocks? room most n p (writeBlocks k b ++ s) = (p.append? room b).map fun p => (p, s) := by
  induction k generalizing n p b with
  | zero =>
    obtain ⟨n, rfl⟩ : ∃ m, n = m + 1 := ⟨n - 1, by omega⟩
    obtain ⟨h, s', hread, hlast, hblock⟩ :=
      block?_writeBlock room most true (by rwa [Nat.zero_add, Nat.one_mul] at hb) p s
    rw [writeBlocks, blocks?, hread, Option.bind_some]
    simp only [hblock, hlast, ↓reduceIte, Option.bind_fun_some]
  | succ k ih =>
    obtain ⟨n, rfl⟩ : ∃ m, n = m + 1 := ⟨n - 1, by omega⟩
    obtain ⟨h, s', hread, hlast, hblock⟩ := block?_writeBlock room most false
      (List.length_take_le blockLimit b) p (writeBlocks k (b.drop blockLimit) ++ s)
    have hrest : (b.drop blockLimit).length ≤ (k + 1) * blockLimit := by
      rw [List.length_drop]
      rw [Nat.succ_mul] at hb
      omega
    rw [writeBlocks, blocks?, List.append_assoc, hread, Option.bind_some]
    simp only [hblock, hlast, Bool.false_eq_true, ↓reduceIte, Option.bind_map, Function.comp_def,
      ih (Nat.lt_of_succ_lt_succ hn) hrest]
    conv_rhs => rw [← List.take_append_drop blockLimit b, Progress.append?_append, Option.map_bind]
    rfl

theorem length_writeBlock (last : Bool) (b : Bytes) : 3 ≤ (writeBlock last b).length := by
  unfold writeBlock blockHeader
  split <;> simp

/-- There are at least as many octets as blocks. -/
theorem lt_length_writeBlocks (k : Nat) (b : Bytes) : k < (writeBlocks k b).length := by
  induction k generalizing b with
  | zero =>
    have := length_writeBlock true b
    rw [writeBlocks]
    omega
  | succ k ih =>
    have := length_writeBlock false (b.take blockLimit)
    have := ih (b.drop blockLimit)
    rw [writeBlocks, List.length_append]
    omega

/-! ## Frames -/

/-- The header of a frame that was written. -/
theorem FrameHeader.read?_written (s : Bytes) :
    FrameHeader.read? (0x00 :: 0x38 :: s) = some (⟨none, blockLimit, false⟩, s) := by
  have hwindow : windowSize 56 = blockLimit := by decide
  simp [FrameHeader.read?, number?, sizeOctets, dictionaryOctets, contentSize?,
    Bytes.ofLittleEndian, hwindow]

/-- A content fits the blocks that it is written in. -/
theorem length_le_blocks (content : Bytes) :
    content.length ≤ ((content.length - 1) / blockLimit + 1) * blockLimit := by
  have := Nat.lt_div_mul_add (a := content.length - 1) (b := blockLimit) (by decide)
  rw [Nat.succ_mul]
  omega

/-- **A frame that was written is read back**, if there is room for its content. -/
theorem frame?_written (room : Nat) (content : Bytes) :
    frame? room (0x00 :: 0x38 :: writeBlocks ((content.length - 1) / blockLimit) content)
      = if content.length ≤ room then some (content.toArray, []) else none := by
  have hblocks := blocks?_writeBlocks room blockLimit
    (n := (writeBlocks ((content.length - 1) / blockLimit) content).length + 3)
    (Nat.lt_add_right 3 (lt_length_writeBlocks _ content)) (length_le_blocks content) .start []
  have hstart : Progress.start.out.size + content.length = content.length := Nat.zero_add _
  rw [List.append_nil, Progress.append?_eq, hstart] at hblocks
  rw [frame?, FrameHeader.read?_written, Option.bind_some]
  simp only [List.length_cons, hblocks]
  split
  · simp [FrameHeader.confirm?, Progress.after, Progress.start]
  · rfl

/-- **A content is read back from its frame** exactly if there is room for it. -/
theorem decode?_encode (room : Nat) (content : Bytes) :
    decode? room (encode content) = if content.length ≤ room then some content else none := by
  have hlen : 4 ≤ (encode content).length := by simp [encode, writtenHeader, magic]
  have hframe := frame?_written room content
  obtain ⟨n, hn⟩ : ∃ n, (encode content).length = n + 1 := ⟨_, (Nat.sub_add_cancel (by omega)).symm⟩
  rw [decode?, hn, frames?]
  split at hframe <;> simp [encode, writtenHeader, magic, isSkippable, frames?, *]

/-- What begins neither like a frame nor like a skippable one is not read. -/
theorem decode?_of_first (room : Nat) {b : UInt8} (hmagic : b ≠ 0x28) (hskip : b.toNat / 16 ≠ 5)
    (s : Bytes) : decode? room (b :: s) = none := by
  have hfirst : (b :: s).take 4 ≠ magic := by simp [magic, hmagic]
  have hskippable : isSkippable ((b :: s).take 4) = false := by simp [isSkippable, hskip]
  rw [decode?, List.length_cons, frames?, hskippable, if_pos hfirst]
  simp

/-- The octets that a written frame begins with. -/
theorem encode_eq (content : Bytes) : ∃ s, encode content = 0x28 :: s :=
  ⟨_, rfl⟩

end Zstd

end FileRelay
