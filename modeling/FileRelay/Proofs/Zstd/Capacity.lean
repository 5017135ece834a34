import FileRelay.Zstd.Frame
import Mathlib.Tactic.Common

/-!
# Proofs/Zstd/Capacity — a content never has more octets than there is room for

A few octets can stand for very many, so every step that makes octets is held to the room: no
sequence repeats beyond it, and so no more is held on the way either (`runSequences?_size_le`); no
block goes beyond it whatever its kind (`block?_size_le`), and the frames of a row share it
(`frames?_length_le`).  Hence what is decoded fits, whatever it was decoded from
(`decode?_length_le`).
-/

namespace FileRelay.Zstd

variable {room most limit : Nat}

/-- **A sequence that is done** was within the limit. -/
theorem copy?_size {literals length distance : Nat} {lits : Bytes} {out : Array UInt8}
    {r : Bytes × Array UInt8} (h : copy? limit literals length distance lits out = some r) :
    r.2.size = out.size + literals + length ∧ r.2.size ≤ limit := by
  unfold copy? at h
  dsimp only at h
  split at h
  · simp at h
  rename_i hfits
  obtain rfl := Option.some.inj h
  have htaken := List.length_take_le literals lits
  simp only [size_repeatBack, Array.size_append, List.size_toArray]
  omega

/-- **Sequences keep a content within the limit**, before anything is put behind them. -/
theorem runSequences?_size_le {t : Tables} {n : Nat} {c : CodeStates} {bits : Bits}
    {made made' : Made} (h : runSequences? t limit n c bits made = some made')
    (hmade : made.out.size ≤ limit) : made'.out.size ≤ limit := by
  induction n generalizing c bits made with
  | zero =>
    rw [runSequences?] at h
    split at h
    · exact Option.some.inj h ▸ hmade
    · simp at h
  | succ n ih =>
    simp only [runSequences?, Option.bind_eq_some_iff] at h
    obtain ⟨s, -, d, -, r, hcopy, hrest⟩ := h
    have hr : r.2.size ≤ limit := (copy?_size hcopy).2
    split at hrest
    · exact ih hrest hr
    · obtain ⟨c', -, hrest⟩ := Option.bind_eq_some_iff.1 hrest
      exact ih hrest hr

namespace Progress

variable {p p' : Progress} {b s : Bytes} {l : Literals}

theorem append?_size_le (h : p.append? room b = some p') : p'.out.size ≤ room := by
  unfold append? at h
  split at h
  · simp at h
  · obtain rfl := Option.some.inj h
    simp only [Array.size_append, List.size_toArray]
    omega

/-- Where a block is held to its own greatest size, that is within the room. -/
theorem limit_le (p : Progress) (room most : Nat) (l : Literals) : p.limit room most l ≤ room := by
  unfold limit
  split
  · rename_i hfar
    simp only [Bool.and_eq_true, decide_eq_true_eq] at hfar
    omega
  · exact Nat.le_refl room

/-- **The sequences of a block** keep a content within the room. -/
theorem sequences?_size_le (h : p.sequences? room most l = some p') : p'.out.size ≤ room := by
  refine Nat.le_trans ?_ (p.limit_le room most l)
  unfold sequences? at h
  obtain ⟨n, -, h⟩ := Option.bind_eq_some_iff.1 h
  dsimp only at h
  split at h
  · split at h
    · exact append?_size_le h
    · simp at h
  split at h
  · simp at h
  simp only [Option.bind_eq_some_iff] at h
  -- the literals behind the last sequence come last, and they are held to the limit too
  obtain ⟨t, -, bits, -, c, -, made, -, h⟩ := h
  exact append?_size_le h

theorem compressed?_size_le (h : p.compressed? room most s = some p') : p'.out.size ≤ room := by
  unfold compressed? at h
  split at h
  · simp at h
  · obtain ⟨l, -, h⟩ := Option.bind_eq_some_iff.1 h
    exact sequences?_size_le h

end Progress

variable {p : Progress} {s : Bytes}

/-- **A block of any kind** keeps a content within the room. -/
theorem block?_size_le {h : BlockHeader} {r : Progress × Bytes}
    (hr : block? room most p h s = some r) : r.1.out.size ≤ room := by
  unfold block? at hr
  split at hr
  · split at hr
    · simp at hr
    · obtain ⟨p', hp, rfl⟩ := Option.map_eq_some_iff.1 hr
      exact Progress.append?_size_le hp
  split at hr
  · split at hr
    · simp at hr
    split at hr
    · simp at hr
    · obtain ⟨p', hp, rfl⟩ := Option.map_eq_some_iff.1 hr
      exact Progress.append?_size_le hp
  split at hr
  · split at hr
    · simp at hr
    · obtain ⟨p', hp, rfl⟩ := Option.map_eq_some_iff.1 hr
      exact Progress.compressed?_size_le hp
  · simp at hr

/-- **Blocks up to the last one** keep a content within the room. -/
theorem blocks?_size_le {n : Nat} {r : Progress × Bytes} (hr : blocks? room most n p s = some r) :
    r.1.out.size ≤ room := by
  induction n generalizing p s with
  | zero => simp [blocks?] at hr
  | succ n ih =>
    simp only [blocks?, Option.bind_eq_some_iff] at hr
    obtain ⟨h, -, r', hblock, hr⟩ := hr
    split at hr
    · obtain rfl := Option.some.inj hr
      exact block?_size_le hblock
    · exact ih hr

theorem frame?_size_le {f : Array UInt8 × Bytes} (hf : frame? room s = some f) :
    f.1.size ≤ room := by
  simp only [frame?, Option.bind_eq_some_iff, Option.map_eq_some_iff] at hf
  obtain ⟨h, -, r, hblocks, rest, -, rfl⟩ := hf
  exact blocks?_size_le hblocks

/-- **The frames of a row share the room.** -/
theorem frames?_length_le {n : Nat} {content : Bytes} (h : frames? n room s = some content) :
    content.length ≤ room := by
  induction n generalizing room s content with
  | zero => simp [frames?] at h
  | succ n ih =>
    rw [frames?] at h
    split at h
    · obtain rfl := Option.some.inj h
      exact Nat.zero_le room
    split at h
    · simp at h
    split at h
    · obtain ⟨rest, -, h⟩ := Option.bind_eq_some_iff.1 h
      exact ih h
    split at h
    · simp at h
    obtain ⟨f, hframe, h⟩ := Option.bind_eq_some_iff.1 h
    obtain ⟨rest, hrest, rfl⟩ := Option.map_eq_some_iff.1 h
    have hfirst := frame?_size_le hframe
    have hothers := ih hrest
    rw [List.length_append, Array.length_toList]
    omega

/-- **What is decoded fits the room**, whatever it is decoded from. -/
theorem decode?_length_le {content : Bytes} (h : decode? room s = some content) :
    content.length ≤ room :=
  frames?_length_le h

end FileRelay.Zstd
