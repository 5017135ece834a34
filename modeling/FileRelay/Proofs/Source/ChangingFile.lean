import FileRelay.Proofs.Record.Tiling
import FileRelay.Proofs.Source.ChunkReader
import Mathlib.Algebra.GroupWithZero.Nat
import Mathlib.Data.List.Chain
import Mathlib.Data.List.Forall2
import Mathlib.Data.List.ReduceOption

/-!
# Proofs/Source/ChangingFile — what a reader gives of a file that others change between its calls

Whatever the file holds at each call, the answers are chunks that lie behind one another and then
nothing at all (`ChunkReader.reads`): what was read so far is kept by a call that gives a chunk
(`ReadSoFar.next_chunk`) and by one that gives none (`ReadSoFar.next_none`).  Only the last chunk can
be shorter than the others.  A file that stays as it is gives the parts of its layout
(`ChunkReader.reads_unchanged`).

The system reads an open file from a position of its own, and gives to one read as little as it
likes.  A buffer that is filled read by read holds what the file has at that position all the same
(`OpenFile.fill_eq`), and the position stays at the offset of the reader (`OpenFile.next_eq`).
-/

namespace FileRelay

/-! ## Chunks in a row -/

namespace Chunk

/-- How many octets chunks have together. -/
def total (chunks : List Chunk) : Nat := (chunks.map fun c => c.data.length).sum

theorem total_append (chunks : List Chunk) (c : Chunk) :
    total (chunks ++ [c]) = total chunks + c.data.length := by
  simp [total]

/-- **A chunk that a call took from a file**: a piece of what the file held then. -/
structure TakenFrom (partSize : Nat) (c : Chunk) (content : Bytes) : Prop where
  nonempty : c.data ≠ []
  length_le : c.data.length ≤ partSize
  data : c.data = (content.drop c.start).take c.data.length
  inside : c.start + c.data.length ≤ content.length

end Chunk

namespace ChunkReader

/-- What calls answer, one after another, the file having these contents. -/
def answers (r : ChunkReader) : List Bytes → List (Option Chunk)
  | [] => []
  | content :: contents => (r.next content).1 :: (r.next content).2.answers contents

/-- What calls leave. -/
def after (r : ChunkReader) (contents : List Bytes) : ChunkReader :=
  contents.foldl (fun r content => (r.next content).2) r

variable {r r' : ChunkReader} {content : Bytes} {c : Chunk}

theorem after_append (r : ChunkReader) (contents : List Bytes) (content : Bytes) :
    r.after (contents ++ [content]) = ((r.after contents).next content).2 := by
  simp [after]

theorem answers_append (r : ChunkReader) (contents : List Bytes) (content : Bytes) :
    r.answers (contents ++ [content])
      = r.answers contents ++ [((r.after contents).next content).1] := by
  induction contents generalizing r with
  | nil => rfl
  | cons first contents ih =>
    rw [List.cons_append, answers, ih, answers]
    rfl

theorem takenFrom (h : r.next content = (some c, r')) : c.TakenFrom r.partSize content := by
  have hadv := next_some h
  have hdata := data_of_next h
  rw [← hadv.start] at hdata
  have hlength := congrArg List.length hdata
  rw [List.length_take, List.length_drop] at hlength
  refine ⟨hadv.nonempty, Nat.le_trans hadv.length_le (Nat.min_le_right _ _), ?_, ?_⟩
  · have hprefix : c.data <+: content.drop c.start := by
      rw [hdata]
      exact List.take_prefix _ _
    exact List.prefix_iff_eq_take.1 hprefix
  · have := List.length_pos_iff.2 hadv.nonempty
    omega

end ChunkReader

/-- **What calls have read so far** of a file that was so long when it was opened: chunks that lie
behind one another. -/
structure ReadSoFar (fileSize partSize : Nat) (contents : List Bytes) (chunks : List Chunk)
    (r : ChunkReader) : Prop where
  length : r.fileSize = fileSize
  size : r.partSize = partSize
  offset : r.offset = Chunk.total chunks
  le : r.offset ≤ fileSize
  partsRead : r.partsRead = chunks.length
  number : chunks.map (·.number) = List.range' 1 chunks.length
  first : ∀ c ∈ chunks.head?, c.start = 0
  adjacent : chunks.IsChain fun a b => b.start = a.start + a.data.length
  last : ∀ c ∈ chunks.getLast?, c.start + c.data.length = r.offset
  /-- The calls that gave a chunk are the first ones. -/
  taken : List.Forall₂ (Chunk.TakenFrom partSize) chunks (contents.take chunks.length)
  full : ∀ c ∈ chunks.dropLast, c.data.length = partSize
  /-- A reader that goes on has had a whole chunk of each call. -/
  goesOn : ¬ r.Stopped → chunks.length = contents.length ∧ ∀ c ∈ chunks, c.data.length = partSize

namespace ReadSoFar

variable {fileSize partSize : Nat} {contents : List Bytes} {chunks : List Chunk}
  {r r' : ChunkReader} {c : Chunk} {content : Bytes}

theorem openAt (fileSize : Nat) (hsize : 0 < partSize) :
    ReadSoFar fileSize partSize [] [] (.openAt fileSize partSize) := by
  refine ⟨rfl, if_neg (by omega), rfl, Nat.zero_le _, rfl, rfl, ?_, .nil, ?_, .nil, ?_, ?_⟩ <;>
    simp

theorem count (h : ReadSoFar fileSize partSize contents chunks r) :
    chunks.length ≤ contents.length := by
  have := h.taken.length_eq
  rw [List.length_take] at this
  omega

/-- **A call that gives a chunk** adds it: the reader went on, so all chunks before are whole. -/
theorem next_chunk (h : ReadSoFar fileSize partSize contents chunks r)
    (hnext : r.next content = (some c, r')) :
    ReadSoFar fileSize partSize (contents ++ [content]) (chunks ++ [c]) r' := by
  have hadv := ChunkReader.next_some hnext
  have htaken := ChunkReader.takenFrom hnext
  obtain ⟨hcount, hwhole⟩ := h.goesOn (by simp [ChunkReader.Stopped, hadv.fresh, hadv.before])
  have hle := hadv.length_le
  have hwant : r.want = min (fileSize - r.offset) partSize := by
    rw [ChunkReader.want, ChunkReader.remaining, h.length, h.size]
  have hlength : (chunks ++ [c]).length = (contents ++ [content]).length := by simp [hcount]
  refine ⟨?_, ?_, ?_, ?_, ?_, ?_, ?_, ?_, ?_, ?_, ?_, fun hgoes => ⟨hlength, ?_⟩⟩
  · rw [hadv.after]
    exact h.length
  · rw [hadv.after]
    exact h.size
  · rw [hadv.after, Chunk.total_append, ← h.offset]
  · rw [hadv.after]
    have := h.le
    simp only
    omega
  · rw [hadv.after, List.length_append, ← h.partsRead]
    rfl
  · rw [List.map_append, h.number, List.length_append, List.length_singleton,
      List.range'_1_concat, List.map_singleton, hadv.number, h.partsRead, Nat.add_comm 1]
  · rcases chunks with _ | ⟨a, chunks⟩
    · simpa [hadv.start, Chunk.total] using h.offset
    · exact h.first
  · refine List.isChain_append.2 ⟨h.adjacent, .singleton c, fun a ha b hb => ?_⟩
    obtain rfl : c = b := by simpa using hb
    rw [h.last a ha, hadv.start]
  · simp [hadv.start, hadv.after]
  · rw [hlength, List.take_length, ← List.take_length (l := contents), ← hcount]
    exact List.rel_append h.taken (.cons (h.size ▸ htaken) .nil)
  · rwa [List.dropLast_concat]
  · -- a short chunk stops the reader, and so does one that ends where the file ended
    obtain ⟨hlong, hbefore⟩ : r.want ≤ c.data.length ∧ r.offset + c.data.length < fileSize := by
      simpa [ChunkReader.Stopped, hadv.after, h.length] using hgoes
    intro a ha
    obtain ha | rfl := by simpa using ha
    · exact hwhole a ha
    · omega

/-- **A call that gives no chunk** adds none. -/
theorem next_none (h : ReadSoFar fileSize partSize contents chunks r) (hsize : 0 < partSize)
    (hnext : r.next content = (none, r')) :
    ReadSoFar fileSize partSize (contents ++ [content]) chunks r' := by
  have hstopped := ChunkReader.Stopped.of_next (h.size ▸ hsize) hnext
  have htaken : (contents ++ [content]).take chunks.length = contents.take chunks.length :=
    List.take_append_of_le_length h.count
  obtain rfl | ⟨rfl, -⟩ := ChunkReader.next_none hnext <;>
    exact ⟨h.length, h.size, h.offset, h.le, h.partsRead, h.number, h.first, h.adjacent, h.last,
      htaken ▸ h.taken, h.full, fun hgoes => absurd hstopped hgoes⟩

end ReadSoFar

/-- **Whatever a file holds at each call**, the answers are chunks that are in a row, and then
nothing any more. -/
theorem ChunkReader.reads (fileSize : Nat) {partSize : Nat} (hsize : 0 < partSize)
    (contents : List Bytes) :
    ∃ chunks, (openAt fileSize partSize).answers contents
        = chunks.map some ++ List.replicate (contents.length - chunks.length) none ∧
      ReadSoFar fileSize partSize contents chunks ((openAt fileSize partSize).after contents) := by
  induction contents using List.reverseRecOn with
  | nil => exact ⟨[], rfl, .openAt fileSize hsize⟩
  | append_singleton contents content ih =>
    obtain ⟨chunks, hanswers, hread⟩ := ih
    rw [answers_append, after_append, hanswers]
    generalize (openAt fileSize partSize).after contents = r at hread ⊢
    rcases hnext : r.next content with ⟨_ | c, r'⟩
    · refine ⟨chunks, ?_, hread.next_none hsize hnext⟩
      rw [List.append_assoc, ← List.replicate_succ', List.length_append, List.length_singleton,
        Nat.succ_sub hread.count]
    · have hadv := next_some hnext
      have hcount := (hread.goesOn (by simp [Stopped, hadv.fresh, hadv.before])).1
      refine ⟨chunks ++ [c], ?_, hread.next_chunk hnext⟩
      simp [hcount]

/-! ## A file that stays as it is -/

/-- Only an empty length has no layout. -/
theorem length_of_layout_error {length partSize : UInt64} {e : Malformed}
    (hsize : 0 < partSize.toNat) (h : layout length partSize = .error e) : length = 0 := by
  have hne : partSize ≠ 0 := fun hzero => by
    rw [hzero] at hsize
    exact absurd hsize (Nat.lt_irrefl _)
  rw [layout, if_neg hne] at h
  split at h
  · assumption
  · simp at h

/-- The parts of a layout are those that begin before the end. -/
theorem lt_partCount_iff {length partSize k : Nat} (hsize : 0 < partSize) :
    k < partCount length partSize ↔ k * partSize < length := by
  rw [partCount, ← Nat.succ_le_iff, Nat.le_div_iff_mul_le hsize, Nat.succ_mul]
  omega

/-- **Part `k + 1` of a file** that is divided into parts of this size. -/
def Chunk.part (content : Bytes) (partSize k : Nat) : Chunk :=
  ⟨k + 1, k * partSize, (content.drop (k * partSize)).take partSize⟩

namespace ChunkReader

variable {r : ChunkReader} {content : Bytes} {partSize k : Nat}

/-- **A reader that finds as much as it wants** goes on behind it. -/
theorem next_of_want (hgoes : ¬ r.Stopped) (hsize : 0 < r.partSize)
    (hwant : r.offset + r.want ≤ content.length) :
    r.next content = (some ⟨r.partsRead + 1, r.offset, (content.drop r.offset).take r.want⟩,
      { r with offset := r.offset + r.want, partsRead := r.partsRead + 1 }) := by
  obtain ⟨hfresh, hbefore⟩ : r.exhausted = false ∧ r.offset < r.fileSize := by
    simpa [Stopped] using hgoes
  have hpos : 0 < r.want := by
    unfold want remaining
    omega
  have hlength : ((content.drop r.offset).take r.want).length = r.want := by
    rw [List.length_take, List.length_drop]
    omega
  have hne : ((content.drop r.offset).take r.want).isEmpty = false := by
    rw [List.isEmpty_eq_false_iff, ← List.length_pos_iff, hlength]
    exact hpos
  have hfold : min r.remaining r.partSize = r.want := rfl
  unfold next
  rw [if_neg (by simpa [Stopped] using hgoes)]
  simp only [hfold, hne, hlength, Nat.lt_irrefl, decide_false, hfresh, Bool.false_eq_true,
    ↓reduceIte]

/-- A reader that has read `k` parts of a file that stays as it is. -/
def behind (content : Bytes) (partSize k : Nat) : ChunkReader :=
  ⟨partSize, content.length, min (k * partSize) content.length,
    min k (partCount content.length partSize), false⟩

/-- **One part more**, if there is one. -/
theorem next_behind (hsize : 0 < partSize) :
    (behind content partSize k).next content
      = (if k < partCount content.length partSize then some (.part content partSize k) else none,
        behind content partSize (k + 1)) := by
  have hmul : (k + 1) * partSize = k * partSize + partSize := Nat.succ_mul ..
  by_cases hk : k < partCount content.length partSize
  · have hlt := (lt_partCount_iff hsize).1 hk
    have hoffset : (behind content partSize k).offset = k * partSize := Nat.min_eq_left hlt.le
    have hwant : (behind content partSize k).want
        = min (content.length - k * partSize) partSize := by
      rw [want, remaining, hoffset]
      rfl
    have hgoes : ¬ (behind content partSize k).Stopped := by
      rintro (hexhausted | hend)
      · cases hexhausted
      · exact absurd hlt (Nat.not_lt.2 (hoffset ▸ hend))
    have hpart : (content.drop (k * partSize)).take (min (content.length - k * partSize) partSize)
        = (content.drop (k * partSize)).take partSize := by
      rw [List.take_eq_take_iff, List.length_drop]
      omega
    rw [next_of_want hgoes hsize (by omega), if_pos hk, hoffset, hwant, hpart]
    simp only [behind, Chunk.part, Prod.mk.injEq, Option.some.injEq, Chunk.mk.injEq,
      ChunkReader.mk.injEq, true_and, and_true]
    omega
  · have hge : content.length ≤ k * partSize := Nat.not_lt.1 (mt (lt_partCount_iff hsize).2 hk)
    rw [next_of_stopped (.inr (Nat.le_min.2 ⟨hge, Nat.le_refl _⟩)), if_neg hk]
    simp only [behind, Prod.mk.injEq, ChunkReader.mk.injEq, true_and, and_true]
    omega

/-- **A file that stays as it is** gives its parts. -/
theorem reads_unchanged (hsize : 0 < partSize) (content : Bytes) (k : Nat) :
    (openAt content.length partSize).answers (List.replicate k content)
        = (List.range k).map (fun i =>
          if i < partCount content.length partSize then some (.part content partSize i) else none) ∧
      (openAt content.length partSize).after (List.replicate k content)
        = behind content partSize k := by
  induction k with
  | zero => simp [answers, after, openAt, behind, Nat.ne_of_gt hsize]
  | succ k ih =>
    rw [List.replicate_succ', answers_append, after_append, ih.1, ih.2, next_behind hsize,
      List.range_succ, List.map_append]
    exact ⟨rfl, rfl⟩

end ChunkReader

namespace Chunk

variable {content : Bytes} {partSize : Nat}

theorem reduceOption_padded (chunks : List Chunk) (k : Nat) :
    (chunks.map some ++ List.replicate k none).reduceOption = chunks := by
  rw [List.reduceOption_append, List.reduceOption_replicate_none, List.append_nil,
    List.reduceOption, List.filterMap_map]
  exact List.filterMap_some

/-- The parts that calls find are those that there are. -/
theorem reduceOption_parts (part : Nat → Chunk) (count k : Nat) :
    ((List.range k).map fun i => if i < count then some (part i) else none).reduceOption
      = (List.range (min k count)).map part := by
  induction k with
  | zero => simp
  | succ k ih =>
    rw [List.range_succ, List.map_append, List.reduceOption_append, ih, List.map_singleton]
    by_cases hk : k < count
    · rw [if_pos hk, List.reduceOption_singleton, Nat.min_eq_left hk.le,
        Nat.min_eq_left (Nat.succ_le_of_lt hk), List.range_succ, List.map_append]
      rfl
    · have hmin : min (k + 1) count = min k count := by omega
      rw [if_neg hk, List.reduceOption_singleton, hmin]
      exact List.append_nil _

/-- **Parts from the first on** are a beginning of the file. -/
theorem contents_parts (content : Bytes) (partSize k : Nat) :
    ((List.range k).map fun i => (part content partSize i).data).flatten
      = content.take (k * partSize) := by
  induction k with
  | zero => simp
  | succ k ih =>
    rw [List.range_succ, List.map_append, List.flatten_append, ih, Nat.succ_mul, List.take_add]
    simp [part]

/-- **All parts together** are the file. -/
theorem contents_parts_all (hsize : 0 < partSize) (content : Bytes) :
    ((List.range (partCount content.length partSize)).map fun i =>
      (part content partSize i).data).flatten = content := by
  have hend : content.length ≤ partCount content.length partSize * partSize :=
    Nat.not_lt.1 (mt (lt_partCount_iff hsize).2 (Nat.lt_irrefl _))
  rw [contents_parts, List.take_of_length_le hend]

/-- **A part is as long as its layout says.** -/
theorem length_part (hsize : 0 < partSize) {k : Nat} (hk : k < partCount content.length partSize) :
    (part content partSize k).data.length
      = if k + 1 = partCount content.length partSize then lastPartLength content.length partSize
        else partSize := by
  have hlt := (lt_partCount_iff hsize).1 hk
  have hmul : (k + 1) * partSize = k * partSize + partSize := Nat.succ_mul ..
  rw [part, List.length_take, List.length_drop]
  split
  · rename_i hlast
    have hend := mt (lt_partCount_iff hsize).2 (Nat.not_lt.2 hlast.ge)
    rw [lastPartLength, ← hlast, Nat.add_sub_cancel]
    omega
  · rename_i hlast
    have hnext : (k + 1) * partSize < content.length :=
      (lt_partCount_iff hsize).1 (Nat.lt_of_le_of_ne hk hlast)
    omega

end Chunk

/-- **The chunks of a file that stays as it is** are its parts, as many as there are calls for. -/
theorem ChunkReader.chunks_unchanged {partSize : Nat} (hsize : 0 < partSize) (content : Bytes)
    (k : Nat) : ((openAt content.length partSize).answers (List.replicate k content)).reduceOption
      = (List.range (min k (partCount content.length partSize))).map
          (Chunk.part content partSize) := by
  rw [(reads_unchanged hsize content k).1, Chunk.reduceOption_parts]

/-- **A file that stays as it is** gives its layout: nothing if it is empty, and otherwise its parts,
each as long as the layout says, which are the whole file once there have been calls enough. -/
theorem ChunkReader.unchanged_layout {fileSize size : UInt64} (hsize : 0 < size.toNat)
    {content : Bytes} (hlength : content.length = fileSize.toNat) (k : Nat) {chunks : List Chunk}
    (hchunks : chunks = ((openAt fileSize.toNat size.toNat).answers
      (List.replicate k content)).reduceOption) :
    match layout fileSize size with
    | .error _ => chunks = []
    | .ok (parts, last) =>
      chunks = (List.range (min k parts.toNat)).map (Chunk.part content size.toNat) ∧
      (∀ i < parts.toNat, (Chunk.part content size.toNat i).data.length
        = if i + 1 = parts.toNat then last.toNat else size.toNat) ∧
      (parts.toNat ≤ k → (chunks.map (·.data)).flatten = content) := by
  rw [← hlength, chunks_unchanged hsize] at hchunks
  rcases hlayout : layout fileSize size with e | ⟨parts, last⟩
  · obtain rfl := length_of_layout_error hsize hlayout
    rw [UInt64.toNat_zero] at hlength
    simpa [partCount, hlength, Nat.div_eq_of_lt (Nat.sub_lt hsize Nat.one_pos)] using hchunks
  · obtain ⟨-, -, hp, hl⟩ := layout_eq_ok_iff.1 hlayout
    dsimp only
    rw [hp, hl, ← hlength]
    refine ⟨hchunks, fun i hi => Chunk.length_part hsize hi, fun hall => ?_⟩
    rw [hchunks, Nat.min_eq_right hall, List.map_map]
    exact Chunk.contents_parts_all hsize content

/-! ## Reads of an open file -/

/-- **A call of a reader**: what the file holds at the time, and how much at most the system gives to
a read that wants so much. -/
structure ReadCall where
  content : Bytes
  grant : Nat → Nat

/-- **A reader with its open file**, of which the system keeps the position. -/
structure OpenFile where
  reader : ChunkReader
  position : Nat

namespace OpenFile

/-- **What one read gives**: an octet at least, and none only at the end of the file. -/
def read (call : ReadCall) (position want : Nat) : Bytes :=
  (call.content.drop position).take (min want (max 1 (call.grant want)))

/-- **What a buffer is filled with**, one read behind another until there is enough or no more. -/
def fill (call : ReadCall) (position want : Nat) : Bytes :=
  if want = 0 then []
  else if read call position want = [] then []
  else
    read call position want ++ fill call (position + (read call position want).length)
      (want - (read call position want).length)
termination_by want
decreasing_by
  have := List.length_pos_iff.2 ‹read call position want ≠ []›
  omega

/-- **How little the system gives to a read does not matter.** -/
theorem fill_eq (call : ReadCall) (position want : Nat) :
    fill call position want = (call.content.drop position).take want := by
  fun_induction fill call position want with
  | case1 position => simp
  | case2 position want hwant hempty =>
    obtain hzero | hend := List.take_eq_nil_iff.1 hempty
    · omega
    · simp [hend]
  | case3 position want hwant hne ih =>
    -- what was read is a beginning of what is wanted, and the rest is read behind it
    have hle : (read call position want).length ≤ want :=
      Nat.le_trans (List.length_take_le _ _) (Nat.min_le_left _ _)
    have hread : (call.content.drop position).take (read call position want).length
        = read call position want := (List.prefix_iff_eq_take.1 (List.take_prefix _ _)).symm
    rw [ih, ← List.drop_drop]
    conv_rhs => rw [← Nat.add_sub_cancel' hle, List.take_add, hread]

/-- **The next chunk of an open file**, if there is one, of what the reads fill a buffer with. -/
def next (f : OpenFile) (call : ReadCall) : Option Chunk × OpenFile :=
  let r := f.reader
  if r.exhausted || r.fileSize ≤ r.offset then (none, f)
  else
    let data := fill call f.position r.want
    let r := { r with exhausted := decide (data.length < r.want) }
    let position := f.position + data.length
    if data.isEmpty then (none, ⟨r, position⟩)
    else (some ⟨r.partsRead + 1, r.offset, data⟩,
      ⟨{ r with offset := r.offset + data.length, partsRead := r.partsRead + 1 }, position⟩)

/-- A file whose position is the offset of its reader. -/
def following (r : ChunkReader) : OpenFile := ⟨r, r.offset⟩

/-- **The position follows the reader**, which knows nothing of it. -/
theorem next_following (r : ChunkReader) (call : ReadCall) :
    (following r).next call
      = ((r.next call.content).1, following (r.next call.content).2) := by
  unfold next following ChunkReader.next
  dsimp only
  rw [fill_eq, ChunkReader.want]
  split
  · rfl
  split
  · rename_i hempty
    rw [List.isEmpty_iff] at hempty
    simp [hempty]
  · rfl

/-- What calls answer, one after another. -/
def answers (f : OpenFile) : List ReadCall → List (Option Chunk)
  | [] => []
  | call :: calls => (f.next call).1 :: (f.next call).2.answers calls

/-- What calls leave. -/
def after (f : OpenFile) (calls : List ReadCall) : OpenFile :=
  calls.foldl (fun f call => (f.next call).2) f

/-- **Calls on an open file** answer what the contents alone say. -/
theorem calls_following (r : ChunkReader) (calls : List ReadCall) :
    (following r).answers calls = r.answers (calls.map (·.content)) ∧
      (following r).after calls = following (r.after (calls.map (·.content))) := by
  induction calls generalizing r with
  | nil => exact ⟨rfl, rfl⟩
  | cons call calls ih =>
    have hnext := next_following r call
    obtain ⟨hanswers, hafter⟩ := ih (r.next call.content).2
    rw [answers, after, List.foldl_cons, ← after, hnext, hanswers, hafter]
    exact ⟨rfl, rfl⟩

end OpenFile

/-- The size that a reader takes its parts to be, in words, is never zero. -/
theorem ChunkReader.openAt_toNat (fileSize : Nat) (partSize : UInt64) :
    let size : UInt64 := if partSize = 0 then 65536 else partSize
    0 < size.toNat ∧ openAt fileSize partSize.toNat = openAt fileSize size.toNat := by
  intro size
  by_cases hzero : partSize = 0
  · subst hzero
    exact ⟨by decide, rfl⟩
  · have hsize : size = partSize := if_neg hzero
    rw [hsize]
    exact ⟨Nat.pos_of_ne_zero fun h => hzero (UInt64.toNat_inj.1 h), rfl⟩

/-- **A file that others change while it is read.**  Whatever it holds at each call, and however
little the system gives to each read, what the calls answer are chunks in a row and then nothing any
more.  A file that stays as it is gives the parts of its layout. -/
theorem OpenFile.reads_changing_file (fileSize partSize : UInt64) (calls : List ReadCall) :
    let opened := ChunkReader.openAt fileSize.toNat partSize.toNat
    let size : UInt64 := if partSize = 0 then 65536 else partSize
    let contents := calls.map (·.content)
    let r := opened.after contents
    let chunks := (opened.answers contents).reduceOption
    (following opened).answers calls = opened.answers contents ∧
      (following opened).after calls = following r ∧
      opened.answers contents
        = chunks.map some ++ List.replicate (calls.length - chunks.length) none ∧
      ReadSoFar fileSize.toNat size.toNat contents chunks r ∧
      r.offset + r.remaining = fileSize.toNat ∧
      ∀ content : Bytes, content.length = fileSize.toNat → (∀ b ∈ contents, b = content) →
        match layout fileSize size with
        | .error _ => chunks = []
        | .ok (parts, last) =>
          chunks = (List.range (min calls.length parts.toNat)).map (Chunk.part content size.toNat) ∧
          (∀ k < parts.toNat, (Chunk.part content size.toNat k).data.length
            = if k + 1 = parts.toNat then last.toNat else size.toNat) ∧
          (parts.toNat ≤ calls.length → (chunks.map (·.data)).flatten = content) := by
  intro opened size contents r chunks
  obtain ⟨hsize, hopened⟩ : 0 < size.toNat ∧ opened = .openAt fileSize.toNat size.toNat :=
    ChunkReader.openAt_toNat _ _
  obtain ⟨hcalls, hafter⟩ := calls_following opened calls
  obtain ⟨cs, hanswers, hread⟩ := ChunkReader.reads fileSize.toNat hsize contents
  rw [← hopened] at hanswers hread
  obtain rfl : chunks = cs := (congrArg _ hanswers).trans (Chunk.reduceOption_padded _ _)
  have hcount : contents.length = calls.length := List.length_map ..
  refine ⟨hcalls, hafter, hcount ▸ hanswers, hread, ?_, fun content hlength hsame => ?_⟩
  · rw [ChunkReader.remaining, show r.fileSize = fileSize.toNat from hread.length]
    exact Nat.add_sub_cancel' hread.le
  have hcontents : contents = List.replicate calls.length content :=
    List.eq_replicate_iff.2 ⟨hcount, hsame⟩
  exact ChunkReader.unchanged_layout hsize hlength calls.length (by rw [← hopened, ← hcontents])

/-- A file of five octets of which the last ones are cut off after the first call, and that is longer
than ever at the third; and one that stays as it is. -/
theorem OpenFile.reads_changing_file_of_five :
    (following (.openAt 5 2)).answers
        [⟨[1, 2, 3, 4, 5], fun _ => 1⟩, ⟨[1, 2, 9], fun _ => 1⟩, ⟨[1, 2, 9, 4, 5, 6], fun _ => 1⟩]
      = [some ⟨1, 0, [1, 2]⟩, some ⟨2, 2, [9]⟩, none] ∧
    ((ChunkReader.openAt 5 2).answers (List.replicate 3 [1, 2, 3, 4, 5])).reduceOption
      = [⟨1, 0, [1, 2]⟩, ⟨2, 2, [3, 4]⟩, ⟨3, 4, [5]⟩] := by
  have hlayout : layout 5 2 = .ok (3, 1) := by decide
  have hsame := (reads_changing_file 5 2 (List.replicate 3 ⟨[1, 2, 3, 4, 5], fun _ => 1⟩)).2.2.2.2.2
    [1, 2, 3, 4, 5] rfl (by decide)
  refine ⟨(reads_changing_file 5 2 _).1.trans (by decide), ?_⟩
  rw [if_neg (by decide), hlayout] at hsame
  exact hsame.1

end FileRelay
