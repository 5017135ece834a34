import FileRelay.Proofs.Config
import FileRelay.Proofs.Record.Naming
import FileRelay.Proofs.Transfer.Accepted
import FileRelay.Proofs.Transfer.Labelling
import FileRelay.Proofs.Transfer.Publishing

/-!
# Proofs/Transfer/Cutting — a file cut into parts while it is read

An upload begins with a record for the length that its file had when it was looked at, and with a
reader for the length that it had when it was opened (`Upload.Begun`).  It cuts what it reads into
parts of one size, of which only the last may be shorter (`Upload.Cut`).  Whatever the two lengths
were: when what was read is as long as the record says, and comes in as many parts, then they are the
parts of the record (`Cut.parts`).
-/

namespace FileRelay

open Accepted (contents places)

namespace Upload

/-! ## The beginning -/

/-- **A plan of an upload**: the settings are valid, and the record is laid out for the length that
the file had. -/
structure Planned (p : UploadPlan) (config : Config) : Prop where
  same : p.config = config
  valid : config.validate = .ok ()
  algorithm : config.digest = .ok p.algorithm
  id : p.record.id ≠ ""
  partSize : p.record.partSize = config.partSize
  layout : layout p.record.length p.record.partSize = .ok (p.record.parts, p.record.lastPartSize)

/-- **An upload that has begun**: its record is laid out for the length that the file had when it was
looked at, its reader for the length that it had when it was opened, and nothing has been read. -/
structure Begun (u : Upload) (config : Config) : Prop where
  valid : config.validate = .ok ()
  subject : u.subject = partSubject config.partPrefix u.record.id
  algorithm : config.digest = .ok u.algorithm
  codec : u.codec = config.codec
  id : u.record.id ≠ ""
  layout : layout u.record.length u.record.partSize = .ok (u.record.parts, u.record.lastPartSize)
  reader : u.reader = ⟨u.record.partSize.toNat, u.reader.fileSize, 0, 0, false⟩
  fits : u.reader.fileSize < Word.limit
  digester : u.digester = .new u.algorithm
  sequences : u.sequences = none
  events : u.events = []

variable {config : Config} {path : Path} {options : UploadOptions} {x x' : Exchange}
  {u u₀ : Upload} {as : List Accepted}

/-- The identifier of a file is not empty. -/
theorem deriveId_ne_empty (name contentType : String) (length : UInt64)
    (date : Calendar.Instant) : FileRecord.deriveId name contentType length date ≠ "" := fun h => by
  have hlength := (FileRecord.deriveId_digits name contentType length date).1
  rw [h] at hlength
  exact absurd hlength (by decide)

/-- **The record of a file to upload** is laid out for the length of the file, and its identifier is
made from the name and the content type that it is to have. -/
theorem recordOf_ok {source : Source} {r : FileRecord} (h : recordOf config options source = .ok r) :
    r.length.toNat = source.length ∧ r.partSize = config.partSize ∧
      layout r.length r.partSize = .ok (r.parts, r.lastPartSize) ∧
      r.id = FileRecord.deriveId (options.name.getD source.name)
        (options.contentType.getD ((Source.contentType? source.path).getD Source.usualType))
        r.length source.modified := by
  unfold recordOf at h
  split at h
  · cases h
  rename_i length hword
  dsimp only at h
  split at h
  · cases h
  rename_i r hnew
  obtain rfl := (Except.ok.inj h).symm
  obtain ⟨hid, rfl, hsize, hlayout⟩ := FileRecord.new_ok hnew
  exact ⟨Word.ofNat?_eq_some_iff.1 hword, hsize, hsize ▸ hlayout, hid⟩

/-- What a look at a file finds, one thing after another. -/
theorem plan_ok {p : UploadPlan} (h : Upload.plan config path options x = .ok p) :
    p.config = config ∧ config.validate = .ok () ∧ Source.inspect x.files path = .ok p.source ∧
      config.digest = .ok p.algorithm ∧ recordOf config options p.source = .ok p.record := by
  simp only [Upload.plan, bind, Except.bind] at h
  split at h
  · simp at h
  rename_i hconfig
  split at h
  · simp at h
  split at h
  · simp at h
  rename_i source hsource
  split at h
  · simp at h
  rename_i algorithm halgorithm
  split at h
  · simp at h
  rename_i record hrecord
  obtain rfl := Except.ok.inj h
  exact ⟨rfl, hconfig, hsource, halgorithm, hrecord⟩

/-- **A look at a file** settles a plan. -/
theorem plan_planned {p : UploadPlan} (h : Upload.plan config path options x = .ok p) :
    Planned p config := by
  obtain ⟨hsame, hconfig, -, halgorithm, hrecord⟩ := plan_ok h
  obtain ⟨-, hsize, hlayout, hid⟩ := recordOf_ok hrecord
  exact ⟨hsame, hconfig, halgorithm, hid ▸ deriveId_ne_empty _ _ _ _, hsize, hlayout⟩

/-- A file is opened as long as it is then, whatever the plan says. -/
theorem openFile_ok {p : UploadPlan} {files : FileTree} (h : openFile p files = .ok u) :
    ∃ length, length < Word.limit ∧ u = of p length := by
  unfold openFile at h
  split at h
  · simp at h
  split at h
  · simp at h
  · rename_i length _
    exact ⟨length.toNat, Word.toNat_lt_limit _, (Except.ok.inj h).symm⟩

/-- **What is opened is an upload that has begun.** -/
theorem Planned.begun {p : UploadPlan} (hp : Planned p config) {files : FileTree}
    (h : openFile p files = .ok u) : u.Begun config ∧ u.record = p.record := by
  obtain ⟨length, hfits, rfl⟩ := openFile_ok h
  have hsize := (Config.validate_eq_ok_iff.1 hp.valid).1
  have hreader : ChunkReader.openAt length p.config.partSize.toNat
      = ⟨p.record.partSize.toNat, length, 0, 0, false⟩ := by
    rw [ChunkReader.openAt, hp.same, hp.partSize, if_neg (Nat.ne_of_gt hsize)]
  refine ⟨⟨hp.valid, ?_, hp.algorithm, ?_, hp.id, hp.layout, hreader, hfits, rfl, rfl, rfl⟩, rfl⟩
  · rw [← hp.same]
    rfl
  · rw [← hp.same]
    rfl

/-- An upload that has started had a plan, and its file was opened. -/
theorem start_ok (h : Upload.start config path options x = .ok u) :
    ∃ p, Upload.plan config path options x = .ok p ∧ openFile p x.files = .ok u := by
  rw [Upload.start] at h
  rcases hp : Upload.plan config path options x with e | p
  · simp [hp, bind, Except.bind] at h
  · exact ⟨p, rfl, by rwa [hp] at h⟩

/-- **What begins is an upload that has begun.** -/
theorem start_begun (h : Upload.start config path options x = .ok u) : u.Begun config := by
  obtain ⟨p, hp, ho⟩ := start_ok h
  exact ((plan_planned hp).begun ho).1

theorem Begun.tiled (h : u.Begun config) : u.record.Tiled := FileRecord.tiled_of_layout h.layout

/-! ## Moments of one upload -/

/-- **Two moments of one upload.** -/
structure Continues (u₀ u : Upload) : Prop where
  path : u.path = u₀.path
  subject : u.subject = u₀.subject
  algorithm : u.algorithm = u₀.algorithm
  codec : u.codec = u₀.codec
  record : u.record = u₀.record

theorem Continues.partOf_eq (h : u₀.Continues u) (c : Chunk) : u.partOf c = u₀.partOf c := by
  unfold partOf
  rw [h.algorithm, h.codec, h.record]

theorem Continues.messageOf_eq (h : u₀.Continues u) (c : Chunk) : u.messageOf c = u₀.messageOf c := by
  rw [messageOf, messageOf, h.subject, h.partOf_eq]

/-! ## Parts of what was read -/

/-- **A message that carries a chunk** behind `i` full ones. -/
structure Piece (u₀ : Upload) (i : Nat) (a : Accepted) : Prop where
  message : a.message = u₀.messageOf ⟨i + 1, i * u₀.record.partSize.toNat, a.content⟩
  whole : a.payload = a.message.payload
  nonempty : a.content ≠ []
  length_le : a.content.length ≤ u₀.record.partSize.toNat

/-- **What was read, cut into parts**: each message carries the chunk of its number, and only the last
chunk may be shorter than the part size. -/
structure Cut (u₀ : Upload) (as : List Accepted) : Prop where
  piece : ∀ (i : Nat) (a : Accepted), as[i]? = some a → u₀.Piece i a
  full : ∀ (i : Nat) (a : Accepted), as[i]? = some a → i + 1 < as.length →
    a.content.length = u₀.record.partSize.toNat

/-- Full chunks together are as long as their number says. -/
theorem length_contents_of_full {size : Nat} (h : ∀ a ∈ as, a.content.length = size) :
    (contents as).length = as.length * size := by
  rw [contents, List.length_flatMap, List.map_congr_left h, List.map_const', List.sum_replicate_nat]

/-- Chunks are not more than the octets of them. -/
theorem length_le_contents (h : ∀ a ∈ as, a.content ≠ []) : as.length ≤ (contents as).length := by
  induction as with
  | nil => exact Nat.zero_le _
  | cons a as ih =>
    have hpos := List.length_pos_iff.2 (h a List.mem_cons_self)
    have hrest := ih fun b hb => h b (List.mem_cons_of_mem a hb)
    simp only [contents, List.flatMap_cons, List.length_append, List.length_cons] at hrest ⊢
    omega

namespace Cut

variable {a : Accepted}

theorem nil (u₀ : Upload) : u₀.Cut [] := ⟨by simp, by simp⟩

/-- **One chunk more**, if all the others are full. -/
theorem append (h : u₀.Cut as) (hfull : ∀ a ∈ as, a.content.length = u₀.record.partSize.toNat)
    (ha : u₀.Piece as.length a) : u₀.Cut (as ++ [a]) where
  piece i b hb := by
    rcases Accepted.getElem?_concat hb with hb | ⟨rfl, rfl⟩
    · exact h.piece i b hb
    · exact ha
  full i b hb hi := by
    rw [List.length_append, List.length_singleton] at hi
    rw [List.getElem?_append_left (by omega)] at hb
    exact hfull b (List.mem_of_getElem? hb)

theorem whole (h : u₀.Cut as) : Accepted.Whole as := fun a ha => by
  obtain ⟨i, hi⟩ := List.getElem?_of_mem ha
  exact (h.piece i a hi).whole

/-- **The chunks before a chunk** are full. -/
theorem length_take (h : u₀.Cut as) {i : Nat} (hi : i < as.length) :
    (contents (as.take i)).length = i * u₀.record.partSize.toNat := by
  rw [length_contents_of_full fun b hb => ?_, List.length_take_of_le (Nat.le_of_lt hi)]
  obtain ⟨j, hj, hb⟩ := List.mem_take_iff_getElem.1 hb
  refine h.full j b (List.getElem?_eq_some_iff.2 ⟨?_, hb⟩) ?_ <;> omega

theorem length_le (h : u₀.Cut as) : as.length ≤ (contents as).length :=
  length_le_contents fun a ha => by
    obtain ⟨i, hi⟩ := List.getElem?_of_mem ha
    exact (h.piece i a hi).nonempty

/-- **Chunks as long as the record says, and as many,** have the lengths of the parts on record. -/
theorem length_eq_span (h : u₀.Cut as) (ht : u₀.record.Tiled)
    (hlength : (contents as).length = u₀.record.length.toNat)
    (hparts : as.length = u₀.record.parts.toNat) {i : Nat} (hi : as[i]? = some a) :
    a.content.length = u₀.record.span i := by
  obtain ⟨hlt, -⟩ := List.getElem?_eq_some_iff.1 hi
  unfold FileRecord.span
  split
  · rename_i hlast
    -- What the last chunk adds to the others is what the last part adds to the other parts.
    have hsplit : as = as.take i ++ [a] := by
      rw [← (List.getElem?_eq_some_iff.1 hi).2, List.take_append_getElem hlt,
        List.take_of_length_le (by omega)]
    have htotal := congrArg (fun as => (contents as).length) hsplit
    simp only [Accepted.contents_append, List.length_append, h.length_take hlt] at htotal
    have hfills := ht.fills
    rw [show u₀.record.parts.toNat - 1 = i by omega] at hfills
    omega
  · exact h.full i a hi (by omega)

/-- **They are the parts on record** wherever payloads are as long as a word can say. -/
theorem parts (h : u₀.Cut as) (ht : u₀.record.Tiled)
    (hlength : (contents as).length = u₀.record.length.toNat)
    (hparts : as.length = u₀.record.parts.toNat)
    (hsized : ∀ a ∈ as, a.message.payload.length < Word.limit) :
    Accepted.Parts u₀.record as := by
  intro i a ha
  have hpiece := h.piece i a ha
  obtain ⟨hlt, -⟩ := List.getElem?_eq_some_iff.1 ha
  have hpayload := hsized a (List.mem_of_getElem? ha)
  refine ⟨.inl hpiece.whole, ?_⟩
  rw [hpiece.whole]
  rw [hpiece.message] at hpayload ⊢
  exact contentAt?_partOf ht (by omega) rfl rfl (h.length_eq_span ht hlength hparts ha) hpayload

/-- **Damage to them shows** where they are encoded. -/
theorem contentAt?_flipped (h : u₀.Cut as) (ht : u₀.record.Tiled)
    (hparts : as.length = u₀.record.parts.toNat) (hcodec : u₀.codec ≠ none) (ha : a ∈ as) (n : Nat) :
    u₀.record.contentAt? n a.message.headers (Bytes.flipped a.message.payload) = none := by
  obtain ⟨i, hi⟩ := List.getElem?_of_mem ha
  obtain ⟨hlt, -⟩ := List.getElem?_eq_some_iff.1 hi
  have hword := Word.toNat_lt_limit u₀.record.parts
  rw [(h.piece i a hi).message]
  exact Upload.contentAt?_flipped ht (Nat.succ_pos i) (by simp only; omega) hcodec n

end Cut

end Upload

end FileRelay
