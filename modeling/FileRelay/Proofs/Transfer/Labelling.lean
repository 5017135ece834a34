import FileRelay.Proofs.Codec
import FileRelay.Proofs.Log.Polling
import FileRelay.Proofs.Part.Label
import FileRelay.Proofs.Transfer.Acceptance
import FileRelay.Transfer.Upload

/-!
# Proofs/Transfer/Labelling — what an upload publishes of a whole chunk is that part

The label that an upload makes for a chunk is read back from its headers, and its payload has the
chunk for its content.  So a chunk that is as long as the part of its number, and begins where that
part begins, travels as this part (`Upload.contentAt?_partOf`).  If it is encoded, then damage to its
payload shows, without a look at its digest (`Upload.contentAt?_flipped`).
-/

namespace FileRelay.Upload

variable {u : Upload} {c : Chunk} {k most : Nat}

/-- The label of a chunk is read back. -/
theorem ofHeaders_partOf (u : Upload) (hpos : 0 < c.number) (hlt : c.number < Word.limit) :
    Label.ofHeaders (u.partOf c).1.toHeaders = .ok (u.partOf c).1 := by
  have hne : UInt64.ofNat c.number ≠ 0 := fun h => by
    have := congrArg UInt64.toNat h
    rw [UInt64.toNat_ofNat_of_lt' hlt, UInt64.toNat_zero] at this
    omega
  refine Label.ofHeaders_toHeaders ?_ ?_ ?_
  all_goals unfold partOf; split
  · exact hne
  · exact hne
  · exact (Digest.Entry.regular_digest _ _).parse_text
  · exact (Digest.Entry.regular_digest _ _).parse_text
  · rfl
  · rfl

/-- **The payload of a chunk has the chunk for its content**, where all of it is expected. -/
theorem decodePayload_partOf_eq (u : Upload) (c : Chunk) (most : Nat) :
    decodePayload (u.partOf c).1.encoding most (u.partOf c).2
      = readBack (u.codec.map Codec.encoding) most c.data := by
  unfold partOf
  split
  all_goals rename_i hcodec; rw [hcodec]
  · rfl
  · exact decodePayload_encode _ most c.data

theorem decodePayload_partOf (u : Upload) (h : c.data.length ≤ most) :
    decodePayload (u.partOf c).1.encoding most (u.partOf c).2 = .ok c.data := by
  rw [decodePayload_partOf_eq, readBack_of_le _ h]

/-- The label of a chunk says how long its payload is. -/
theorem payloadLength_partOf (u : Upload) (h : (u.partOf c).2.length < Word.limit) :
    (u.partOf c).1.payloadLength.toNat = (u.partOf c).2.length := by
  unfold partOf at h ⊢
  split at h
  all_goals exact UInt64.toNat_ofNat_of_lt' h

/-- What else the label of a chunk says. -/
theorem label_partOf (u : Upload) (c : Chunk) : (u.partOf c).1.fileId = u.record.id ∧
    (u.partOf c).1.number = UInt64.ofNat c.number ∧ (u.partOf c).1.start = UInt64.ofNat c.start ∧
    (u.partOf c).1.length = UInt64.ofNat c.data.length ∧
    (u.partOf c).1.digest = ⟨u.algorithm.name, u.algorithm.hexDigest c.data⟩ := by
  unfold partOf
  split <;> exact ⟨rfl, rfl, rfl, rfl, rfl⟩

/-- **A chunk that is a whole part travels as this part.** -/
theorem contentAt?_partOf (ht : u.record.Tiled) (hk : k < u.record.parts.toNat)
    (hn : c.number = k + 1) (hs : c.start = k * u.record.partSize.toNat)
    (hd : c.data.length = u.record.span k) (hp : (u.partOf c).2.length < Word.limit) :
    u.record.contentAt? (k + 1) (u.partOf c).1.toHeaders (u.partOf c).2 = some c.data := by
  have hlt : c.number < Word.limit := by
    have := Word.toNat_lt_limit u.record.parts
    omega
  have hstart : c.start < Word.limit := by
    rw [hs]
    exact Nat.lt_trans (ht.mul_lt hk) (Word.toNat_lt_limit _)
  have hlength : c.data.length < Word.limit := by
    rw [hd, FileRecord.span]
    split <;> exact Word.toNat_lt_limit _
  obtain ⟨hid, hnumber, hstart', hlength', hdigest⟩ := u.label_partOf c
  have hnumber : (u.partOf c).1.number.toNat = k + 1 := by
    rw [hnumber, UInt64.toNat_ofNat_of_lt' hlt, hn]
  have hstart' : (u.partOf c).1.start.toNat = k * u.record.partSize.toNat := by
    rw [hstart', UInt64.toNat_ofNat_of_lt' hstart, hs]
  have hlength' : (u.partOf c).1.length.toNat = c.data.length := by
    rw [hlength', UInt64.toNat_ofNat_of_lt' hlength]
  refine (FileRecord.contentAt?_eq_some_iff ht).2
    ⟨_, u.ofHeaders_partOf (by omega) hlt, hnumber, ?_⟩
  obtain ⟨o, ho, hplace⟩ := ht.partStart?_eq (u.partOf c).1.number
  refine ⟨hid, ?_, ?_, u.payloadLength_partOf hp, u.decodePayload_partOf (by omega),
    hlength'.symm, u.algorithm, ?_, ?_⟩
  · rw [ho, (hplace _).2 ⟨by omega, by omega, by rw [hstart', hnumber, Nat.add_sub_cancel]⟩]
  · refine FileRecord.partLength?_eq_some_iff.2 ⟨by omega, by omega, ?_⟩
    rw [hlength', hd, hnumber, Nat.add_sub_cancel]
  · rw [hdigest]
    exact Digest.Algorithm.parse?_name _
  · rw [hdigest]
    simp [Digest.Entry.agrees]

/-- The payload of an encoded chunk has no content when it is damaged. -/
theorem decodePayload_flipped (u : Upload) (hcodec : u.codec ≠ none) (most : Nat) (content : Bytes) :
    decodePayload (u.partOf c).1.encoding most (Bytes.flipped (u.partOf c).2) ≠ .ok content := by
  obtain ⟨k, hk⟩ := Option.ne_none_iff_exists'.1 hcodec
  obtain ⟨b, rest, hpayload, hnone⟩ := decodePayload_of_encode k most c.data
  simp only [partOf, hk, hpayload]
  exact hnone content

/-- **Damage to an encoded chunk shows**: it is no part any more. -/
theorem contentAt?_flipped (ht : u.record.Tiled) (hpos : 0 < c.number) (hlt : c.number < Word.limit)
    (hcodec : u.codec ≠ none) (n : Nat) :
    u.record.contentAt? n (u.partOf c).1.toHeaders (Bytes.flipped (u.partOf c).2) = none := by
  refine Option.eq_none_iff_forall_ne_some.2 fun content h => ?_
  obtain ⟨l, hl, -, hd⟩ := (FileRecord.contentAt?_eq_some_iff ht).1 h
  obtain rfl := Except.ok.inj ((u.ofHeaders_partOf hpos hlt).symm.trans hl)
  exact u.decodePayload_flipped hcodec _ content hd.decoded

end FileRelay.Upload
