import FileRelay.Proofs.Part.Transport
import FileRelay.Proofs.Transfer.Acceptance
import FileRelay.Proofs.Zstd.Capacity

/-!
# Proofs/Transfer/Decoding — how long the content of a payload can be

An encoded payload never has a content of more octets than are expected
(`decodePayload_length_le`).  A payload that is not encoded is its own content, however long it is,
so the limit holds for it only where it is short enough by itself; and where a part is checked, it
is, since its label has announced the length of its payload before (`decodePayload_limits`).
-/

namespace FileRelay

variable {most : Nat} {payload data : Bytes}

/-- **A codec makes no more octets than are expected**, whatever it is given. -/
theorem Codec.decode_length_le {k : Codec} (h : k.decode most payload = .ok data) :
    data.length ≤ most := by
  unfold decode at h
  split at h
  split at h
  · rename_i content hcontent
    exact Except.ok.inj h ▸ Zstd.decode?_length_le hcontent
  · simp at h

/-- **The content of an encoded payload** has no more octets than are expected. -/
theorem decodePayload_length_le {e : Encoding} (h : decodePayload (some e) most payload = .ok data) :
    data.length ≤ most :=
  Codec.decode_length_le (k := .new e Codec.usualLevel) h

/-- A part that is not encoded is as long as its payload, by what its label says. -/
theorem Label.payloadLength_eq {h : Headers} {l : Label} (hl : ofHeaders h = .ok l)
    (hplain : l.encoding = none) : l.payloadLength = l.length := by
  have htogether := (regular_of_ofHeaders hl).encoding
  rw [hplain, Option.isSome_none, Option.isSome_eq_false_iff, Option.isNone_iff_eq_none] at htogether
  rw [payloadLength, htogether, Option.getD_none]

/-- A part that is where the record says has the length that its label says. -/
theorem FileRecord.length_of_checkPlace {r : FileRecord} {l : Label} {n : UInt64}
    (h : r.checkPlace l = some (.ok n)) : l.length = n := by
  obtain ⟨start, -, hplace⟩ := Option.map_eq_some_iff.1 h
  split at hplace
  · split at hplace
    · simp at hplace
    split at hplace
    · simp at hplace
    · rename_i hlength
      exact (not_not.1 hlength).trans (Except.ok.inj hplace)
  · simp at hplace

/-- **The limit on the content of a payload.**  It holds for every encoded payload, well formed or
not.  It does not hold for one that is not encoded, which is its own content; so it holds for all
encodings exactly when the payload itself is within it.  A part check decodes within its limit all
the same: what comes that far has a label by which a payload that is not encoded is as long as the
part. -/
theorem decodePayload_limits (most : Nat) (payload : Bytes) :
    (∀ e data, decodePayload (some e) most payload = .ok data → data.length ≤ most) ∧
    (∀ data, decodePayload none most payload = .ok data ↔ data = payload) ∧
    ((∀ encoding data, decodePayload encoding most payload = .ok data → data.length ≤ most) ↔
      payload.length ≤ most) ∧
    ∀ (r : FileRecord) (h : Headers) (l : Label) (n : UInt64) (data : Bytes),
      r.labelOf h = .ok l → r.checkPlace l = some (.ok n) →
      l.payloadLength.toNat = payload.length →
      decodePayload l.encoding n.toNat payload = .ok data → data.length ≤ n.toNat := by
  have hplain : ∀ data, decodePayload none most payload = .ok data ↔ data = payload := fun data =>
    ⟨fun h => (Except.ok.inj h).symm, fun h => congrArg Except.ok h.symm⟩
  refine ⟨fun e data => decodePayload_length_le, hplain,
    ⟨fun h => h none payload ((hplain payload).2 rfl), fun h encoding data hdata => ?_⟩,
    fun r h l n data hl hplace hannounced hdata => ?_⟩
  · rcases encoding with _ | e
    · exact (hplain data).1 hdata ▸ h
    · exact decodePayload_length_le hdata
  · rcases hencoding : l.encoding with _ | e
    · rw [hencoding] at hdata
      obtain rfl := Except.ok.inj hdata
      have hread := (FileRecord.labelOf_eq_ok_iff.1 hl).1
      refine Nat.le_of_eq ?_
      rw [← hannounced, Label.payloadLength_eq hread hencoding,
        FileRecord.length_of_checkPlace hplace]
    · rw [hencoding] at hdata
      exact decodePayload_length_le hdata

/-- A run of five octets is decoded where five are expected and not where four are; and the one part
of a file of three octets, which is not encoded, is decoded where three are expected. -/
theorem decodePayload_limits_of_run : ∃ payload : Bytes,
    decodePayload (some .zstd) 5 payload = .ok [7, 7, 7, 7, 7] ∧
    decodePayload (some .zstd) 4 payload = .error (.undecodable .zstd) ∧
    (∀ data, decodePayload (some .zstd) 4 payload = .ok data → data.length ≤ 4) ∧
    ∃ (r : FileRecord) (h : Headers) (l : Label), r.labelOf h = .ok l ∧ l.encoding = none ∧
      r.checkPlace l = some (.ok 3) ∧ l.payloadLength.toNat = 3 ∧
      decodePayload l.encoding 3 [1, 2, 3] = .ok [1, 2, 3] ∧ [1, 2, 3].length ≤ 3 := by
  let r : FileRecord := ⟨"f", "f", "", "t", 3, 1, 10, 3, .epoch, none, none, none⟩
  let l := Label.plain "f" 1 0 3 ⟨"SHA-256", "00FF"⟩
  have hl : r.labelOf l.toHeaders = .ok l := by decide +kernel
  have hplace : r.checkPlace l = some (.ok 3) := by decide
  exact ⟨Zstd.encode [7, 7, 7, 7, 7], by decide +kernel, by decide +kernel,
    (decodePayload_limits 4 (Zstd.encode [7, 7, 7, 7, 7])).1 .zstd, r, l.toHeaders, l, hl, rfl, hplace,
    rfl, rfl, (decodePayload_limits 3 [1, 2, 3]).2.2.2 r l.toHeaders l 3 [1, 2, 3] hl hplace rfl rfl⟩

/-- Where five octets are expected, a payload of eleven that is not encoded has all of them. -/
theorem decodePayload_beyond : ∃ payload data : Bytes, payload = Bytes.ofText "plain bytes" ∧
    decodePayload none 5 payload = .ok data ∧ 5 < data.length :=
  ⟨_, _, rfl, rfl, by decide⟩

end FileRelay
