import FileRelay.Proofs.Record.Tiling
import FileRelay.Transfer.PartCheck

/-!
# Proofs/Transfer/Acceptance — which deliveries are parts of a file

`FileRecord.contentAt?` is the content that a message has as a part of a given number, whatever
reader delivers it; `Label.Describes` lists what its label must say for that.  A session accepts a
delivery when it is the next one of its reader and has a content as the next part
(`checkPart_eq_ok_iff`).
-/

namespace FileRelay

/-- **A label that describes a content as a part of a file**, and its payload. -/
structure Label.Describes (l : Label) (r : FileRecord) (payload content : Bytes) : Prop where
  fileId : l.fileId = r.id
  start : r.partStart? l.number = some (some l.start)
  length : r.partLength? l.number = some l.length
  payloadLength : l.payloadLength.toNat = payload.length
  decoded : decodePayload l.encoding l.length.toNat payload = .ok content
  contentLength : content.length = l.length.toNat
  digest : ∃ a, Digest.Algorithm.parse? l.digest.algorithm = some a ∧
    Digest.Entry.agrees ⟨a.name, a.hexDigest content⟩ l.digest = true

theorem Label.checkContent_eq_ok_iff {l : Label} {length : UInt64} {payload content : Bytes} :
    l.checkContent length payload = .ok content ↔ l.payloadLength.toNat = payload.length ∧
      decodePayload l.encoding length.toNat payload = .ok content ∧
      content.length = length.toNat ∧
      ∃ a, Digest.Algorithm.parse? l.digest.algorithm = some a ∧
        Digest.Entry.agrees ⟨a.name, a.hexDigest content⟩ l.digest = true := by
  unfold checkContent
  by_cases hp : l.payloadLength.toNat = payload.length
  swap
  · simp [hp]
  rcases hd : decodePayload l.encoding length.toNat payload with e | data
  · simp [hp]
  by_cases hl : data.length = length.toNat
  swap
  · have : ∀ content, data = content → content.length ≠ length.toNat := by rintro _ rfl; exact hl
    simp only [hp, ne_eq, not_true_eq_false, ↓reduceIte, hl, not_false_eq_true, reduceCtorEq,
      Except.ok.injEq, true_and, false_iff, not_and]
    intro h h'
    exact absurd h' (this _ h)
  rcases ha : Digest.Algorithm.parse? l.digest.algorithm with _ | a
  · simp [hp, hl]
  by_cases hg : Digest.Entry.agrees ⟨a.name, a.hexDigest data⟩ l.digest = true
  · simp only [hp, ne_eq, not_true_eq_false, ↓reduceIte, hl, hg, Except.ok.injEq, true_and,
      Option.some.injEq, exists_eq_left']
    constructor
    · rintro rfl; exact ⟨rfl, hl, hg⟩
    · rintro ⟨h, -⟩; exact h
  · simp only [hp, ne_eq, not_true_eq_false, ↓reduceIte, hl, hg, Bool.false_eq_true, reduceCtorEq,
      Except.ok.injEq, true_and, Option.some.injEq, exists_eq_left', false_iff, not_and]
    rintro rfl -
    exact hg

/-- **A message carries a content as a part of a file**: it has a label, which has the number of the
part and describes the content. -/
def Published.Carries (m : Published) (r : FileRecord) (n : Nat) (content : Bytes) : Prop :=
  ∃ l, Label.ofHeaders m.headers = .ok l ∧ l.number.toNat = n ∧ l.Describes r m.payload content

namespace FileRecord

variable {r : FileRecord} {l : Label} {n : Nat} {h : Headers} {payload content : Bytes}

/-- **The content that a message has as a part of the file** of this number, if it is one. -/
def contentAt? (r : FileRecord) (n : Nat) (h : Headers) (payload : Bytes) : Option Bytes :=
  match r.labelOf h with
  | .error _ => none
  | .ok l =>
    if l.number.toNat = n then
      match r.partContent l payload with
      | some (.ok content) => some content
      | _ => none
    else none

theorem labelOf_eq_ok_iff :
    r.labelOf h = .ok l ↔ Label.ofHeaders h = .ok l ∧ l.fileId = r.id := by
  unfold labelOf
  rcases Label.ofHeaders h with e | l'
  · simp
  by_cases hid : l'.fileId = r.id
  · simp only [hid, ↓reduceIte, Except.ok.injEq]
    exact ⟨by rintro rfl; exact ⟨rfl, hid⟩, And.left⟩
  · simp only [hid, ↓reduceIte, reduceCtorEq, Except.ok.injEq, false_iff, not_and]
    rintro rfl
    exact hid

/-- The place of a part of a tiled record is always checked. -/
theorem checkPlace_eq (ht : r.Tiled) (l : Label) : ∃ place, r.checkPlace l = some place ∧
    ∀ length, place = .ok length ↔ r.partStart? l.number = some (some l.start) ∧
      r.partLength? l.number = some l.length ∧ l.length = length := by
  obtain ⟨o, ho, hiff⟩ := ht.partStart?_eq l.number
  unfold checkPlace
  rw [ho, Option.map_some]
  refine ⟨_, rfl, fun length => ?_⟩
  rcases hl : r.partLength? l.number with _ | m
  · simp
  rcases o with _ | start
  · simp
  simp only [Option.some.injEq]
  split
  · rename_i hne
    simp [Ne.symm hne]
  · rename_i hs
    have hs : l.start = start := by simpa using hs
    split
    · rename_i hne
      simp [Ne.symm hne]
    · rename_i hm
      have hm : l.length = m := by simpa using hm
      simp [hs, hm]

/-- The content of a part of a tiled record is always checked. -/
theorem partContent_eq (ht : r.Tiled) (l : Label) (payload : Bytes) :
    ∃ e, r.partContent l payload = some e ∧
      ∀ content, e = .ok content ↔ r.partStart? l.number = some (some l.start) ∧
        r.partLength? l.number = some l.length ∧ l.checkContent l.length payload = .ok content := by
  obtain ⟨place, hp, hiff⟩ := checkPlace_eq ht l
  unfold partContent
  rw [hp, Option.map_some]
  refine ⟨_, rfl, fun content => ?_⟩
  rcases place with e | length
  · have := hiff l.length
    simp only [reduceCtorEq, and_true, false_iff] at this
    simp only [Except.bind, reduceCtorEq, false_iff]
    tauto
  · obtain ⟨hs, hl, rfl⟩ := (hiff length).1 rfl
    simp [Except.bind, hs, hl]

/-- **A message is a part of the file** exactly when its label describes its content. -/
theorem contentAt?_eq_some_iff (ht : r.Tiled) : r.contentAt? n h payload = some content ↔
    ∃ l, Label.ofHeaders h = .ok l ∧ l.number.toNat = n ∧ l.Describes r payload content := by
  unfold contentAt?
  rcases hl : r.labelOf h with e | l
  · simp only [reduceCtorEq, false_iff, not_exists, not_and]
    rintro l' hl' - ⟨hid, -⟩
    have := labelOf_eq_ok_iff.2 ⟨hl', hid⟩
    simp [hl] at this
  obtain ⟨hl, hid⟩ := labelOf_eq_ok_iff.1 hl
  obtain ⟨e, he, hiff⟩ := partContent_eq ht l payload
  have hdesc : e = .ok content ↔ l.Describes r payload content := by
    rw [hiff, Label.checkContent_eq_ok_iff]
    exact ⟨fun ⟨hs, hlen, hp, hd, hc, ha⟩ => ⟨hid, hs, hlen, hp, hd, hc, ha⟩,
      fun h => ⟨h.start, h.length, h.payloadLength, h.decoded, h.contentLength, h.digest⟩⟩
  have hmatch : (match r.partContent l payload with
      | some (.ok content) => some content
      | _ => none) = some content ↔ e = .ok content := by
    rw [he]
    rcases e <;> simp
  simp only [hl, Except.ok.injEq, exists_eq_left']
  by_cases hn : l.number.toNat = n
  · simp only [hn, ↓reduceIte, true_and]
    exact hmatch.trans hdesc
  · simp [hn]

/-- A part that a message carries is one that the record has, and as long as the record says. -/
theorem length_of_contentAt? (ht : r.Tiled) (h' : r.contentAt? n h payload = some content) :
    0 < n ∧ n ≤ r.parts.toNat ∧ content.length = r.span (n - 1) := by
  obtain ⟨l, -, rfl, hd⟩ := (contentAt?_eq_some_iff ht).1 h'
  obtain ⟨hpos, hle, hspan⟩ := partLength?_eq_some_iff.1 hd.length
  exact ⟨hpos, hle, hd.contentLength.trans hspan⟩

/-- A message has one part number at most. -/
theorem contentAt?_number {n' : Nat} {content' payload' : Bytes}
    (h₁ : r.contentAt? n h payload = some content)
    (h₂ : r.contentAt? n' h payload' = some content') : n = n' := by
  unfold contentAt? at h₁ h₂
  split at h₁
  · simp at h₁
  · rename_i l hl
    simp only [hl] at h₂
    by_cases hn : l.number.toNat = n
    · by_cases hn' : l.number.toNat = n'
      · exact hn.symm.trans hn'
      · simp [hn'] at h₂
    · simp [hn] at h₁

end FileRecord

namespace Session

variable {s : Session} {r : FileRecord} {d : Delivery} {content : Bytes}

/-- **A delivery is accepted** exactly when it is the next one of its reader, and the next part. -/
theorem checkPart_eq_ok_iff : s.checkPart r d = some (.ok content) ↔
    d.number = s.expecting ∧ r.contentAt? s.expectedPart d.headers d.payload = some content := by
  unfold checkPart FileRecord.contentAt?
  rcases r.labelOf d.headers with e | l
  · simp
  unfold checkOrder
  by_cases hd : d.number = s.expecting
  swap
  · simp [hd]
  by_cases hn : l.number.toNat = s.expectedPart
  swap
  · simp [hd, hn]
  simp only [hd, ne_eq, not_true_eq_false, ↓reduceIte, hn, true_and]
  rcases r.partContent l d.payload with _ | (_ | _) <;> simp

/-- Every delivery is checked against a tiled record. -/
theorem checkPart_ne_none (ht : r.Tiled) (d : Delivery) : s.checkPart r d ≠ none := by
  unfold checkPart
  split
  · simp
  · rename_i l _
    split
    · simp
    · obtain ⟨e, he, -⟩ := FileRecord.partContent_eq ht l d.payload
      simp [he]

end Session

end FileRelay
