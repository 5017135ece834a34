import FileRelay.Part.Label
import FileRelay.Proofs.Digest.Entry
import FileRelay.Proofs.Text.Decimal

/-!
# Proofs/Part/Label — a label is read back from its headers

Every field of a label travels under a key of its own, so a look-up finds it as it was written
(`Label.find?_toHeaders`), and a field that is not there is not taken for another one.  Hence a label
whose digest is read back is read back itself (`Label.ofHeaders_toHeaders`).
-/

namespace FileRelay

/-! ## Maps from lists -/

namespace KeyMap

variable {α : Type}

/-- The entries of a map are among those that it was made of. -/
theorem mem_entries_ofList {es : List (String × α)} {e : String × α}
    (h : e ∈ (ofList es).entries) : e ∈ es := by
  have hfold : ∀ (es : List (String × α)) (m : KeyMap α),
      e ∈ (es.foldl (fun m e => m.insert e.1 e.2) m).entries → e ∈ m.entries ∨ e ∈ es := by
    intro es
    induction es with
    | nil => exact fun m h => .inl h
    | cons f es ih =>
      intro m h
      rcases ih _ h with h | h
      · rcases mem_insertEntry h with rfl | h
        · exact .inr List.mem_cons_self
        · exact .inl h
      · exact .inr (List.mem_cons_of_mem f h)
  exact (hfold es empty h).resolve_left List.not_mem_nil

/-- **The entries of a map are its keys with their values.** -/
theorem mem_entries_iff {m : KeyMap α} {k : String} {v : α} :
    (k, v) ∈ m.entries ↔ m.get? k = some v := by
  obtain ⟨es, hes⟩ := m
  change (k, v) ∈ es ↔ entryValue? k es = some v
  induction es with
  | nil => simp [entryValue?]
  | cons e es ih =>
    obtain ⟨k', w⟩ := e
    obtain ⟨hfirst, hrest⟩ := List.pairwise_cons.1 hes
    by_cases hk : k = k'
    · subst hk
      -- a later entry of the key would come behind the first one
      have hnone : (k, v) ∉ es := fun hmem => String.lt_irrefl k (hfirst _ hmem)
      simp [entryValue?, hnone, eq_comm]
    · simp [entryValue?, hk, ih hrest]

end KeyMap

/-! ## Look-ups -/

namespace Headers

variable {h : Headers} {key v : String}

theorem find?_of_get? (hg : KeyMap.get? h key = some v) : h.find? key = some v := by
  rw [find?, hg]

theorem similar?_eq_none {es : List (String × String)}
    (h : ∀ e ∈ es, Text.sameLetters e.1 key = false) : similar? key es = none := by
  induction es with
  | nil => rfl
  | cons e es ih =>
    rw [similar?, h e List.mem_cons_self]
    exact ih fun f hf => h f (List.mem_cons_of_mem e hf)

/-- **What is not there is not found**, in any case of its letters. -/
theorem find?_eq_none (hs : ∀ e ∈ h.entries, Text.sameLetters e.1 key = false) :
    h.find? key = none := by
  rcases hg : KeyMap.get? h key with _ | v
  · rw [find?, hg]
    exact similar?_eq_none hs
  · have := hs _ (KeyMap.mem_entries_iff.2 hg)
    simp at this

end Headers

namespace Label

open Text.Decimal (ofWord)

/-- **A look-up finds each field as it was written.** -/
theorem find?_toHeaders (l : Label) : l.toHeaders.find? keyId = some l.id ∧
    l.toHeaders.find? keyFileId = some l.fileId ∧
    l.toHeaders.find? keyNumber = some (ofWord l.number) ∧
    l.toHeaders.find? keyStart = some (ofWord l.start) ∧
    l.toHeaders.find? keyLength = some (ofWord l.length) ∧
    l.toHeaders.find? keyDigest = some l.digest.text := by
  refine ⟨?_, ?_, ?_, ?_, ?_, ?_⟩ <;> refine Headers.find?_of_get? ?_ <;> unfold toHeaders <;>
    split <;> simp [KeyMap.ofList, KeyMap.get?_insert, keyId, keyFileId, keyNumber, keyStart,
      keyLength, keyDigest, keyEncodedLength, keyEncoding]

/-- A label of a part that is not encoded has no header of an encoding. -/
theorem find?_plain (id fileId : String) (number start length : UInt64) (digest : Digest.Entry) :
    let h : Headers := KeyMap.ofList [(keyId, id), (keyFileId, fileId),
      (keyNumber, ofWord number), (keyStart, ofWord start), (keyLength, ofWord length),
      (keyDigest, digest.text)]
    h.find? keyEncodedLength = none ∧ h.find? keyEncoding = none := by
  intro h
  have hkeys : ∀ e ∈ h.entries, Text.sameLetters e.1 keyEncodedLength = false ∧
      Text.sameLetters e.1 keyEncoding = false := fun e he => by
    have hmem : e.1 ∈ [keyId, keyFileId, keyNumber, keyStart, keyLength, keyDigest] := by
      have := List.mem_map_of_mem (f := Prod.fst) (KeyMap.mem_entries_ofList he)
      exact this
    have hall : ∀ k ∈ [keyId, keyFileId, keyNumber, keyStart, keyLength, keyDigest],
        Text.sameLetters k keyEncodedLength = false ∧ Text.sameLetters k keyEncoding = false := by
      decide
    exact hall _ hmem
  exact ⟨Headers.find?_eq_none fun e he => (hkeys e he).1,
    Headers.find?_eq_none fun e he => (hkeys e he).2⟩

/-- **A word is read back from a header.** -/
theorem word_ofWord (key : String) (n : UInt64) : word key (ofWord n) = .ok n := by
  have htrim : Text.trim (Text.Decimal.digits n.toNat) = Text.Decimal.digits n.toNat :=
    Digest.trim_of_forall fun c hc => Text.isBlank_of_isDigit (Text.Decimal.isDigit_of_mem_digits hc)
  simp [word, ofWord, Text.Decimal.text, htrim, Text.Decimal.word?_digits]

theorem parse_name (e : Encoding) : Encoding.parse e.name = .ok e := by
  cases e
  decide

/-- **A label is read back** from its headers. -/
theorem ofHeaders_toHeaders {l : Label} (hn : l.number ≠ 0)
    (hd : Digest.Entry.parse l.digest.text = .ok l.digest)
    (he : l.encodedLength.isSome = l.encoding.isSome) : ofHeaders l.toHeaders = .ok l := by
  obtain ⟨hid, hfile, hnumber, hstart, hlength, hdigest⟩ := l.find?_toHeaders
  have hencoding : optional (word keyEncodedLength) l.toHeaders keyEncodedLength
      = .ok l.encodedLength ∧ optional Encoding.parse l.toHeaders keyEncoding = .ok l.encoding := by
    obtain ⟨id, fileId, number, start, length, encodedLength, encoding, digest⟩ := l
    rcases encoding with _ | e <;> rcases encodedLength with _ | n
    · obtain ⟨hnone, hnone'⟩ := find?_plain id fileId number start length digest
      simp only [optional, toHeaders, hnone, hnone', and_self]
    · simp at he
    · simp at he
    · simp only [optional, toHeaders]
      rw [Headers.find?_of_get? (v := ofWord n), Headers.find?_of_get? (v := e.name)]
      · simp only [word_ofWord, parse_name]
        exact ⟨rfl, rfl⟩
      · simp [KeyMap.get?_insert]
      · simp [KeyMap.get?_insert, keyEncodedLength, keyEncoding]
  simp only [ofHeaders, partNumber, requiredWord, required, hid, hfile, hnumber, hstart, hlength,
    hdigest, hencoding, bind, Except.bind, word_ofWord, hn, hd, he, bne_self_eq_false,
    Bool.false_eq_true, ↓reduceIte, Option.getD_some]

end Label

end FileRelay
