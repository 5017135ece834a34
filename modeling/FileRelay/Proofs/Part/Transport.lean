import FileRelay.Proofs.Part.Label

/-!
# Proofs/Part/Transport — a label survives a transport that changes the case of its keys

A transport may write every key in letters of another case and add headers of its own under other
keys (`Headers.Carries`).  A look-up of a part's key then finds what was sent: the eight keys differ
by more than the case of their letters, so exactly the entry sent under a key is similar to it
(`Headers.Carries.find?_eq`).

The labels that are read back are the **regular** ones, and whatever is read as a label is regular
(`Label.regular_of_ofHeaders`): the forms that numbers, digests and encodings are read into are the
forms in which they are written.
-/

namespace FileRelay

/-! ## Keys up to case -/

namespace Label

/-- The keys of the headers of a part. -/
def keys : List String :=
  [keyId, keyFileId, keyNumber, keyStart, keyLength, keyEncodedLength, keyEncoding, keyDigest]

/-- **The keys differ by more than the case of their letters.** -/
theorem keys_apart : ∀ k ∈ keys, ∀ k' ∈ keys, Text.sameLetters k k' = true → k = k' := by
  decide

/-- A label is written under its keys only. -/
theorem mem_keys {l : Label} {e : String × String} (h : e ∈ l.toHeaders.entries) :
    e.1 ∈ keys := by
  have hplain : ∀ es : List (String × String),
      es.map Prod.fst = [keyId, keyFileId, keyNumber, keyStart, keyLength, keyDigest] →
      e ∈ (KeyMap.ofList es).entries → e.1 ∈ keys := by
    intro es hes he
    have hmem := List.mem_map_of_mem (f := Prod.fst) (KeyMap.mem_entries_ofList he)
    rw [hes] at hmem
    simp only [List.mem_cons, List.not_mem_nil, or_false] at hmem
    simp only [keys, List.mem_cons]
    tauto
  unfold toHeaders at h
  split at h
  · rcases KeyMap.mem_insertEntry h with rfl | h
    · simp [keys]
    rcases KeyMap.mem_insertEntry h with rfl | h
    · simp [keys]
    exact hplain _ rfl h
  · exact hplain _ rfl h

end Label

namespace Headers

variable {h sent received : Headers} {key v : String}

/-- A header is found if all headers of its key, up to case, say the same. -/
theorem find?_eq_some (hex : ∃ e ∈ h.entries, Text.sameLetters e.1 key = true)
    (hall : ∀ e ∈ h.entries, Text.sameLetters e.1 key = true → e.2 = v) :
    h.find? key = some v := by
  have hsimilar : ∀ es : List (String × String), (∃ e ∈ es, Text.sameLetters e.1 key = true) →
      (∀ e ∈ es, Text.sameLetters e.1 key = true → e.2 = v) → similar? key es = some v := by
    intro es
    induction es with
    | nil => simp
    | cons e es ih =>
      intro hex hall
      rw [similar?]
      split
      · rename_i he
        exact congrArg some (hall e List.mem_cons_self he)
      · rename_i he
        obtain ⟨f, hf, hfe⟩ := hex
        refine ih ⟨f, ?_, hfe⟩ fun g hg => hall g (List.mem_cons_of_mem e hg)
        exact (List.mem_cons.1 hf).resolve_left fun heq => he (heq ▸ hfe)
  rcases hg : KeyMap.get? h key with _ | w
  · rw [find?, hg]
    exact hsimilar _ hex hall
  · have hw := hall _ (KeyMap.mem_entries_iff.2 hg) (Text.sameLetters_refl key)
    rw [find?_of_get? hg, ← hw]

/-- **What a transport may do to the headers of a part**: each key arrives in letters of any case,
with the value that was sent under it, and there may be other headers under other keys. -/
def Carries (sent received : Headers) : Prop :=
  ∃ (recased : String → String) (added : List (String × String)),
    (∀ e ∈ sent.entries, Text.sameLetters (recased e.1) e.1 = true) ∧
    (∀ e ∈ added, ∀ k ∈ Label.keys, Text.sameLetters e.1 k = false) ∧
    received.entries.Perm (sent.entries.map (fun e => (recased e.1, e.2)) ++ added)

/-- A transport may leave the headers as they are. -/
theorem Carries.refl (h : Headers) : Carries h h :=
  ⟨id, [], by simp, by simp, by simp⟩

/-- **A look-up of a part's key finds what was sent under it**, in whatever case it arrives. -/
theorem Carries.find?_eq (h : Carries sent received)
    (hsent : ∀ e ∈ sent.entries, e.1 ∈ Label.keys) (hkey : key ∈ Label.keys) :
    received.find? key = KeyMap.get? sent key := by
  obtain ⟨recased, added, hrecased, hadded, hperm⟩ := h
  have hback : ∀ e ∈ received.entries, Text.sameLetters e.1 key = true →
      KeyMap.get? sent key = some e.2 := by
    intro e he hsame
    rcases List.mem_append.1 (hperm.mem_iff.1 he) with he | he
    · obtain ⟨f, hf, rfl⟩ := List.mem_map.1 he
      have hfkey : f.1 = key := Label.keys_apart _ (hsent f hf) _ hkey
        (Text.sameLetters_trans (Text.sameLetters_symm (hrecased f hf)) hsame)
      exact KeyMap.mem_entries_iff.1 (by rw [← hfkey]; exact hf)
    · exact absurd hsame (by simp [hadded e he key hkey])
  rcases hg : KeyMap.get? sent key with _ | v
  · refine find?_eq_none fun e he => Bool.eq_false_iff.2 fun hsame => ?_
    have := hback e he hsame
    simp [hg] at this
  · have hmem : (key, v) ∈ sent.entries := KeyMap.mem_entries_iff.2 hg
    have harrives : (recased key, v) ∈ received.entries :=
      hperm.mem_iff.2 (List.mem_append_left _ (List.mem_map_of_mem hmem))
    refine find?_eq_some ⟨_, harrives, hrecased _ hmem⟩ fun e he hsame => ?_
    exact Option.some.inj ((hback e he hsame).symm.trans hg)

end Headers

/-! ## Regular labels -/

namespace Label

variable {h h' : Headers} {l : Label}

/-- The label that headers are depends on what is found under the keys of a part. -/
theorem ofHeaders_congr (hfind : ∀ k ∈ keys, h.find? k = h'.find? k) :
    ofHeaders h = ofHeaders h' := by
  simp only [keys, List.forall_mem_cons, List.not_mem_nil, false_implies, implies_true,
    and_true] at hfind
  obtain ⟨hid, hfile, hnumber, hstart, hlength, hencodedLength, hencoding, hdigest⟩ := hfind
  simp only [ofHeaders, partNumber, requiredWord, required, optional, hid, hfile, hnumber, hstart,
    hlength, hencodedLength, hencoding, hdigest]

/-- **A label that can be read back**: parts are counted from one, an encoding comes with the
encoded length, and the digest is read back from its text. -/
structure Regular (l : Label) : Prop where
  number : l.number ≠ 0
  encoding : l.encodedLength.isSome = l.encoding.isSome
  digest : l.digest.Regular

/-- **A regular label is read from whatever a transport makes of its headers.** -/
theorem Regular.ofHeaders_eq (hl : l.Regular) (hcarries : Headers.Carries l.toHeaders h) :
    ofHeaders h = .ok l := by
  rw [← ofHeaders_toHeaders hl.number hl.digest.parse_text hl.encoding]
  refine ofHeaders_congr fun k hk => ?_
  rw [hcarries.find?_eq (fun _ => mem_keys) hk,
    (Headers.Carries.refl l.toHeaders).find?_eq (fun _ => mem_keys) hk]

/-- **Whatever is read as a label is regular.** -/
theorem regular_of_ofHeaders (hread : ofHeaders h = .ok l) : l.Regular := by
  obtain ⟨fileId, -, hread⟩ := ok_of_bind hread
  obtain ⟨number, hnumber, hread⟩ := ok_of_bind hread
  obtain ⟨start, -, hread⟩ := ok_of_bind hread
  obtain ⟨length, -, hread⟩ := ok_of_bind hread
  obtain ⟨digest, hdigest, hread⟩ := ok_of_bind hread
  obtain ⟨encodedLength, -, hread⟩ := ok_of_bind hread
  obtain ⟨encoding, -, hread⟩ := ok_of_bind hread
  have hcounted : number ≠ 0 := by
    obtain ⟨n, -, hn⟩ := ok_of_bind hnumber
    rintro rfl
    split at hn
    · cases hn
    · rename_i hne
      exact hne (Except.ok.inj hn)
  have hentry : digest.Regular := by
    obtain ⟨text, -, htext⟩ := ok_of_bind hdigest
    exact Digest.Entry.regular_of_parse htext
  split at hread
  · cases hread
  · rename_i htogether
    obtain rfl := (Except.ok.inj hread).symm
    exact ⟨hcounted, by simpa using htogether, hentry⟩

/-- **The headers of a part round-trip through a transport that changes their case.**  A regular
label is read from any headers that a transport makes of its own; whatever is read as a label is
regular; and so every label that was ever read is read again from the headers written for it. -/
theorem headers_roundTrip :
    (∀ l : Label, l.Regular → ∀ h, Headers.Carries l.toHeaders h → ofHeaders h = .ok l) ∧
    (∀ h l, ofHeaders h = .ok l → l.Regular) ∧
    (∀ h l, ofHeaders h = .ok l → ofHeaders l.toHeaders = .ok l) := by
  refine ⟨fun l hl h => hl.ofHeaders_eq, fun h l => regular_of_ofHeaders, fun h l hread => ?_⟩
  exact (regular_of_ofHeaders hread).ofHeaders_eq (Headers.Carries.refl _)

/-- Headers that arrive in capitals, with one of the transport's own, are read. -/
theorem headers_roundTrip_capitals :
    let l := (plain "f" 2 10 10 ⟨"SHA-256", "00FF"⟩).encoded .zstd 42
    l.Regular ∧ ofHeaders l.toHeaders = .ok l ∧
      ofHeaders (KeyMap.ofList [("CONTENT-ENCODING", "zstd"), ("DIGEST", "SHA-256=00FF"),
        ("ENCODED-LENGTH", "42"), ("FILE-ID", "f"), ("Host", "a"), ("ID", "f-2"), ("LENGTH", "10"),
        ("PART-NUMBER", "2"), ("START", "10")]) = .ok l := by
  intro l
  have hdigest : Digest.Entry.Regular ⟨"SHA-256", "00FF"⟩ := {
    algorithm := by decide
    noEquals := by decide
    first := fun c hc => by
      obtain rfl : 'S' = c := Option.some.inj hc
      rfl
    last := fun c hc => by
      obtain rfl : '6' = c := Option.some.inj hc
      rfl
    value := by decide
    digits := List.all_eq_true.1 (by decide) }
  have hl : l.Regular := ⟨by decide, rfl, hdigest⟩
  have hsent := headers_roundTrip.1 l hl l.toHeaders (Headers.Carries.refl _)
  refine ⟨headers_roundTrip.2.1 _ _ hsent, headers_roundTrip.2.2 _ _ hsent,
    headers_roundTrip.1 l hl _ ⟨Text.raised, [("Host", "a")], ?_, ?_, ?_⟩⟩
  · decide
  · decide
  · decide

end Label

end FileRelay
