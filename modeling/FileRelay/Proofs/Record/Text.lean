import FileRelay.Proofs.Calendar.Rfc3339
import FileRelay.Proofs.Json.Fields
import FileRelay.Record.Text

/-!
# Proofs/Record/Text — a record is read back from its text

Every field of a record is written under a name of its own and is read back (`ofFields?_fields`).
So a record is read back from its text exactly if it validates (`survives_iff_valid`), whatever texts
it holds and whatever date it bears.
-/

namespace FileRelay.FileRecord

open Calendar Json

/-- The fields of a record that are there. -/
def fields (r : FileRecord) : Fields :=
  [("id", Json.ofText r.id), ("name", Json.ofText r.name)] ++
  Fields.ifSome Json.ofText "description"
    (if r.description.isEmpty then none else some r.description) ++
  [("contentType", Json.ofText r.contentType), ("length", ofWord r.length),
    ("parts", ofWord r.parts), ("partSize", ofWord r.partSize),
    ("lastPartSize", ofWord r.lastPartSize),
    ("fileDate", Json.ofText (Rfc3339.text r.date))] ++
  Fields.ifSome Json.ofText "digestAlgorithm" r.digestAlgorithm ++
  Fields.ifSome Json.ofText "digestValue" r.digestValue ++
  Fields.ifSome ofWord "firstSequence" r.firstSequence

theorem members_fields (r : FileRecord) : r.fields.members = r.members := by
  simp only [fields, members, Fields.members_append, Fields.members_ifSome]
  rfl

/-- Their values are regular. -/
theorem regular_fields (r : FileRecord) : ∀ f ∈ r.fields, Regular f.2 := by
  have hword : ∀ n, Regular (ofWord n) := fun n => regular_ofNat n.toNat
  simp only [fields, List.forall_mem_append, List.forall_mem_cons, regular_ofText, hword,
    List.not_mem_nil, false_imp_iff, implies_true, true_and, and_true]
  exact ⟨⟨⟨Fields.regular_ifSome regular_ofText _ _, Fields.regular_ifSome regular_ofText _ _⟩,
    Fields.regular_ifSome regular_ofText _ _⟩, Fields.regular_ifSome hword _ _⟩

/-- Their names are in order. -/
theorem sublist_fields (r : FileRecord) : (r.fields.map Prod.fst).Sublist fieldNames := by
  have hnames : fieldNames = ["id", "name"] ++ ["description"] ++ ["contentType", "length", "parts",
    "partSize", "lastPartSize", "fileDate"] ++ ["digestAlgorithm"] ++ ["digestValue"]
      ++ ["firstSequence"] := rfl
  simp only [hnames, fields, List.map_append]
  refine .append (.append (.append (.append (.append (.refl _) ?_) (.refl _)) ?_) ?_) ?_
  all_goals exact Fields.names_ifSome _ _ _

/-- **The fields of a record are read back.** -/
theorem ofFields?_fields (r : FileRecord) : ofFields? r.fields = some r := by
  have hword : ∀ n, word? (ofWord n) = some n := word?_ofNat
  have hdate : instant? (Json.ofText (Rfc3339.text r.date)) = some r.date := by
    rw [instant?, text?_ofText, Option.bind_some, Rfc3339.text, String.toList_ofList,
      Rfc3339.parse?_chars]
  have hdescription : r.fields.defaulted? text? "" "description" = some r.description := by
    refine Fields.defaulted?_eq _ text?_ofText
      (o := if r.description.isEmpty then none else some r.description) ?_ ?_
    · split
      · rename_i hempty
        exact (String.isEmpty_iff.1 hempty).symm
      · rfl
    · simp [fields, Fields.get?_append, Fields.get?_cons, Fields.get?_ifSome]
  have halgorithm : r.fields.nullable? text? "digestAlgorithm" = some r.digestAlgorithm := by
    refine Fields.nullable?_eq _ text?_ofText nofun ?_
    simp [fields, Fields.get?_append, Fields.get?_cons, Fields.get?_ifSome]
  have hvalue : r.fields.nullable? text? "digestValue" = some r.digestValue := by
    refine Fields.nullable?_eq _ text?_ofText nofun ?_
    simp [fields, Fields.get?_append, Fields.get?_cons, Fields.get?_ifSome]
  have hfirst : r.fields.nullable? word? "firstSequence" = some r.firstSequence := by
    refine Fields.nullable?_eq _ hword nofun ?_
    simp [fields, Fields.get?_append, Fields.get?_cons, Fields.get?_ifSome]
  rw [ofFields?, hdescription, halgorithm, hvalue, hfirst]
  simp [fields, Fields.required?, Fields.get?_append, Fields.get?_cons, Fields.get?_ifSome,
    text?_ofText, hword, hdate]

/-- **What is read from the text of a record** is the record, as far as it validates. -/
theorem ofText_toText_eq (r : FileRecord) : ofText r.toText = r.validate.map fun _ => r := by
  have hfields : (parse? r.toText).bind (Fields.ofValue? fieldNames) = some r.fields := by
    rw [toText, ← members_fields, parse?_render (Fields.regular_object r.regular_fields),
      Option.bind_some, Fields.ofValue?_object r.sublist_fields (by decide)]
  rw [ofText, ofTextUnchecked, hfields, Option.bind_some, ofFields?_fields]
  rfl

/-- **A record that validates is read back from its text.** -/
theorem ofText_toText {r : FileRecord} (h : r.validate = .ok ()) : ofText r.toText = .ok r := by
  rw [ofText_toText_eq, h]
  rfl

/-- What is read from any text validates. -/
theorem validate_of_ofText {text : Bytes} {r : FileRecord} (h : ofText text = .ok r) :
    r.validate = .ok () := by
  unfold ofText at h
  rcases hread : ofTextUnchecked text with why | read
  · simp [hread, Except.bind] at h
  rcases hvalid : read.validate with why | _
  · simp [hread, hvalid, Except.bind, Except.map] at h
  · obtain rfl : read = r := by simpa [hread, hvalid, Except.bind, Except.map] using h
    exact hvalid

/-- **A record survives its text** exactly if it validates, and otherwise reading fails as validating
does; so whatever is read from any text is read again from its own. -/
theorem survives_iff_valid :
    (∀ r : FileRecord, (ofText r.toText = .ok r ↔ r.validate = .ok ()) ∧
      ∀ why, r.validate = .error why → ofText r.toText = .error why) ∧
    ∀ (text : Bytes) (r : FileRecord), ofText text = .ok r → ofText r.toText = .ok r := by
  refine ⟨fun r => ⟨⟨validate_of_ofText, ofText_toText⟩, fun why h => ?_⟩,
    fun text r h => ofText_toText (validate_of_ofText h)⟩
  rw [ofText_toText_eq, h]
  rfl

/-- A record with quotes, a backslash, controls and a character beyond the first plane in its texts,
with the largest word there is, and with the last leap second that an instant can be. -/
theorem survives_at_the_ends : ∃ r : FileRecord, r.name = "\"\\\n\u0000\u007f😀" ∧
    r.length = 18446744073709551615 ∧ r.date.seconds = Instant.lastSecond ∧
    r.date.nanos = 1999999999 ∧ r.validate = .ok () ∧ ofText r.toText = .ok r := by
  let r : FileRecord := ⟨"id", "\"\\\n\u0000\u007f😀", "", "", 18446744073709551615, 1,
    18446744073709551615, 18446744073709551615, ⟨Instant.lastSecond, 1999999999, by decide⟩, none,
    none, none⟩
  have hv : r.validate = .ok () := by decide
  exact ⟨r, rfl, rfl, rfl, rfl, hv, (survives_iff_valid.1 r).1.2 hv⟩

end FileRelay.FileRecord
