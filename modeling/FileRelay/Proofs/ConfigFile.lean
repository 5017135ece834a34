import FileRelay.Config
import FileRelay.Proofs.Json.Fields
import FileRelay.Proofs.Path.FileTree
import Mathlib.Data.List.Nodup

/-!
# Proofs/ConfigFile — settings are read back from their file

Settings that were saved are loaded again, whatever they are.  A file that gives some of their fields
alone stands for the usual settings with just these fields changed (`ofFields?_of_gives`), in whatever
order it gives them, with whatever blanks and escapes it is written, and whatever other fields it
gives besides.
-/

namespace FileRelay.Config

open Json

variable {c : Config} {fs : Fields}

/-! ## All fields -/

/-- The fields of settings. -/
def fields (c : Config) : Fields := [
  ("partPrefix", ofText c.partPrefix),
  ("partSize", ofNat c.partSize.toNat),
  ("compression", match c.compression with
    | .none => .null
    | some e => ofText e.name),
  ("compressionLevel", ofInt c.compressionLevel.toInt),
  ("digestAlgorithm", ofText c.digestAlgorithm),
  ("retryBudget", ofNat c.retryBudget.toNat),
  ("readTimeoutMs", ofNat c.readTimeoutMs.toNat),
  ("maxIdleMs", ofNat c.maxIdleMs.toNat),
  ("ackPolicy", ofText (policyName c.ackPolicy))]

theorem members_fields (c : Config) : c.fields.members = c.members := rfl

theorem names_fields (c : Config) : c.fields.map Prod.fst = fieldNames := rfl

theorem mem_fieldNames {f : String × Value} (h : f ∈ c.fields) : f.1 ∈ fieldNames :=
  names_fields c ▸ List.mem_map_of_mem h

theorem nodup_fieldNames : fieldNames.Nodup := by decide

/-- Their values are regular, and written as texts. -/
theorem regular_fields (c : Config) :
    ∀ f ∈ c.fields, Regular f.2 ∧ Bytes.IsText (render f.2) := by
  have htext : ∀ s, Regular (ofText s) ∧ Bytes.IsText (render (ofText s)) :=
    fun s => ⟨regular_ofText s, isText_ofText s⟩
  have hnat : ∀ n, Regular (ofNat n) ∧ Bytes.IsText (render (ofNat n)) :=
    fun n => ⟨regular_ofNat n, isText_ofNat n⟩
  have hint : ∀ n, Regular (ofInt n) ∧ Bytes.IsText (render (ofInt n)) :=
    fun n => ⟨regular_ofInt n, isText_ofInt n⟩
  have hnull : Regular .null ∧ Bytes.IsText (render .null) := ⟨.null, .of_all rfl⟩
  simp only [fields, List.forall_mem_cons, htext, hnat, hint, List.not_mem_nil, false_imp_iff,
    implies_true, true_and, and_true]
  split
  · exact hnull
  · exact htext _

/-- A field has one value. -/
theorem eq_of_mem_fields {name : String} {v w : Value} (hv : (name, v) ∈ c.fields)
    (hw : (name, w) ∈ c.fields) : v = w := by
  have hnodup : (c.fields.map Prod.fst).Nodup := nodup_fieldNames
  exact congrArg Prod.snd (List.inj_on_of_nodup_map hnodup hv hw rfl)

/-! ## Some fields -/

/-- **Fields that give settings**, maybe not all, and maybe others besides: no known field is twice,
and each has the value of the settings, in one of the ways to write it. -/
structure Gives (c : Config) (fs : Fields) : Prop where
  once : ((fs.knownOf fieldNames).map Prod.fst).Nodup
  same : ∀ name v w, (name, v) ∈ fs → (name, w) ∈ c.fields → Alike v w

/-- **The usual settings with some fields changed** to those of other settings. -/
def overUsual (c : Config) (names : List String) : Config where
  partPrefix := if "partPrefix" ∈ names then c.partPrefix else usual.partPrefix
  partSize := if "partSize" ∈ names then c.partSize else usual.partSize
  compression := if "compression" ∈ names then c.compression else usual.compression
  compressionLevel :=
    if "compressionLevel" ∈ names then c.compressionLevel else usual.compressionLevel
  digestAlgorithm := if "digestAlgorithm" ∈ names then c.digestAlgorithm else usual.digestAlgorithm
  retryBudget := if "retryBudget" ∈ names then c.retryBudget else usual.retryBudget
  readTimeoutMs := if "readTimeoutMs" ∈ names then c.readTimeoutMs else usual.readTimeoutMs
  maxIdleMs := if "maxIdleMs" ∈ names then c.maxIdleMs else usual.maxIdleMs
  ackPolicy := if "ackPolicy" ∈ names then c.ackPolicy else usual.ackPolicy

/-- With all fields changed, they are the others. -/
theorem overUsual_fieldNames (c : Config) : c.overUsual fieldNames = c := rfl

theorem overUsual_congr {names names' : List String}
    (h : ∀ name ∈ fieldNames, name ∈ names ↔ name ∈ names') :
    c.overUsual names = c.overUsual names' := by
  simp only [fieldNames, List.forall_mem_cons, List.not_mem_nil, false_imp_iff, implies_true,
    and_true] at h
  simp only [overUsual, h]

/-- **One field** is read as it is in the settings if it is given. -/
theorem Gives.field (h : c.Gives fs) {α : Type} {read : Value → Option α} {a usual : α} {w : Value}
    (name : String) (hw : (name, w) ∈ c.fields) (hread : Respects read) (ha : read w = some a) :
    (fs.knownOf fieldNames).defaulted? read usual name =
      some (if name ∈ fs.map Prod.fst then a else usual) := by
  have hknown : name ∈ fieldNames := mem_fieldNames hw
  have hmem : name ∈ (fs.knownOf fieldNames).map Prod.fst ↔ name ∈ fs.map Prod.fst := by
    simp [Fields.knownOf, hknown]
  have hvalue : ∀ v, (name, v) ∈ fs.knownOf fieldNames → read v = some a := fun v hv =>
    (hread v w (h.same name v w (List.mem_of_mem_filter hv) hw)).trans ha
  rw [Fields.defaulted?_eq_ite name hvalue]
  simp only [hmem]

/-- **The settings of some fields** are the usual ones with these changed. -/
theorem ofFields?_of_gives (h : c.Gives fs) :
    ofFields? (fs.knownOf fieldNames) = some (c.overUsual (fs.map Prod.fst)) := by
  have hcompression : Fields.orNull? (choice? encodings) (match c.compression with
      | .none => .null
      | some e => ofText e.name) = some c.compression := by
    rcases c.compression with _ | e
    · rfl
    · exact congrArg (Option.map some) ((choice?_ofText encodings e.name).trans rfl)
  have hpolicy : choice? policies (ofText (policyName c.ackPolicy)) = some c.ackPolicy := by
    rw [choice?_ofText]
    cases c.ackPolicy <;> rfl
  rw [ofFields?, Fields.nullable?_eq_defaulted?,
    h.field "partPrefix" (by simp [fields]) respects_text? (text?_ofText c.partPrefix),
    h.field "partSize" (by simp [fields]) respects_word? (word?_ofNat c.partSize),
    h.field "compression" (by simp [fields]) (Fields.respects_orNull? (respects_choice? _))
      hcompression,
    h.field "compressionLevel" (by simp [fields]) respects_signed? (signed?_ofInt c.compressionLevel),
    h.field "digestAlgorithm" (by simp [fields]) respects_text? (text?_ofText c.digestAlgorithm),
    h.field "retryBudget" (by simp [fields]) respects_halfWord? (halfWord?_ofNat c.retryBudget),
    h.field "readTimeoutMs" (by simp [fields]) respects_word? (word?_ofNat c.readTimeoutMs),
    h.field "maxIdleMs" (by simp [fields]) respects_word? (word?_ofNat c.maxIdleMs),
    h.field "ackPolicy" (by simp [fields]) (respects_choice? _) hpolicy]
  rfl

/-- **A text with some fields** holds the usual settings with these changed. -/
theorem ofText?_of_gives {text : Bytes} (h : c.Gives fs) (hw : fs.WrittenAs text) :
    ofText? text = some (c.overUsual (fs.map Prod.fst)) := by
  obtain ⟨ms, hparse, hnamed⟩ := hw
  rw [ofText?, hparse, Option.bind_some, Fields.ofValue?_of_named hnamed h.once, Option.bind_some,
    ofFields?_of_gives h]

/-- **Fields of the settings**, in any order and among any others, give them. -/
theorem gives_of_perm {gs hs : Fields} (hgs : gs.Sublist c.fields)
    (hhs : ∀ f ∈ hs, f.1 ∉ fieldNames) (hperm : fs.Perm (gs ++ hs)) : c.Gives fs := by
  have hknown : (gs ++ hs).knownOf fieldNames = gs := by
    have hunknown : hs.filter (fun f => fieldNames.contains f.1) = [] :=
      List.filter_eq_nil_iff.2 fun f hf => by simpa using hhs f hf
    rw [Fields.knownOf, List.filter_append, hunknown, List.append_nil]
    exact Fields.knownOf_eq_self fun f hf => mem_fieldNames (hgs.subset hf)
  refine ⟨?_, fun name v w hv hw => ?_⟩
  · have hnames : (gs.map Prod.fst).Nodup := nodup_fieldNames.sublist (hgs.map Prod.fst)
    rw [← hknown] at hnames
    exact ((hperm.filter _).map _).nodup_iff.2 hnames
  · obtain hv | hv := List.mem_append.1 (hperm.mem_iff.1 hv)
    · rw [eq_of_mem_fields (hgs.subset hv) hw]
      exact .refl w
    · exact absurd (mem_fieldNames hw) (hhs (name, v) hv)

/-- What changes is told by the known fields. -/
theorem overUsual_of_perm {gs hs : Fields} (hhs : ∀ f ∈ hs, f.1 ∉ fieldNames)
    (hperm : fs.Perm (gs ++ hs)) :
    c.overUsual (fs.map Prod.fst) = c.overUsual (gs.map Prod.fst) := by
  refine overUsual_congr fun name hname => ?_
  have hnone : name ∉ hs.map Prod.fst := fun hmem => by
    obtain ⟨f, hf, rfl⟩ := List.mem_map.1 hmem
    exact hhs f hf hname
  rw [(hperm.map Prod.fst).mem_iff, List.map_append, List.mem_append, or_iff_left hnone]

theorem gives_fields (c : Config) : c.Gives c.fields :=
  gives_of_perm (.refl _) (List.forall_mem_nil _) (by rw [List.append_nil])

/-! ## The file -/

/-- **The text of the file gives the settings.** -/
theorem toFileText_spec (c : Config) :
    c.fields.WrittenAs c.toFileText ∧ Bytes.IsText c.toFileText :=
  ⟨(Fields.writtenAs_render fun f hf => (c.regular_fields f hf).1).2,
    isText_renderLines fun f hf => (c.regular_fields f hf).2⟩

/-- What a file holds that can be read as a text. -/
theorem load_of_read {t : FileTree} {p : Path} {s : String} {c' : Config}
    (h : t.read p = .ok (Bytes.ofText s)) (hc : ofText? (Bytes.ofText s) = some c') :
    load t p = .ok c' := by
  rw [load, FileTree.pathExists_of_read h, h]
  simp [Bytes.toText?_ofText, hc]

/-- A file that is saved holds the text of the settings. -/
theorem read_of_save {t t' : FileTree} {p : Path} (h : save t p c = .ok t') :
    t'.read p = .ok c.toFileText := by
  unfold save at h
  dsimp only at h
  split at h
  · rename_i hwrite
    obtain rfl := Except.ok.inj h
    obtain ⟨t₁, -, hwrite⟩ := ok_of_bind hwrite
    exact FileTree.read_of_write hwrite
  · cases h

/-- **Settings are read back from their file.**  What was saved is loaded again; and a file that gives
some of the fields of settings, each in one of the ways to write it, stands for the usual settings
with these fields changed.  So does every choice of fields in every order among fields of other
names, and there are such files, on one line and on many. -/
theorem read_back_from_file :
    (∀ (t t' : FileTree) (p : Path) (c : Config), save t p c = .ok t' → load t' p = .ok c) ∧
    (∀ (t : FileTree) (p : Path) (c : Config) (fs : Fields) (s : String),
      t.read p = .ok (Bytes.ofText s) → fs.WrittenAs (Bytes.ofText s) → c.Gives fs →
        load t p = .ok (c.overUsual (fs.map Prod.fst))) ∧
    ∀ (c : Config) (gs hs fs : Fields), gs.Sublist c.fields → (∀ f ∈ hs, f.1 ∉ fieldNames) →
      fs.Perm (gs ++ hs) →
        (∀ (t : FileTree) (p : Path) (s : String), t.read p = .ok (Bytes.ofText s) →
          fs.WrittenAs (Bytes.ofText s) → load t p = .ok (c.overUsual (gs.map Prod.fst))) ∧
        ((∀ f ∈ hs, Regular f.2) →
          fs.WrittenAs (render (.object fs.members)) ∧ fs.WrittenAs (renderLines fs.members)) := by
  have hgiven : ∀ (t : FileTree) (p : Path) (c : Config) (fs : Fields) (s : String),
      t.read p = .ok (Bytes.ofText s) → fs.WrittenAs (Bytes.ofText s) → c.Gives fs →
        load t p = .ok (c.overUsual (fs.map Prod.fst)) :=
    fun t p c fs s hread hwritten hgives => load_of_read hread (ofText?_of_gives hgives hwritten)
  refine ⟨fun t t' p c h => ?_, hgiven, fun c gs hs fs hgs hhs hperm =>
    ⟨fun t p s hread hwritten => ?_, fun hregular => Fields.writtenAs_render fun f hf => ?_⟩⟩
  · obtain ⟨hwritten, s, hs⟩ := toFileText_spec c
    have hread := read_of_save h
    rw [← hs] at hread hwritten
    rw [hgiven t' p c c.fields s hread hwritten (gives_fields c), names_fields,
      overUsual_fieldNames]
  · rw [← overUsual_of_perm hhs hperm]
    exact hgiven t p c fs s hread hwritten (gives_of_perm hgs hhs hperm)
  · obtain hf | hf := List.mem_append.1 (hperm.mem_iff.1 hf)
    · exact (c.regular_fields f (hgs.subset hf)).1
    · exact hregular f hf

/-- Settings that do not validate are saved below a directory that is made, and loaded again; and of
them the policy and the level stand in a file in this order, behind a field of another name. -/
theorem read_back_from_file_of_two : ∃ (c : Config) (t t' : FileTree) (p : Path),
    c.partPrefix = "\"\\\n" ∧ c.compressionLevel = -5 ∧ c.compression = some .zstd ∧
    c.partSize = 0 ∧ save .empty p c = .ok t' ∧ load t' p = .ok c ∧
    t.read p = .ok (Bytes.ofText
      "\x7b\"more\":null,\"ackPolicy\":\"none\",\"compressionLevel\":-5\x7d") ∧
    load t p = .ok { usual with compressionLevel := -5, ackPolicy := .none } := by
  let c : Config := { usual with
    partPrefix := "\"\\\n", partSize := 0, compression := some .zstd, compressionLevel := -5,
    ackPolicy := .none }
  let p : Path := Bytes.ofText "a/b"
  let text := "\x7b\"more\":null,\"ackPolicy\":\"none\",\"compressionLevel\":-5\x7d"
  let t : FileTree := ⟨[([Bytes.ofText "a"], .dir),
    ([Bytes.ofText "a", Bytes.ofText "b"], .file (Bytes.ofText text) .epoch)], none⟩
  let gs := c.fields.filter fun f => f.1 ∈ ["compressionLevel", "ackPolicy"]
  let fs : Fields := ("more", .null) :: gs.reverse
  obtain ⟨t', ht'⟩ : ∃ t', save .empty p c = .ok t' := ⟨_, rfl⟩
  have hread : t.read p = .ok (Bytes.ofText text) := rfl
  have hperm : fs.Perm (gs ++ [("more", .null)]) :=
    ((List.reverse_perm gs).cons _).trans (List.perm_append_singleton _ gs).symm
  obtain ⟨hsaved, -, hsome⟩ := read_back_from_file
  obtain ⟨hload, hwritten⟩ := hsome c gs [("more", .null)] fs List.filter_sublist (by decide) hperm
  have htext : Bytes.ofText text = render (.object fs.members) := by decide +kernel
  have hw := (hwritten (by simp [Regular.null])).1
  rw [← htext] at hw
  exact ⟨c, t, t', p, rfl, rfl, rfl, rfl, ht', hsaved _ _ _ _ ht', hread, hload t p text hread hw⟩

end FileRelay.Config
