import FileRelay.Path.OutputName
import FileRelay.Proofs.Path.Components
import FileRelay.Proofs.Text.Lossy

/-!
# Proofs/Path/OutputName — which names a file may be written under

A name is accepted exactly when it is a **bare name**: a text that shows, does not begin with a
slash, and has one segment that says something, which is not the parent (`checkOutputName_iff`).
Behind a directory such a name is that segment alone (`IsBareName.components_join`).  The last name
of a path is bare as a text whenever the text shows (`isBareName_lossyText`).
-/

namespace FileRelay.Path

/-! ## The names that are accepted -/

/-- The segments of a text that say something: neither empty nor a dot. -/
def tellingSegments (name : String) : List (List Char) :=
  (name.toList.splitOn '/').filter fun s => s ≠ [] ∧ s ≠ ['.']

/-- **A bare name** of a segment: it shows, does not begin at the root and says the segment alone,
which does not lead up. -/
structure IsBareName (name : String) (s : List Char) : Prop where
  shows : ∃ c ∈ name.toList, Text.isBlank c = false
  relative : name.toList.head? ≠ some '/'
  only : tellingSegments name = [s]
  down : s ≠ ['.', '.']

/-- What a telling segment says. -/
def Component.ofSegment (s : List Char) : Component :=
  if s = ['.', '.'] then parent else name (Bytes.ofText (String.ofList s))

/-- **The octets of a text say what its telling segments say.** -/
theorem filterMap_segments (name : String) :
    (segments (Bytes.ofText name)).filterMap component? =
      (tellingSegments name).map Component.ofSegment := by
  rw [segments_ofText, List.filterMap_map, tellingSegments, ← List.filterMap_eq_map,
    List.filterMap_filter]
  refine List.filterMap_congr fun s _ => ?_
  simp only [Function.comp_apply, component?_ofText, Component.ofSegment]
  split_ifs <;> simp_all

/-- The octets of a text begin at the root when the text does. -/
theorem isAbsolute_ofText (name : String) :
    isAbsolute (Bytes.ofText name) = true ↔ name.toList.head? = some '/' := by
  rw [isAbsolute, Bytes.ofText_eq_flatMap]
  cases name.toList with
  | nil => decide
  | cons c cs =>
    have hpos : 0 < (String.utf8EncodeChar c).length := by
      rw [String.length_utf8EncodeChar]
      exact c.utf8Size_pos
    obtain ⟨b, bs, hc⟩ := List.exists_cons_of_length_pos hpos
    rw [List.flatMap_cons, hc, List.cons_append, List.head?_cons, List.head?_cons, beq_iff_eq,
      Option.some_inj, Option.some_inj]
    constructor
    · rintro rfl
      exact slash_mem_utf8EncodeChar.1 (hc ▸ List.mem_cons_self)
    · rintro rfl
      exact (List.cons.inj hc).1.symm

/-- One segment that does not lead up is one name and no parent. -/
theorem exists_eq_singleton_iff (ss : List (List Char)) :
    (∃ s, ss = [s] ∧ s ≠ ['.', '.']) ↔ Component.parent ∉ ss.map Component.ofSegment ∧
      (ss.map Component.ofSegment).countP Component.isName = 1 := by
  constructor
  · rintro ⟨s, rfl, hs⟩
    simp [Component.ofSegment, hs, Component.isName]
  · rintro ⟨hdown, hone⟩
    have hnames : ∀ c ∈ ss.map Component.ofSegment, c.isName = true := by
      intro c hc
      obtain ⟨s, -, rfl⟩ := List.mem_map.1 hc
      unfold Component.ofSegment at hc ⊢
      split_ifs at hc ⊢
      · exact absurd hc hdown
      · rfl
    rw [List.countP_eq_length.2 hnames, List.length_map, List.length_eq_one_iff] at hone
    obtain ⟨s, rfl⟩ := hone
    refine ⟨s, rfl, ?_⟩
    rintro rfl
    exact hdown List.mem_cons_self

/-- The components of a text that does not begin at the root: perhaps the current directory, and
what its telling segments say. -/
theorem components_ofText {name : String} (h : isAbsolute (Bytes.ofText name) = false) :
    ∃ first, (first = [] ∨ first = [.current]) ∧ components (Bytes.ofText name) =
      first ++ (tellingSegments name).map Component.ofSegment := by
  rw [components, h, filterMap_segments, if_neg Bool.false_ne_true]
  refine ⟨_, ?_, rfl⟩
  by_cases hdot : (segments (Bytes.ofText name)).head? = some [dot]
  · exact .inr (if_pos hdot)
  · exact .inl (if_neg hdot)

/-- **A name is accepted exactly when it is bare.** -/
theorem checkOutputName_iff (name : String) :
    checkOutputName name = .ok () ↔ ∃ s, IsBareName name s := by
  have hchecks : checkOutputName name = .ok () ↔ Text.trim name.toList ≠ [] ∧
      isAbsolute (Bytes.ofText name) = false ∧
      Component.parent ∉ components (Bytes.ofText name) ∧
      (components (Bytes.ofText name)).countP Component.isName = 1 := by
    unfold checkOutputName
    dsimp only
    split_ifs <;> simp_all
  have hshows : Text.trim name.toList ≠ [] ↔ ∃ c ∈ name.toList, Text.isBlank c = false := by
    simp [Text.trim_eq_nil_iff]
  have hrelative : isAbsolute (Bytes.ofText name) = false ↔ name.toList.head? ≠ some '/' := by
    rw [ne_eq, ← isAbsolute_ofText, Bool.not_eq_true]
  have htells : isAbsolute (Bytes.ofText name) = false →
      (Component.parent ∉ components (Bytes.ofText name) ∧
        (components (Bytes.ofText name)).countP Component.isName = 1 ↔
      ∃ s, tellingSegments name = [s] ∧ s ≠ ['.', '.']) := by
    intro h
    obtain ⟨first, hfirst, hc⟩ := components_ofText h
    rw [hc, exists_eq_singleton_iff]
    obtain rfl | rfl := hfirst <;> simp [Component.isName]
  rw [hchecks, hshows]
  constructor
  · rintro ⟨hs, hr, hone⟩
    obtain ⟨s, honly, hdown⟩ := (htells hr).1 hone
    exact ⟨s, hs, hrelative.1 hr, honly, hdown⟩
  · rintro ⟨s, hs, hr, honly, hdown⟩
    have hr := hrelative.2 hr
    exact ⟨hs, hr, (htells hr).2 ⟨s, honly, hdown⟩⟩

namespace IsBareName

variable {name : String} {s : List Char}

theorem isAbsolute_eq_false (h : IsBareName name s) : isAbsolute (Bytes.ofText name) = false := by
  rw [← Bool.not_eq_true, isAbsolute_ofText]
  exact h.relative

/-- The octets of a bare name say its segment alone. -/
theorem filterMap_segments_eq (h : IsBareName name s) :
    (segments (Bytes.ofText name)).filterMap component? =
      [.name (Bytes.ofText (String.ofList s))] := by
  rw [filterMap_segments, h.only, List.map_singleton, Component.ofSegment, if_neg h.down]

/-- **Behind a directory a bare name is its segment.** -/
theorem components_join (h : IsBareName name s) {dir : Path} (hdir : dir ≠ []) :
    components (join dir (Bytes.ofText name)) =
      components dir ++ [.name (Bytes.ofText (String.ofList s))] := by
  rw [Path.components_join hdir h.isAbsolute_eq_false, h.filterMap_segments_eq]

end IsBareName

/-! ## The last names of paths -/

/-- **What says a name is bare as a text**, if the text shows. -/
theorem isBareName_lossyText {p : Path} {s : Bytes} (h : fileName? p = some s)
    (hshows : ∃ c ∈ (Bytes.lossyText s).toList, Text.isBlank c = false) :
    IsBareName (Bytes.lossyText s) (Bytes.lossyText s).toList := by
  obtain ⟨hmem, hname⟩ := mem_segments_of_fileName? h
  have hslash : '/' ∉ (Bytes.lossyText s).toList := fun hc =>
    slash_notMem hmem (Bytes.mem_of_mem_lossyText (by unfold Bytes.IsPlain; decide) hc)
  -- were the text empty or made of dots, it would be made of the same octets
  have hother : ∀ cs : List Char, (∀ c ∈ cs, Bytes.IsPlain c) →
      component? (Bytes.ofText (String.ofList cs)) ≠ some (.name s) →
      (Bytes.lossyText s).toList ≠ cs := by
    rintro cs hcs hne rfl
    rw [String.ofList_toList, Bytes.ofText_lossyText hcs] at hne
    exact hne hname
  have hplain : Bytes.IsPlain '.' := by unfold Bytes.IsPlain; decide
  have hempty := hother [] nofun (by rw [component?_ofText]; simp)
  have hdot := hother ['.'] (by simpa using hplain) (by rw [component?_ofText]; simp)
  have hdots := hother ['.', '.'] (by simpa using hplain) (by rw [component?_ofText]; simp)
  refine ⟨hshows, fun hhead => hslash (List.mem_of_head? hhead), ?_, hdots⟩
  rw [tellingSegments, List.splitOn_eq_singleton hslash]
  simp [hempty, hdot]

end FileRelay.Path
