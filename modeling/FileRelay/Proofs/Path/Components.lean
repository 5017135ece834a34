import FileRelay.Path.Components
import FileRelay.Proofs.Text.Octets

/-!
# Proofs/Path/Components — segments of joined paths and of texts

The segments of a path behind a directory are those of the directory and those of the path
(`Path.segments_join`), so its components are the directory's and what the path's segments say
(`Path.components_join`).  The segments of a text's octets are the octets of the text's own
segments (`Path.segments_ofText`).
-/

namespace FileRelay.Path

/-! ## Segments -/

theorem segments_ne_nil (p : Path) : segments p ≠ [] := by
  cases p with
  | nil => exact List.cons_ne_nil _ _
  | cons b p =>
    rw [segments]
    split
    · exact List.cons_ne_nil _ _
    · split <;> exact List.cons_ne_nil _ _

theorem segments_cons (b : UInt8) (p : Path) :
    segments (b :: p) =
      if b = slash then [] :: segments p else (segments p).modifyHead (b :: ·) := by
  obtain ⟨s, ss, hp⟩ := List.exists_cons_of_ne_nil (segments_ne_nil p)
  rw [segments, hp]
  rfl

/-- The segments are what lies between slashes. -/
theorem segments_eq_splitOn (p : Path) : segments p = p.splitOn slash := by
  induction p with
  | nil => rfl
  | cons b p ih => simp only [segments_cons, List.splitOn_cons_eq_if_modifyHead, ih, beq_iff_eq]

/-- **A slash ends a segment.** -/
theorem segments_append_slash (p q : Path) :
    segments (p ++ slash :: q) = segments p ++ segments q := by
  simp only [segments_eq_splitOn, List.splitOn_append_cons_self]

/-- Anything else makes the next segment longer. -/
theorem segments_append {a : Bytes} (h : slash ∉ a) (p : Path) :
    segments (a ++ p) = (segments p).modifyHead (a ++ ·) := by
  induction a with
  | nil => exact (congrFun List.modifyHead_id (segments p)).symm
  | cons b a ih =>
    rw [List.mem_cons, not_or] at h
    rw [List.cons_append, segments_cons, if_neg (Ne.symm h.1), ih h.2, List.modifyHead_modifyHead]
    rfl

/-- There is no slash in a segment. -/
theorem slash_notMem {p : Path} {s : Bytes} (h : s ∈ segments p) : slash ∉ s := by
  induction p generalizing s with
  | nil =>
    obtain rfl := List.mem_singleton.1 h
    exact List.not_mem_nil
  | cons b p ih =>
    obtain ⟨t, ts, hp⟩ := List.exists_cons_of_ne_nil (segments_ne_nil p)
    rw [segments_cons] at h
    rw [hp] at h ih
    split_ifs at h with hb
    · obtain rfl | h := List.mem_cons.1 h
      · exact List.not_mem_nil
      · exact ih h
    · obtain rfl | h := List.mem_cons.1 h
      · rw [List.mem_cons, not_or]
        exact ⟨Ne.symm hb, ih List.mem_cons_self⟩
      · exact ih (List.mem_cons_of_mem _ h)

/-! ## A path behind a directory -/

/-- **The segments of a path behind a directory**: the slash that may end the directory leaves an
empty segment, which is gone. -/
theorem segments_join {dir p : Path} (hdir : dir ≠ []) (hp : isAbsolute p = false) :
    ∃ ss, ss ≠ [] ∧ (segments dir = ss ∨ segments dir = ss ++ [[]]) ∧
      segments (join dir p) = ss ++ segments p := by
  rw [join, if_neg (by rw [hp]; exact Bool.false_ne_true)]
  split_ifs with hopen
  · obtain ⟨d, rfl⟩ := List.getLast?_eq_some_iff.1 (hopen.resolve_left hdir)
    refine ⟨segments d, segments_ne_nil d, .inr (segments_append_slash d []), ?_⟩
    rw [List.append_assoc]
    exact segments_append_slash d p
  · exact ⟨segments dir, segments_ne_nil dir, .inl rfl, segments_append_slash dir p⟩

/-- A path behind a directory begins with it. -/
theorem begins_join {dir p : Path} (hp : isAbsolute p = false) : dir <+: join dir p := by
  rw [join, if_neg (by rw [hp]; exact Bool.false_ne_true)]
  split_ifs <;> exact List.prefix_append _ _

theorem isAbsolute_join {dir p : Path} (hdir : dir ≠ []) (hp : isAbsolute p = false) :
    isAbsolute (join dir p) = isAbsolute dir := by
  obtain ⟨q, hq⟩ := begins_join hp
  rw [isAbsolute, isAbsolute, ← hq, List.head?_append_of_ne_nil dir hdir]

/-- **The components of a path behind a directory** are the directory's and what the segments of
the path say. -/
theorem components_join {dir p : Path} (hdir : dir ≠ []) (hp : isAbsolute p = false) :
    components (join dir p) = components dir ++ (segments p).filterMap component? := by
  obtain ⟨ss, hss, hd, hj⟩ := segments_join hdir hp
  have hhead : (segments dir).head? = ss.head? := by
    rcases hd with hd | hd <;> rw [hd]
    exact List.head?_append_of_ne_nil ss hss
  have hnames : (segments dir).filterMap component? = ss.filterMap component? := by
    rcases hd with hd | hd <;> rw [hd]
    rw [List.filterMap_append]
    exact List.append_nil _
  rw [components, components, isAbsolute_join hdir hp, hhead, hnames, hj,
    List.head?_append_of_ne_nil ss hss, List.filterMap_append, List.append_assoc]

/-! ## What segments say -/

theorem component?_eq_none_iff {s : Bytes} : component? s = none ↔ s = [] ∨ s = [dot] := by
  unfold component?
  split_ifs <;> simp_all

theorem component?_eq_name_iff {s n : Bytes} :
    component? s = some (.name n) ↔ s = n ∧ n ≠ [] ∧ n ≠ [dot] ∧ n ≠ [dot, dot] := by
  unfold component?
  split_ifs with hsilent hup
  · exact ⟨nofun, fun ⟨hs, hne, hdot, _⟩ => absurd (hs ▸ hsilent) (not_or.2 ⟨hne, hdot⟩)⟩
  · exact ⟨nofun, fun ⟨hs, _, _, hdown⟩ => absurd (hs ▸ hup) hdown⟩
  · rw [not_or] at hsilent
    constructor
    · intro h
      obtain rfl : s = n := by simpa using h
      exact ⟨rfl, hsilent.1, hsilent.2, hup⟩
    · rintro ⟨rfl, -⟩
      rfl

/-- The name at the end of a path is a segment of it. -/
theorem mem_segments_of_fileName? {p : Path} {s : Bytes} (h : fileName? p = some s) :
    s ∈ segments p ∧ component? s = some (.name s) := by
  have hlast : (components p).getLast? = some (.name s) := by
    unfold fileName? at h
    split at h
    · rename_i hlast
      rwa [Option.some.inj h] at hlast
    · cases h
  have hmem := List.mem_of_getLast? hlast
  rw [components, List.mem_append] at hmem
  obtain hfirst | hmem := hmem
  · split_ifs at hfirst <;> simp at hfirst
  · obtain ⟨t, ht, hs⟩ := List.mem_filterMap.1 hmem
    obtain rfl := (component?_eq_name_iff.1 hs).1
    exact ⟨ht, hs⟩

/-! ## The segments of a text -/

/-- The slash is an octet of its own character only. -/
theorem slash_mem_utf8EncodeChar {c : Char} : slash ∈ String.utf8EncodeChar c ↔ c = '/' := by
  rw [mem_utf8EncodeChar (by decide)]
  exact ⟨fun h => Char.ext (UInt32.toNat_inj.1 h), fun h => h ▸ rfl⟩

/-- **The segments of a text's octets** are the octets of what lies between its slashes. -/
theorem segments_ofText (s : String) : segments (Bytes.ofText s) =
    (s.toList.splitOn '/').map fun cs => Bytes.ofText (String.ofList cs) := by
  rw [Bytes.ofText_eq_flatMap]
  simp only [Bytes.ofText_ofList]
  induction s.toList with
  | nil => rfl
  | cons c cs ih =>
    rw [List.flatMap_cons, List.splitOn_cons_eq_if_modifyHead]
    by_cases hc : c = '/'
    · subst hc
      rw [if_pos (by simp), List.map_cons, ← ih]
      exact segments_append_slash [] _
    · rw [segments_append (fun h => hc (slash_mem_utf8EncodeChar.1 h)), ih,
        if_neg (by simpa using hc)]
      cases cs.splitOn '/' <;> rfl

/-- **What a segment of a text says.** -/
theorem component?_ofText (cs : List Char) : component? (Bytes.ofText (String.ofList cs)) =
    if cs = [] ∨ cs = ['.'] then none
    else if cs = ['.', '.'] then some .parent
    else some (.name (Bytes.ofText (String.ofList cs))) := by
  have hsame : ∀ ds : List Char,
      Bytes.ofText (String.ofList cs) = Bytes.ofText (String.ofList ds) ↔ cs = ds := by
    refine fun ds => ⟨fun h => ?_, fun h => h ▸ rfl⟩
    exact String.ofList_injective (Bytes.ofText_inj h)
  have hnil : Bytes.ofText (String.ofList cs) = [] ↔ cs = [] := hsame []
  have hdot : Bytes.ofText (String.ofList cs) = [dot] ↔ cs = ['.'] := hsame ['.']
  have hdots : Bytes.ofText (String.ofList cs) = [dot, dot] ↔ cs = ['.', '.'] := hsame ['.', '.']
  simp only [component?, hnil, hdot, hdots]

end FileRelay.Path
