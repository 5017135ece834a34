import FileRelay.Path.FileTree
import FileRelay.Proofs.Path.OutputName

/-!
# Proofs/Path/FileTree — what making directories and writing a file add to a tree

Changing a file leaves the names of a tree as they are (`FileTree.sameNames_change`), and what is new
after directories were made is a directory (`FileTree.extends_makeDirs`).  A file that is written
under a bare name behind a directory is directly in the directory (`FileTree.write_join`), and what
was written is read under the same path (`FileTree.read_of_write`).
-/

namespace FileRelay

open FileRelay.Path

/-- **The steps of a bare name** are the segment that it says, among dots. -/
theorem Path.IsBareName.steps_eq {name : String} {s : List Char} (h : IsBareName name s) :
    ∃ before after, FileTree.steps (Bytes.ofText name) =
        before ++ Bytes.ofText (String.ofList s) :: after ∧
      (∀ t ∈ before, t = [dot]) ∧ ∀ t ∈ after, t = [dot] := by
  obtain ⟨as, n, bs, hsegments, has, hn, hbs⟩ :=
    List.filterMap_eq_cons_iff.1 h.filterMap_segments_eq
  obtain ⟨rfl, hne, -, -⟩ := component?_eq_name_iff.1 hn
  have hdots : ∀ l : List Bytes, (∀ t ∈ l, component? t = none) →
      ∀ t ∈ l.filter (· ≠ []), t = [dot] := by
    intro l hl t ht
    obtain ⟨ht, hsome⟩ := List.mem_filter.1 ht
    exact (component?_eq_none_iff.1 (hl t ht)).resolve_left (by simpa using hsome)
  refine ⟨as.filter (· ≠ []), bs.filter (· ≠ []), ?_, hdots as has,
    hdots bs (List.filterMap_eq_nil_iff.1 hbs)⟩
  rw [FileTree.steps, hsegments, List.filter_append, List.filter_cons_of_pos (by simpa using hne)]

namespace FileTree

/-! ## The names of a tree -/

/-- The names that lead to something. -/
def names (t : FileTree) : List (List Bytes) := t.entries.map Prod.fst

@[simp] theorem mem_names_put {t : FileTree} {ns ms : List Bytes} {e : Entry} :
    ms ∈ (t.put ns e).names ↔ ms ∈ t.names ∨ ms = ns := by
  by_cases h : ms = ns <;> simp [names, put, h]

/-- **The same names lead to something**, whatever it is. -/
def SameNames (t t' : FileTree) : Prop := ∀ ns, ns ∈ t'.names ↔ ns ∈ t.names

namespace SameNames

variable {t t' t'' : FileTree}

theorem refl (t : FileTree) : SameNames t t := fun _ => Iff.rfl

theorem trans (h : SameNames t t') (h' : SameNames t' t'') : SameNames t t'' :=
  fun ns => (h' ns).trans (h ns)

end SameNames

/-- A file that is at some names is found by them. -/
theorem mem_names_of_entry? {t : FileTree} {ns : List Bytes} {content : Bytes}
    {modified : Calendar.Instant} (h : t.entry? (.below ns) = some (.file content modified)) :
    ns ∈ t.names := by
  rcases ns with _ | ⟨n, ns⟩
  · cases h
  · obtain ⟨as, bs, hentries, -⟩ := List.lookup_eq_some_iff.1 h
    rw [names, hentries, List.map_append, List.map_cons]
    exact List.mem_append_right _ List.mem_cons_self

/-- **Changing a file leaves the names as they are.** -/
theorem sameNames_change (t : FileTree) (p : Path) (f : Bytes → Bytes) :
    SameNames t (t.change p f) := by
  unfold change
  split
  · split
    · rename_i hfile
      intro ms
      rw [mem_names_put]
      exact ⟨fun h => h.elim id fun h => h ▸ mem_names_of_entry? hfile, .inl⟩
    · exact .refl t
  · exact .refl t

/-- **A tree in which directories were made**: what is new is a directory. -/
structure Extends (t t' : FileTree) : Prop where
  names : ∀ ns ∈ t'.names, ns ∈ t.names ∨ (ns, Entry.dir) ∈ t'.entries
  dirs : ∀ ns, (ns, Entry.dir) ∈ t.entries → (ns, Entry.dir) ∈ t'.entries

namespace Extends

variable {t t' t'' : FileTree}

theorem refl (t : FileTree) : Extends t t := ⟨fun _ h => .inl h, fun _ h => h⟩

theorem trans (h : Extends t t') (h' : Extends t' t'') : Extends t t'' where
  names ns hns := (h'.names ns hns).elim
    (fun hns => (h.names ns hns).imp_right (h'.dirs ns)) .inr
  dirs ns hns := h'.dirs ns (h.dirs ns hns)

theorem put_dir (t : FileTree) (ns : List Bytes) : Extends t (t.put ns .dir) where
  names ms hms := (mem_names_put.1 hms).imp_right fun h => by simp [put, h]
  dirs ms hms := by by_cases h : ms = ns <;> simp [put, h, hms]

end Extends

section

variable {t t' : FileTree} {p : Path}

theorem extends_makeDir (h : t.makeDir p = .ok t') : Extends t t' := by
  unfold makeDir at h
  obtain ⟨o, -, h⟩ := ok_of_bind h
  split at h
  · cases h
  · cases h
  · split_ifs at h
    obtain rfl := Except.ok.inj h
    exact .put_dir t _

theorem extends_ensureDir (h : t.ensureDir p = .ok t') : Extends t t' := by
  unfold ensureDir at h
  split at h
  · rename_i hmake
    obtain rfl := Except.ok.inj h
    exact extends_makeDir hmake
  · split_ifs at h
    obtain rfl := Except.ok.inj h
    exact .refl t

/-- **What is new after directories were made is a directory.** -/
theorem extends_makeDirs (h : t.makeDirs p = .ok t') : Extends t t' := by
  suffices key : ∀ n t t' p, makeDirsWithin n t p = .ok t' → Extends t t' from key _ _ _ _ h
  intro n
  induction n with
  | zero => exact fun _ _ _ h => nomatch h
  | succ n ih =>
    intro t t' p h
    unfold makeDirsWithin at h
    split_ifs at h
    · exact Except.ok.inj h ▸ .refl t
    -- the directories above are made only where there was nothing to make this one in
    split at h
    · split at h
      · cases h
      · obtain ⟨t₁, hmade, h⟩ := ok_of_bind h
        exact (ih _ _ _ hmade).trans (extends_ensureDir h)
    · exact extends_ensureDir h

end

/-! ## Paths that lead somewhere -/

theorem steps_join {dir p : Path} (hdir : dir ≠ []) (hp : isAbsolute p = false) :
    steps (join dir p) = steps dir ++ steps p := by
  obtain ⟨ss, -, hd, hj⟩ := segments_join hdir hp
  have hsteps : steps dir = ss.filter (· ≠ []) := by
    rw [steps]
    rcases hd with hd | hd <;> rw [hd]
    rw [List.filter_append]
    exact List.append_nil _
  rw [hsteps, steps, hj, List.filter_append, steps]

section

variable {t t' : FileTree} {p dir : Path} {place place' : Place}

/-- Dots lead nowhere else. -/
theorem enter_dots {ds : List Bytes} (hds : ∀ s ∈ ds, s = [dot])
    (h : ds.foldlM t.enter place = .ok place') : place' = place := by
  induction ds with
  | nil => exact (Except.ok.inj h).symm
  | cons s ds ih =>
    obtain rfl := hds s List.mem_cons_self
    rw [List.foldlM_cons] at h
    obtain ⟨q, hq, h⟩ := ok_of_bind h
    obtain ⟨-, -, hq⟩ := ok_of_bind hq
    rw [if_pos rfl] at hq
    obtain rfl := Except.ok.inj hq
    exact ih (fun s hs => hds s (List.mem_cons_of_mem _ hs)) h

/-- A path behind a directory can be only if the directory can. -/
theorem checkPath_of_join (hdir : dir ≠ []) (hp : isAbsolute p = false)
    (h : checkPath (join dir p) = .ok ()) : checkPath dir = .ok () := by
  have hbegins : dir <+: join dir p := begins_join hp
  unfold checkPath at h ⊢
  split_ifs at h with hnull hempty hlong
  have hlength := hbegins.length_le
  rw [if_neg fun hn => hnull (by simpa using hbegins.subset (by simpa using hn)),
    if_neg (by simpa using hdir), if_neg (by omega)]

/-- A path behind a directory begins where the directory begins. -/
theorem origin_join (hdir : dir ≠ []) (hp : isAbsolute p = false) :
    t.origin (join dir p) = t.origin dir := by
  rw [origin, origin, isAbsolute_join hdir hp]

/-- A name can only be in a directory below the top. -/
theorem child_eq_ok {name : Bytes} {q : Place} (h : child place name = .ok q) :
    ∃ ns, place = .below ns ∧ q = .below (ns ++ [name]) := by
  unfold child at h
  split_ifs at h
  split at h
  · cases h
  · exact ⟨_, rfl, (Except.ok.inj h).symm⟩

/-- A path whose steps lead to a directory leads there. -/
theorem resolve_of_steps (hcheck : checkPath p = .ok ())
    (hsteps : (steps p).foldlM t.enter (t.origin p) = .ok place)
    (hrequire : t.requireDir place = .ok ()) : t.resolve p = .ok place := by
  unfold resolve
  rw [hcheck]
  simp only [hsteps, hrequire, bind, Except.bind]
  split_ifs <;> rfl

/-- **What the target of a path is put together from**: the directory that its last step begins at,
and that step. -/
theorem target_cases {before : List Bytes} {last : Bytes} {o : Option Place}
    (hp : steps p = before ++ [last]) (h : t.target p = .ok o) :
    checkPath p = .ok () ∧ ∃ place, before.foldlM t.enter (t.origin p) = .ok place ∧
      t.requireDir place = .ok () ∧
      (o = none ∨ (last ≠ [dot] ∧ last ≠ [dot, dot]) ∧
        ∃ q, child place last = .ok q ∧ o = some q) := by
  unfold target at h
  obtain ⟨⟨⟩, hcheck, h⟩ := ok_of_bind h
  rw [hp, List.reverse_append, List.reverse_singleton, List.singleton_append] at h
  dsimp only at h
  rw [List.reverse_reverse] at h
  obtain ⟨place, hplace, h⟩ := ok_of_bind h
  obtain ⟨⟨⟩, hrequire, h⟩ := ok_of_bind h
  refine ⟨hcheck, place, hplace, hrequire, ?_⟩
  split_ifs at h with hlast
  · exact .inl (Except.ok.inj h).symm
  · rw [not_or] at hlast
    rcases hchild : child place last with e | q
    · rw [hchild] at h
      cases h
    · rw [hchild] at h
      exact .inr ⟨hlast, q, rfl, (Except.ok.inj h).symm⟩

/-- **A path that leads to a name**: its last step would be at these names below the top, in a
directory that is there. -/
structure LeadsTo (t : FileTree) (p : Path) (before : List Bytes) (last : Bytes) (place : Place)
    (ns : List Bytes) : Prop where
  check : checkPath p = .ok ()
  steps : steps p = before ++ [last]
  directory : before.foldlM t.enter (t.origin p) = .ok place
  isDir : t.requireDir place = .ok ()
  isName : last ≠ [dot] ∧ last ≠ [dot, dot]
  child : child place last = .ok (.below ns)
  closed : endsOpen p = false

/-- **What writing a file does**: it puts the file at the name that the path leads to. -/
theorem write_cases {content : Bytes} {modified : Calendar.Instant}
    (h : t.write p content modified = .ok t') : ∃ before last place ns,
      LeadsTo t p before last place ns ∧ t.entry? (.below ns) ≠ some .dir ∧
      t' = t.put ns (.file content modified) := by
  unfold write at h
  obtain ⟨o, ho, h⟩ := ok_of_bind h
  obtain hnil | ⟨before, last, hsteps⟩ := List.eq_nil_or_concat (steps p)
  · unfold target at ho
    obtain ⟨⟨⟩, -, ho⟩ := ok_of_bind ho
    rw [hnil] at ho
    obtain rfl := Except.ok.inj ho
    cases h
  rw [List.concat_eq_append] at hsteps
  obtain ⟨hcheck, place, hplace, hrequire, rfl | ⟨hlast, q, hchild, rfl⟩⟩ := target_cases hsteps ho
  · cases h
  obtain ⟨ns, rfl, rfl⟩ := child_eq_ok hchild
  dsimp only at h
  split_ifs at h with hopen
  split at h
  · cases h
  · rename_i hdir
    exact ⟨before, last, _, _,
      ⟨hcheck, hsteps, hplace, hrequire, hlast, hchild, by simpa using hopen⟩,
      fun hd => hdir hd, (Except.ok.inj h).symm⟩

/-- **What is written under a bare name behind a directory** is put directly in the directory. -/
theorem write_join {name : String} {s : List Char} (hbare : IsBareName name s) (hdir : dir ≠ [])
    {content : Bytes} {modified : Calendar.Instant}
    (h : t.write (join dir (Bytes.ofText name)) content modified = .ok t') :
    ∃ ns, t.resolve dir = .ok (.below ns) ∧
      t' = t.put (ns ++ [Bytes.ofText (String.ofList s)]) (.file content modified) := by
  obtain ⟨before, last, place, ns, hleads, -, rfl⟩ := write_cases h
  have hrelative := hbare.isAbsolute_eq_false
  obtain ⟨dots, after, hsteps, hdots, hafter⟩ := hbare.steps_eq
  have hjoin := steps_join hdir hrelative
  rw [hleads.steps, hsteps, ← List.append_assoc] at hjoin
  -- what follows the segment are dots, but the last step is a name
  obtain rfl | ⟨after, dot, rfl⟩ := List.eq_nil_or_concat after
  swap
  · rw [List.concat_eq_append, ← List.cons_append, ← List.append_assoc] at hjoin
    have hlast := hafter dot (by simp)
    rw [← List.singleton_inj.1 (List.append_inj' hjoin rfl).2] at hlast
    exact absurd hlast hleads.isName.1
  obtain ⟨rfl, hlast⟩ := List.append_inj' hjoin rfl
  obtain rfl := List.singleton_inj.1 hlast
  have hdirectory := hleads.directory
  rw [List.foldlM_append, origin_join hdir hrelative] at hdirectory
  obtain ⟨place', hdirectory, hplace⟩ := ok_of_bind hdirectory
  obtain rfl := enter_dots hdots hplace
  obtain ⟨ms, rfl, hns⟩ := child_eq_ok hleads.child
  obtain rfl := Place.below.inj hns
  exact ⟨ms, resolve_of_steps (checkPath_of_join hdir hrelative hleads.check) hdirectory
    hleads.isDir, rfl⟩

end

/-! ## Reading what was written -/

theorem entry?_put_self (t : FileTree) {ns : List Bytes} (hns : ns ≠ []) (e : Entry) :
    entry? (t.put ns e) (.below ns) = some e := by
  obtain ⟨n, ns, rfl⟩ := List.exists_cons_of_ne_nil hns
  have hnone : (t.entries.filter fun x => x.1 ≠ n :: ns).lookup (n :: ns) = none :=
    List.lookup_eq_none_iff.2 fun x hx => by
      simpa using Ne.symm (by simpa using (List.mem_filter.1 hx).2)
  rw [ entry?, put, List.lookup_append, hnone]
  · simp
  · exact nofun

theorem entry?_put_of_ne (t : FileTree) {ns ms : List Bytes} (h : ms ≠ ns) (e : Entry) :
    entry? (t.put ns e) (.below ms) = t.entry? (.below ms) := by
  rcases ms with _ | ⟨m, ms⟩
  · rfl
  have hfilter : ∀ es : List (List Bytes × Entry),
      (es.filter fun x => x.1 ≠ ns).lookup (m :: ms) = es.lookup (m :: ms) := fun es => by
    induction es with
    | nil => rfl
    | cons x es ih =>
      by_cases hx : x.1 = ns
      · rw [List.filter_cons_of_neg (by simpa using hx), ih, List.lookup_cons,
          beq_eq_false_iff_ne.2 (hx ▸ h)]
      · rw [List.filter_cons_of_pos (by simpa using hx), List.lookup_cons, List.lookup_cons, ih]
  rw [ entry?, put, List.lookup_append, hfilter, List.lookup_cons, beq_eq_false_iff_ne.2 h]
  · simp [ entry?]
  · exact nofun

theorem requireDir_eq_ok_iff {t : FileTree} {place : Place} :
    t.requireDir place = .ok () ↔ t.entry? place = some .dir := by
  unfold requireDir
  split <;> simp_all

/-- **A tree that keeps what is in another**: directories stay, and nothing goes. -/
structure Keeps (t t' : FileTree) : Prop where
  here : t'.here = t.here
  dirs : ∀ place, t.entry? place = some .dir → t'.entry? place = some .dir
  isSome : ∀ place, (t.entry? place).isSome → (t'.entry? place).isSome

/-- An entry where no directory was keeps everything. -/
theorem keeps_put {t : FileTree} {ns : List Bytes} (hns : ns ≠ [])
    (h : t.entry? (.below ns) ≠ some .dir) (e : Entry) : Keeps t (t.put ns e) := by
  have hother : ∀ place, place ≠ .below ns → entry? (t.put ns e) place = t.entry? place := by
    rintro (ms | _) hne
    · exact entry?_put_of_ne t (fun hms => hne (congrArg Place.below hms)) e
    · rfl
  refine ⟨rfl, fun place hdir => ?_, fun place hsome => ?_⟩
  · rwa [hother place fun hplace => h (hplace ▸ hdir)]
  · by_cases hplace : place = .below ns
    · rw [hplace, entry?_put_self t hns]
      rfl
    · rwa [hother place hplace]

section

variable {t t' : FileTree} {p : Path} {place place' : Place}

/-- A name in a directory is a segment further. -/
theorem enter_name {s : Bytes} (hdir : t.requireDir place = .ok ())
    (hs : s ≠ [dot] ∧ s ≠ [dot, dot]) (hchild : child place s = .ok place')
    (hsome : (t.entry? place').isSome) : t.enter place s = .ok place' := by
  unfold enter
  rw [hdir]
  simp only [bind, Except.bind, if_neg hs.1, if_neg hs.2, hchild, if_pos hsome]

namespace Keeps

theorem requireDir (h : Keeps t t') (hdir : t.requireDir place = .ok ()) :
    t'.requireDir place = .ok () :=
  requireDir_eq_ok_iff.2 (h.dirs place (requireDir_eq_ok_iff.1 hdir))

/-- **A segment that leads further still does.** -/
theorem enter (h : Keeps t t') {s : Bytes} (hs : t.enter place s = .ok place') :
    t'.enter place s = .ok place' := by
  have habove : t'.above place = t.above place := by
    rcases place with (_ | _) | _ <;> simp only [above, h.here]
  unfold FileTree.enter at hs ⊢
  obtain ⟨⟨⟩, hdir, hs⟩ := ok_of_bind hs
  rw [h.requireDir hdir]
  change (if s = [dot] then _ else _) = _
  split_ifs at hs ⊢
  · exact hs
  · rwa [habove]
  · obtain ⟨q, hq, hs⟩ := ok_of_bind hs
    split_ifs at hs with hsome
    obtain rfl := Except.ok.inj hs
    rw [hq]
    exact if_pos (h.isSome q hsome)

/-- And so does a row of segments. -/
theorem foldlM_enter (h : Keeps t t') {ss : List Bytes}
    (hs : ss.foldlM t.enter place = .ok place') : ss.foldlM t'.enter place = .ok place' := by
  induction ss generalizing place with
  | nil => exact hs
  | cons s ss ih =>
    rw [List.foldlM_cons] at hs ⊢
    obtain ⟨q, hq, hs⟩ := ok_of_bind hs
    rw [h.enter hq]
    exact ih hs

end Keeps

namespace LeadsTo

variable {before ns : List Bytes} {last : Bytes}

theorem ne_nil (h : LeadsTo t p before last place ns) : ns ≠ [] := by
  obtain ⟨ms, -, hns⟩ := child_eq_ok h.child
  simp [Place.below.inj hns]

theorem of_keeps (h : LeadsTo t p before last place ns) (hkeeps : Keeps t t') :
    LeadsTo t' p before last place ns where
  __ := h
  directory := by
    have horigin : t'.origin p = t.origin p := by simp only [origin, hkeeps.here]
    rw [horigin]
    exact hkeeps.foldlM_enter h.directory
  isDir := hkeeps.requireDir h.isDir

/-- **The path leads there** once something is there. -/
theorem resolve (h : LeadsTo t p before last place ns) (hsome : (t.entry? (.below ns)).isSome) :
    t.resolve p = .ok (.below ns) := by
  have hlast := enter_name h.isDir h.isName h.child hsome
  unfold FileTree.resolve
  rw [h.check, h.steps, List.foldlM_append, h.directory]
  simp only [bind, Except.bind, List.foldlM_cons, List.foldlM_nil, hlast, h.closed]
  rfl

end LeadsTo

/-- **What was written is read** under the same path. -/
theorem read_of_write {content : Bytes} {modified : Calendar.Instant}
    (h : t.write p content modified = .ok t') : t'.read p = .ok content := by
  obtain ⟨before, last, place, ns, hleads, hdir, rfl⟩ := write_cases h
  have hne := hleads.ne_nil
  have hfile := entry?_put_self t hne (.file content modified)
  have hresolve := (hleads.of_keeps (keeps_put hne hdir _)).resolve (by rw [hfile]; rfl)
  rw [read, stat, hresolve]
  simp only [Except.bind, hfile]

/-- Where a file is read, there is something. -/
theorem pathExists_of_read {content : Bytes} (h : t.read p = .ok content) :
    t.pathExists p = true := by
  unfold read at h
  rcases hstat : t.stat p with why | e
  · rw [hstat] at h
    cases h
  · rw [pathExists, hstat]

end

end FileTree

end FileRelay
