import FileRelay.Proofs.Part.Label
import FileRelay.Proofs.Text.Octets
import FileRelay.Proofs.Transfer.Calls
import FileRelay.Transfer.Catalogue
import Mathlib.Data.List.Induction
import Mathlib.Data.List.Sort

/-!
# Proofs/Transfer/Catalogue — which record of a store a name is looked up as

Of all complete records of a name that a store holds, one is the **latest** (`Store.Latest`): no other
has a later date, and of those of its date it stands under the key that comes first.  The records are
gone through in the order of their keys, and what was found so far is kept unless a later one comes
(`FileRecord.foldl_later`); so the latest one is found (`Exchange.locate_latest`), and the store's
content alone says which that is, not how it came to be there.
-/

namespace FileRelay

open Calendar

namespace FileRecord

variable {name : String} {text : Bytes} {r : FileRecord}

/-- **What counts as a complete record of a name**: a text that is read, validates and has a digest. -/
theorem candidate?_eq_some_iff : candidate? name text = some r ↔
    ofTextUnchecked text = .ok r ∧ r.validate = .ok () ∧ r.name = name ∧ r.isComplete = true := by
  have hread : ofText text = .ok r ↔ ofTextUnchecked text = .ok r ∧ r.validate = .ok () := by
    unfold ofText
    rcases ofTextUnchecked text with e | r'
    · simp [Except.bind]
    · simp only [Except.bind, Except.ok.injEq]
      rcases hv : r'.validate with e | ⟨⟨⟩⟩
      · simp only [Except.map, reduceCtorEq, false_iff, not_and]
        rintro rfl
        simp [hv]
      · simp only [Except.map, Except.ok.injEq]
        exact ⟨by rintro rfl; exact ⟨rfl, hv⟩, And.left⟩
  rw [← and_assoc, ← hread]
  unfold candidate?
  rcases ofText text with e | r'
  · simp
  simp only [Bool.and_eq_true, decide_eq_true_eq, Option.ite_none_right_eq_some, Option.some.injEq,
    Except.ok.injEq]
  constructor
  · rintro ⟨h, rfl⟩
    exact ⟨rfl, h⟩
  · rintro ⟨rfl, h⟩
    exact ⟨h, rfl⟩

/-- **The best of some records**, which stand under keys in order: no other is later, and of those of
its date its key comes first. -/
theorem foldl_later {cs : List (String × FileRecord)} (h : cs.Pairwise fun c d => c.1 < d.1) :
    match (cs.map Prod.snd).foldl later none with
    | none => cs = []
    | some r => ∃ key, (key, r) ∈ cs ∧ ∀ c ∈ cs, c ≠ (key, r) →
        c.2.date.before r.date = true ∨ c.2.date = r.date ∧ key < c.1 := by
  induction cs using List.reverseRecOn with
  | nil => rfl
  | append_singleton cs c ih =>
    obtain ⟨hcs, -, hlast⟩ := List.pairwise_append.1 h
    replace hlast : ∀ d ∈ cs, d.1 < c.1 := fun d hd => hlast d hd c (List.mem_singleton_self c)
    have hbest := ih hcs
    rw [List.map_append, List.foldl_append, List.map_singleton, List.foldl_cons, List.foldl_nil]
    generalize (cs.map Prod.snd).foldl later none = best at hbest ⊢
    rcases best with _ | b
    · obtain rfl : cs = [] := hbest
      exact ⟨c.1, List.mem_singleton_self c, fun d hd hne => absurd (List.mem_singleton.1 hd) hne⟩
    obtain ⟨key, hmem, hothers⟩ := hbest
    rw [later]
    by_cases hlater : b.date.before c.2.date = true
    · rw [if_pos hlater]
      -- a later record takes the place of the best one, and of all that are not later than that
      refine ⟨c.1, List.mem_concat_self, fun d hd hne => .inl ?_⟩
      rcases List.mem_append.1 hd with hd | hd
      · by_cases hd' : d = (key, b)
        · exact hd' ▸ hlater
        · obtain hbefore | ⟨hdate, -⟩ := hothers d hd hd'
          · exact Instant.before_trans hbefore hlater
          · exact hdate ▸ hlater
      · exact absurd (List.mem_singleton.1 hd) hne
    · rw [if_neg hlater]
      refine ⟨key, List.mem_append_left _ hmem, fun d hd hne => ?_⟩
      rcases List.mem_append.1 hd with hd | hd
      · exact hothers d hd hne
      · obtain rfl := List.mem_singleton.1 hd
        by_cases hbefore : d.2.date.before b.date = true
        · exact .inl hbefore
        · exact .inr ⟨Instant.eq_of_not_before (by simpa using hbefore) (by simpa using hlater),
            hlast _ hmem⟩

end FileRecord

/-! ## In a store -/

namespace Store

/-- **A complete record of a name that a store holds** under a key. -/
def Holds (s : Store) (name key : String) (r : FileRecord) : Prop :=
  ∃ text, s.get? key = some text ∧ FileRecord.ofTextUnchecked text = .ok r ∧
    r.validate = .ok () ∧ r.name = name ∧ r.isComplete = true

/-- **The latest complete record of a name**: every other one has an earlier date, or the same one and
a key whose octets come later. -/
structure Latest (s : Store) (name key : String) (r : FileRecord) : Prop where
  holds : s.Holds name key r
  others : ∀ key' r', s.Holds name key' r' → key' ≠ key →
    r'.date.before r.date = true ∨ r'.date = r.date ∧ Bytes.ofText key < Bytes.ofText key'

variable {s s' : Store} {name key key' : String} {r r' : FileRecord}

theorem holds_iff : s.Holds name key r ↔
    (s.get? key).bind (FileRecord.candidate? name) = some r := by
  simp only [Holds, Option.bind_eq_some_iff, FileRecord.candidate?_eq_some_iff]

/-- What a store holds under a key is one record. -/
theorem Holds.unique (h : s.Holds name key r) (h' : s.Holds name key r') : r = r' :=
  Option.some.inj ((holds_iff.1 h).symm.trans (holds_iff.1 h'))

/-- **There is but one latest record.** -/
theorem Latest.unique (h : s.Latest name key r) (h' : s.Latest name key' r') : r = r' := by
  by_cases hkey : key' = key
  · subst hkey
    exact h.holds.unique h'.holds
  · obtain hb | ⟨hdate, hlt⟩ := h.others key' r' h'.holds hkey <;>
      obtain hb' | ⟨hdate', hlt'⟩ := h'.others key r h.holds (Ne.symm hkey)
    · have := Instant.before_trans hb hb'
      simp [Instant.before_irrefl] at this
    · rw [hdate', Instant.before_irrefl] at hb
      simp at hb
    · rw [hdate, Instant.before_irrefl] at hb'
      simp at hb'
    · exact absurd hlt' (List.lt_asymm hlt)

/-- The keys of a store are in order. -/
theorem pairwise_keys (s : Store) : s.keys.Pairwise (· < ·) :=
  List.pairwise_map.2 s.entries.increasing

theorem mem_keys_iff : key ∈ s.keys ↔ (s.get? key).isSome = true := by
  simp only [keys, KeyMap.keys, List.mem_map, Prod.exists, exists_and_right, exists_eq_right,
    KeyMap.mem_entries_iff, get?, Option.isSome_map, Option.isSome_iff_exists]

/-- **Stores of the same content have the same keys**, in the same order. -/
theorem keys_congr (h : ∀ key, s'.get? key = s.get? key) : s'.keys = s.keys := by
  have hirrefl : Std.Irrefl fun k k' : String => k < k' := ⟨String.lt_irrefl⟩
  refine s'.pairwise_keys.eq_of_mem_iff s.pairwise_keys fun key => ?_
  rw [mem_keys_iff, mem_keys_iff, h]

/-- The complete records of a name, with their keys in order. -/
def candidates (s : Store) (name : String) : List (String × FileRecord) :=
  s.keys.filterMap fun k => ((s.get? k).bind (FileRecord.candidate? name)).map (Prod.mk k)

theorem mem_candidates : (key, r) ∈ s.candidates name ↔ s.Holds name key r := by
  simp only [candidates, List.mem_filterMap, Option.map_eq_some_iff, Prod.mk.injEq, holds_iff]
  constructor
  · rintro ⟨k, -, r', hr', rfl, rfl⟩
    exact hr'
  · intro hr
    obtain ⟨text, htext, -⟩ := Option.bind_eq_some_iff.1 hr
    exact ⟨key, mem_keys_iff.2 (by rw [htext]; rfl), r, hr, rfl, rfl⟩

theorem pairwise_candidates (s : Store) (name : String) :
    (s.candidates name).Pairwise fun c d => c.1 < d.1 := by
  refine List.Pairwise.filterMap _ (fun k k' hlt c hc d hd => ?_) s.pairwise_keys
  obtain ⟨-, -, rfl⟩ := Option.map_eq_some_iff.1 hc
  obtain ⟨-, -, rfl⟩ := Option.map_eq_some_iff.1 hd
  exact hlt

/-- The records are the candidates among the texts in the order of the keys. -/
theorem map_candidates (s : Store) (name : String) : (s.candidates name).map Prod.snd
    = (s.keys.filterMap s.get?).filterMap (FileRecord.candidate? name) := by
  rw [candidates, List.map_filterMap, List.filterMap_filterMap]
  congr 1
  funext k
  simp [Option.map_map, Function.comp_def]

/-- **The latest record is found**, if there is one. -/
theorem latest?_eq (s : Store) (name : String) :
    match FileRecord.latest? name (s.keys.filterMap s.get?) with
    | none => ∀ key r, ¬ s.Holds name key r
    | some r => ∃ key, s.Latest name key r := by
  have hbest := FileRecord.foldl_later (s.pairwise_candidates name)
  rw [map_candidates, ← FileRecord.latest?] at hbest
  generalize FileRecord.latest? name (s.keys.filterMap s.get?) = found at hbest ⊢
  rcases found with _ | r
  · intro key r hr
    have hmem := mem_candidates.2 hr
    rw [show s.candidates name = [] from hbest] at hmem
    exact List.not_mem_nil hmem
  · obtain ⟨key, hmem, hothers⟩ := hbest
    refine ⟨key, mem_candidates.1 hmem, fun key' r' hr' hne => ?_⟩
    have hne' : (key', r') ≠ (key, r) := fun h => hne (congrArg Prod.fst h)
    exact (hothers _ (mem_candidates.2 hr') hne').imp_right fun h => ⟨h.1, Bytes.ofText_lt h.2⟩

end Store

/-! ## Looking up -/

namespace Exchange

variable {x : Exchange} {name : String}

/-- **The values of some keys**, of those that have one. -/
theorem Grants.getAll_eq (hx : x.Grants) (keys : List String) :
    (getAll keys x).1 = .ok (keys.filterMap x.store.get?) ∧ (getAll keys x).2.store = x.store := by
  induction keys generalizing x with
  | nil => exact ⟨rfl, rfl⟩
  | cons k keys ih =>
    have hb := (meet_counted x .get).toBeside
    have hget : x.get k = (.ok (x.store.get? k), (x.meet .get).2) := by
      rw [get, hx.attempt_eq, hb.store]
    obtain ⟨hvalues, hstore⟩ := ih (hx.of_rules hb.rules)
    rw [hb.store] at hvalues hstore
    rw [getAll, hget]
    dsimp only
    generalize getAll keys (x.meet .get).2 = rest at hvalues hstore
    obtain ⟨values, x'⟩ := rest
    subst hvalues
    rw [List.filterMap_cons]
    rcases x.store.get? k with _ | value
    all_goals exact ⟨rfl, hstore⟩

/-- **A name is looked up among all texts of the store**, which stays as it is. -/
theorem Grants.locate_eq (hx : x.Grants) (name : String) :
    (x.locate name).1 = ((FileRecord.latest? name (x.store.keys.filterMap x.store.get?)).elim
      (.error (.fileNotFound name)) .ok) ∧ (x.locate name).2.store = x.store := by
  have hb := (meet_counted x .keys).toBeside
  have hkeys : x.keys = (.ok x.store.keys, (x.meet .keys).2) := by
    rw [keys, hx.attempt_eq, hb.store]
  obtain ⟨htexts, hstore⟩ := (hx.of_rules hb.rules).getAll_eq x.store.keys
  rw [hb.store] at htexts hstore
  rw [locate, hkeys]
  dsimp only
  generalize getAll x.store.keys (x.meet .keys).2 = r at htexts hstore
  obtain ⟨texts, x'⟩ := r
  subst htexts
  dsimp only
  rcases FileRecord.latest? name (x.store.keys.filterMap x.store.get?) with _ | r
  · exact ⟨rfl, hstore⟩
  · exact ⟨rfl, hstore⟩

/-- **A name is looked up as its latest complete record.**  It is not found exactly when the store
holds no complete record of the name, whatever else is in it; and if it holds some, one of them is the
latest, and that is found.  The store stays as it is, and whoever sees the same values under the same
keys finds the same. -/
theorem locate_latest (hx : x.Grants) (name : String) :
    ((x.locate name).1 = .error (.fileNotFound name) ↔ ∀ key r, ¬ x.store.Holds name key r) ∧
    ((∃ key r, x.store.Holds name key r) → ∃ key r, x.store.Latest name key r) ∧
    (∀ r, (x.locate name).1 = .ok r ↔ ∃ key, x.store.Latest name key r) ∧
    (x.locate name).2.store = x.store ∧
    ∀ y : Exchange, y.Grants → (∀ key, y.store.get? key = x.store.get? key) →
      (y.locate name).1 = (x.locate name).1 := by
  obtain ⟨hlocate, hstore⟩ := hx.locate_eq name
  have hfound := x.store.latest?_eq name
  have hcongr : ∀ y : Exchange, y.Grants → (∀ key, y.store.get? key = x.store.get? key) →
      (y.locate name).1 = (x.locate name).1 := fun y hy hcontent => by
    rw [hlocate, (hy.locate_eq name).1, Store.keys_congr hcontent, funext hcontent]
  generalize FileRecord.latest? name (x.store.keys.filterMap x.store.get?) = found at hlocate hfound
  rcases found with _ | r
  · refine ⟨⟨fun _ => hfound, fun _ => hlocate⟩, fun ⟨key, r, hr⟩ => absurd hr (hfound key r),
      fun r => ⟨fun h => ?_, fun ⟨key, hr⟩ => absurd hr.holds (hfound key r)⟩, hstore, hcongr⟩
    simp [hlocate] at h
  · obtain ⟨key, hr⟩ := hfound
    refine ⟨⟨fun h => ?_, fun hnone => absurd hr.holds (hnone key r)⟩, fun _ => ⟨key, r, hr⟩,
      fun r' => ?_, hstore, hcongr⟩
    · simp [hlocate] at h
    · rw [hlocate]
      exact ⟨fun h => ⟨key, Except.ok.inj h ▸ hr⟩, fun ⟨_, hr'⟩ => congrArg Except.ok (hr.unique hr')⟩

/-- The record of a file of one octet, of this date. -/
def recordDated (id : String) (date : Instant) : FileRecord :=
  ⟨id, "n", "", "t", 1, 1, 1, 1, date, some "SHA-256", some "00FF", some 1⟩

/-- Of two records of one date the one under the first key is found, although an earlier record and a
value that is no record stand before it; and another name is not found. -/
theorem locate_latest_of_one_date : ∃ (x : Exchange) (late : Instant),
    x.Grants ∧ Instant.epoch.before late = true ∧
      x.store.get? "c" = some (recordDated "c" late).toText ∧
      x.store.get? "d" = some (recordDated "d" late).toText ∧
      x.store.get? "a" = some (recordDated "a" .epoch).toText ∧
      x.store.get? "b" = some [1, 2, 3] ∧
      (x.locate "n").1 = .ok (recordDated "c" late) ∧
      (∃ key, x.store.Latest "n" key (recordDated "c" late)) ∧
      (x.locate "m").1 = .error (.fileNotFound "m") ∧ ∀ key r, ¬ x.store.Holds "m" key r := by
  let late : Instant := ⟨0, 1, by decide⟩
  let puts : List (String × Bytes) := [("d", (recordDated "d" late).toText), ("b", [1, 2, 3]),
    ("a", (recordDated "a" .epoch).toText), ("c", (recordDated "c" late).toText)]
  let s : Store := ⟨KeyMap.ofList (puts.map fun p => (p.1, p.2, 1)), 4⟩
  let x : Exchange := { Exchange.new default .empty with store := s }
  have hx : x.Grants := grants_of_rules_nil rfl
  have hn : (x.locate "n").1 = .ok (recordDated "c" late) := by decide +kernel
  have hm : (x.locate "m").1 = .error (.fileNotFound "m") := by decide +kernel
  exact ⟨x, late, hx, by decide, by decide +kernel, by decide +kernel, by decide +kernel,
    by decide +kernel, hn, ((locate_latest hx "n").2.2.1 _).1 hn, hm, (locate_latest hx "m").1.1 hm⟩

end Exchange

end FileRelay
