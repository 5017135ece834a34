/-!
# KeyMap — finite maps from texts, kept in the order of their keys

A **key map** is a list of keys with values in strictly increasing order of the keys, so that it has
one entry for a key and one form for a content.  Texts are ordered by their code points, which is
the order of their UTF-8 octets.  `get?_insert` says what an insertion changes.
-/

namespace FileRelay

/-- A **map from texts**, in the order of its keys. -/
structure KeyMap (α : Type) where
  entries : List (String × α)
  increasing : entries.Pairwise (fun e f => e.1 < f.1)
  deriving DecidableEq

namespace KeyMap

variable {α : Type}

/-- Puts an entry in its place, instead of an entry of the same key. -/
def insertEntry (k : String) (v : α) : List (String × α) → List (String × α)
  | [] => [(k, v)]
  | e :: es =>
    if k < e.1 then (k, v) :: e :: es
    else if k = e.1 then (k, v) :: es
    else e :: insertEntry k v es

theorem mem_insertEntry {k : String} {v : α} {f : String × α} {es : List (String × α)}
    (h : f ∈ insertEntry k v es) : f = (k, v) ∨ f ∈ es := by
  induction es with
  | nil => simpa [insertEntry] using h
  | cons e es ih =>
    unfold insertEntry at h
    split at h
    · simpa using h
    · split at h
      · rcases List.mem_cons.1 h with h | h
        · exact .inl h
        · exact .inr (List.mem_cons_of_mem _ h)
      · rcases List.mem_cons.1 h with h | h
        · exact .inr (h ▸ List.mem_cons_self)
        · exact (ih h).imp_right (List.mem_cons_of_mem _)

theorem pairwise_insertEntry (k : String) (v : α) {es : List (String × α)}
    (h : es.Pairwise fun e f => e.1 < f.1) :
    (insertEntry k v es).Pairwise fun e f => e.1 < f.1 := by
  induction es with
  | nil => simp [insertEntry]
  | cons e es ih =>
    obtain ⟨he, hes⟩ := List.pairwise_cons.1 h
    unfold insertEntry
    split
    · rename_i hk
      refine List.pairwise_cons.2 ⟨fun f hf => ?_, h⟩
      rcases List.mem_cons.1 hf with rfl | hf
      · exact hk
      · exact String.lt_trans hk (he f hf)
    · split
      · rename_i hk
        exact List.pairwise_cons.2 ⟨fun f hf => hk ▸ he f hf, hes⟩
      · rename_i hk hne
        refine List.pairwise_cons.2 ⟨fun f hf => ?_, ih hes⟩
        rcases mem_insertEntry hf with rfl | hf
        · exact Std.lt_of_le_of_ne (String.not_lt.1 hk) (Ne.symm hne)
        · exact he f hf

/-- The map without entries. -/
def empty : KeyMap α := ⟨[], .nil⟩

instance : EmptyCollection (KeyMap α) := ⟨empty⟩
instance : Inhabited (KeyMap α) := ⟨empty⟩

/-- **Sets the value of a key.** -/
def insert (m : KeyMap α) (k : String) (v : α) : KeyMap α :=
  ⟨insertEntry k v m.entries, pairwise_insertEntry k v m.increasing⟩

/-- The value of the first entry of a key. -/
def entryValue? (k : String) : List (String × α) → Option α
  | [] => none
  | e :: es => if k = e.1 then some e.2 else entryValue? k es

/-- The value of a key. -/
def get? (m : KeyMap α) (k : String) : Option α := entryValue? k m.entries

/-- The map of a list of entries, of which later ones count. -/
def ofList (es : List (String × α)) : KeyMap α := es.foldl (fun m e => m.insert e.1 e.2) empty

/-- The keys in order. -/
def keys (m : KeyMap α) : List String := m.entries.map Prod.fst

/-- The number of entries. -/
def size (m : KeyMap α) : Nat := m.entries.length

/-- Is there no entry? -/
def isEmpty (m : KeyMap α) : Bool := m.entries.isEmpty

theorem entryValue?_insertEntry (k k' : String) (v : α) (es : List (String × α)) :
    entryValue? k' (insertEntry k v es) = if k' = k then some v else entryValue? k' es := by
  induction es with
  | nil => rfl
  | cons e es ih =>
    unfold insertEntry
    split
    · rfl
    · split
      · rename_i hk
        by_cases h : k' = k
        · simp [entryValue?, h]
        · simp [entryValue?, h, hk ▸ h]
      · rename_i hne
        by_cases h : k' = e.1
        · simp [entryValue?, h, Ne.symm hne]
        · simp [entryValue?, h, ih]

/-- **An insertion changes the value of its key and no other.** -/
theorem get?_insert (m : KeyMap α) (k k' : String) (v : α) :
    (m.insert k v).get? k' = if k' = k then some v else m.get? k' :=
  entryValue?_insertEntry k k' v m.entries

@[simp] theorem get?_empty (k : String) : (empty : KeyMap α).get? k = none := rfl

end KeyMap

end FileRelay
