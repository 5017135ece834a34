import FileRelay.Proofs.Json.Value

/-!
# Proofs/Json/Fields — fields that were written are read back

The fields of a record are found again under their names (`Fields.ofValue?_object`), in whatever
order and among whatever others they stand (`Fields.ofValue?_of_named`), and so is the value of each
kind of field (`text?_ofText`, `word?_ofNat`, `halfWord?_ofNat`, `signed?_ofInt`).  Readers of fields
do not tell one way to write a text from another (`Alike`).
-/

namespace FileRelay.Json

/-! ## Values -/

/-- **A text is read back.** -/
theorem text?_ofText (s : String) : text? (ofText s) = some s := decode?_escape s

theorem natural?_ofNat (n : Nat) : natural? (ofNat n) = some n := by
  simp only [natural?, ofNat, asChars_map (Text.Decimal.isDigit_digits n),
    Text.Decimal.value?_digits]

/-- **A word is read back.** -/
theorem word?_ofNat (n : UInt64) : word? (ofNat n.toNat) = some n := by
  rw [word?, natural?_ofNat, Option.bind_some, Word.ofNat?_toNat]

/-- **A 32-bit word is read back.** -/
theorem halfWord?_ofNat (n : UInt32) : halfWord? (ofNat n.toNat) = some n := by
  rw [halfWord?, natural?_ofNat, Option.bind_some, if_pos n.toNat_lt, UInt32.ofNat_toNat]

/-- **An integer is read back.** -/
theorem integer?_ofInt : ∀ n : Int, integer? (ofInt n) = some n
  | .ofNat n => by
    obtain ⟨b, s, hs, hb⟩ := digits_eq_cons n
    have hminus := ne_minus_of_isDigit hb
    have hnatural := natural?_ofNat n
    rw [ofNat, hs] at hnatural
    rw [ofInt, ofNat, hs, integer?, hnatural]
    · rfl
    · rintro lexeme ⟨⟩
      exact hminus rfl
  | .negSucc n => by
    rw [ofInt, integer?, asChars_map (Text.Decimal.isDigit_digits (n + 1)),
      Text.Decimal.value?_digits]
    rfl

/-- **A signed 32-bit number is read back.** -/
theorem signed?_ofInt (n : Int32) : signed? (ofInt n.toInt) = some n := by
  rw [signed?, integer?_ofInt, Option.bind_some,
    if_pos ⟨Int32.minValue_le_toInt n, Int32.toInt_le n⟩, Int32.ofInt_toInt]

/-- **A name is read back** as what has it. -/
theorem choice?_ofText {α : Type} (choices : List (String × α)) (k : String) :
    choice? choices (ofText k) = choices.lookup k := by
  rw [ofText, choice?, decode?_escape, Option.bind_some]

/-! ## Ways to write a value -/

/-- **Two ways to write a value**: the same one, or two strings that stand for the same text. -/
inductive Alike : Value → Value → Prop
  | refl (v : Value) : Alike v v
  | string {body body' : Bytes} {s : String} (h : decode? body = some s)
      (h' : decode? body' = some s) : Alike (.string body) (.string body')

/-- A reader that does not tell them apart. -/
def Respects {α : Type} (read : Value → Option α) : Prop := ∀ v w, Alike v w → read v = read w

theorem respects_text? : Respects text? := by
  rintro _ _ (_ | ⟨h, h'⟩)
  · rfl
  · exact h.trans h'.symm

theorem respects_choice? {α : Type} (choices : List (String × α)) : Respects (choice? choices) := by
  rintro _ _ (_ | ⟨h, h'⟩)
  · rfl
  · rw [choice?, choice?, h, h']

theorem respects_word? : Respects word? := by
  rintro _ _ (_ | _) <;> rfl

theorem respects_halfWord? : Respects halfWord? := by
  rintro _ _ (_ | _) <;> rfl

theorem respects_signed? : Respects signed? := by
  rintro _ _ (_ | _) <;> rfl

namespace Fields

/-! ## Fields -/

/-- The field that is there if a value is. -/
def ifSome {α : Type} (write : α → Value) (name : String) : Option α → Fields
  | none => []
  | some a => [(name, write a)]

/-- The members that fields are written as. -/
def members (fs : Fields) : List (Bytes × Value) := fs.map fun f => member f.1 f.2

theorem members_append (fs gs : Fields) : members (fs ++ gs) = fs.members ++ gs.members :=
  List.map_append

theorem members_ifSome {α : Type} (write : α → Value) (name : String) (o : Option α) :
    (ifSome write name o).members = memberIfSome write name o := by
  cases o <;> rfl

theorem regular_ifSome {α : Type} {write : α → Value} (h : ∀ a, Regular (write a)) (name : String)
    (o : Option α) : ∀ f ∈ ifSome write name o, Regular f.2 := by
  cases o with
  | none => simp [ifSome]
  | some a => simp [ifSome, h a]

theorem names_ifSome {α : Type} (write : α → Value) (name : String) (o : Option α) :
    ((ifSome write name o).map Prod.fst).Sublist [name] := by
  cases o with
  | none => exact List.nil_sublist _
  | some a => exact List.Sublist.refl _

/-- Fields of regular values are a regular object. -/
theorem regular_object {fs : Fields} (h : ∀ f ∈ fs, Regular f.2) : Regular (.object fs.members) := by
  refine .object (fun m hm => ?_) fun m hm => ?_
  all_goals obtain ⟨f, hf, rfl⟩ := List.mem_map.1 hm
  · exact isBody_escape f.1
  · exact h f hf

/-- The names of members are read back. -/
theorem named?_members (fs : Fields) : named? fs.members = some fs := by
  induction fs with
  | nil => rfl
  | cons f fs ih =>
    obtain ⟨k, v⟩ := f
    rw [members, List.map_cons, member, named?, decode?_escape, Option.bind_some]
    rw [members] at ih
    rw [ih]
    rfl

/-- **A text that is an object with these fields**, however it is laid out. -/
def WrittenAs (fs : Fields) (text : Bytes) : Prop :=
  ∃ ms, parse? text = some (.object ms) ∧ named? ms = some fs

/-- Fields of regular values can be written on one line, or with one field on each. -/
theorem writtenAs_render {fs : Fields} (h : ∀ f ∈ fs, Regular f.2) :
    fs.WrittenAs (render (.object fs.members)) ∧ fs.WrittenAs (renderLines fs.members) :=
  ⟨⟨_, parse?_render (regular_object h), named?_members fs⟩,
    ⟨_, parse?_renderLines (regular_object h), named?_members fs⟩⟩

/-- **No name is twice** in a list of names. -/
theorem distinct_eq_true_iff {ks : List String} : distinct ks = true ↔ ks.Nodup := by
  induction ks with
  | nil => exact iff_of_true rfl List.nodup_nil
  | cons k ks ih => simp [distinct, ih]

/-- The known ones of some fields. -/
def knownOf (known : List String) (fs : Fields) : Fields := fs.filter fun f => known.contains f.1

/-- **The fields of an object** are the known ones among its members, if none of them is twice. -/
theorem ofValue?_of_named {ms : List (Bytes × Value)} {fs : Fields} {known : List String}
    (h : named? ms = some fs) (hd : ((fs.knownOf known).map Prod.fst).Nodup) :
    ofValue? known (.object ms) = some (fs.knownOf known) := by
  rw [ofValue?, h, Option.bind_some]
  exact if_pos (distinct_eq_true_iff.2 hd)

theorem knownOf_eq_self {known : List String} {fs : Fields}
    (h : ∀ f ∈ fs, f.1 ∈ known) : fs.knownOf known = fs :=
  List.filter_eq_self.2 fun f hf => List.contains_iff_mem.2 (h f hf)

/-- They are those that it was written with, if they are known ones in their order. -/
theorem ofValue?_object {fs : Fields} {known : List String}
    (h : (fs.map Prod.fst).Sublist known) (hd : distinct known = true) :
    ofValue? known (.object fs.members) = some fs := by
  have hknown := knownOf_eq_self fun f hf => h.subset (List.mem_map_of_mem hf)
  have hnodup : ((fs.knownOf known).map Prod.fst).Nodup := by
    rw [hknown]
    exact (distinct_eq_true_iff.1 hd).sublist h
  rw [ofValue?_of_named (named?_members fs) hnodup, hknown]

/-! ## Single fields -/

variable {α : Type} (key name : String)

theorem get?_nil : get? [] key = none := rfl

theorem get?_cons (v : Value) (fs : Fields) :
    get? ((name, v) :: fs) key = if key = name then some v else fs.get? key := by
  rw [get?, List.lookup_cons]
  by_cases h : key = name
  · simp [h]
  · rw [beq_eq_false_iff_ne.2 h, if_neg h]
    rfl

theorem get?_append (fs gs : Fields) : get? (fs ++ gs) key = (fs.get? key).or (gs.get? key) :=
  List.lookup_append

theorem get?_ifSome (write : α → Value) (o : Option α) :
    (ifSome write name o).get? key = if key = name then o.map write else none := by
  cases o with
  | none => simp [ifSome, get?_nil]
  | some a => rw [ifSome, get?_cons, get?_nil, Option.map_some]

/-- **A field that may be left out** is read alike wherever it is, and is the usual one else. -/
theorem defaulted?_eq_ite {fs : Fields} {read : Value → Option α} {a usual : α}
    (h : ∀ v, (name, v) ∈ fs → read v = some a) : fs.defaulted? read usual name =
      some (if name ∈ fs.map Prod.fst then a else usual) := by
  unfold defaulted?
  rcases hget : fs.get? name with _ | v
  · rw [if_neg fun hmem => ?_]
    obtain ⟨f, hf, rfl⟩ := List.mem_map.1 hmem
    simpa using List.lookup_eq_none_iff.1 hget f hf
  · have hmem : (name, v) ∈ fs := by
      obtain ⟨as, bs, rfl, -⟩ := List.lookup_eq_some_iff.1 hget
      exact List.mem_append_right _ List.mem_cons_self
    rw [if_pos (List.mem_map_of_mem hmem)]
    exact h v hmem

/-- What a field that may be null can be. -/
def orNull? (read : Value → Option α) : Value → Option (Option α)
  | .null => some none
  | v => (read v).map some

theorem orNull?_of_ne_null {read : Value → Option α} {v : Value} (h : v ≠ .null) :
    orNull? read v = (read v).map some := by
  cases v with
  | null => exact absurd rfl h
  | _ => rfl

theorem respects_orNull? {read : Value → Option α} (h : Respects read) :
    Respects (orNull? read) := by
  rintro _ _ (_ | ⟨hs, hs'⟩)
  · rfl
  · exact congrArg (Option.map some) (h _ _ (.string hs hs'))

/-- A field that may be null is null when it is left out. -/
theorem nullable?_eq_defaulted? (fs : Fields) (read : Value → Option α) :
    fs.nullable? read name = fs.defaulted? (orNull? read) none name := by
  unfold nullable? defaulted?
  rcases fs.get? name with _ | v
  · rfl
  · cases v <;> rfl

/-- A field that may be null is read back. -/
theorem nullable?_eq {fs : Fields} {read : Value → Option α} {write : α → Value} {o : Option α}
    (hread : ∀ a, read (write a) = some a) (hnull : ∀ a, write a ≠ .null)
    (h : fs.get? name = o.map write) : fs.nullable? read name = some o := by
  rw [nullable?_eq_defaulted?, defaulted?, h]
  cases o with
  | none => rfl
  | some a => exact (orNull?_of_ne_null (hnull a)).trans (congrArg (Option.map some) (hread a))

/-- A field that is left out when it has its usual value is read back. -/
theorem defaulted?_eq {fs : Fields} {read : Value → Option α} {write : α → Value} {a usual : α}
    {o : Option α} (hread : ∀ a, read (write a) = some a) (ho : o.getD usual = a)
    (h : fs.get? name = o.map write) : fs.defaulted? read usual name = some a := by
  unfold defaulted?
  rw [h]
  cases o with
  | none => exact congrArg some ho
  | some b => exact (hread b).trans (congrArg some ho)

end Fields

/-! ## Texts of fields -/

section

open Bytes (IsText)

/-- The text of a literal. -/
theorem isText_literal (s : String) : IsText (literal (escape s)) :=
  (IsText.of_all (b := [quote]) rfl).append
    ((isText_escape s).append (.of_all rfl))

theorem isText_ofText (s : String) : IsText (render (ofText s)) := isText_literal s

theorem isText_digits (n : Nat) : IsText ((Text.Decimal.digits n).map Char.toUInt8) := by
  refine .of_all (List.all_eq_true.2 fun b hb => decide_eq_true ?_)
  obtain ⟨c, hc, rfl⟩ := List.mem_map.1 hb
  have hdigit := isDigit_toUInt8 (Text.Decimal.isDigit_digits n c hc)
  simp only [isDigit, Bool.and_eq_true, decide_eq_true_eq] at hdigit
  exact Nat.lt_of_le_of_lt (UInt8.le_iff_toNat_le.1 hdigit.2) (by decide)

theorem isText_ofNat (n : Nat) : IsText (render (ofNat n)) := isText_digits n

theorem isText_ofInt : ∀ n : Int, IsText (render (ofInt n))
  | .ofNat n => isText_digits n
  | .negSucc n => (IsText.of_all (b := [0x2D]) rfl).append (isText_digits (n + 1))

/-- **An object of texts** with one member on each line is a text. -/
theorem isText_renderLines {fs : Fields} (h : ∀ f ∈ fs, IsText (render f.2)) :
    IsText (renderLines fs.members) := by
  have hline : ∀ f ∈ fs, IsText (renderLine (member f.1 f.2)) := fun f hf =>
    (((IsText.of_all rfl).append (isText_literal f.1)).append
      (.of_all rfl)).append (h f hf)
  cases fs with
  | nil => exact .of_all rfl
  | cons f fs =>
    refine (IsText.of_all (b := [openBrace]) rfl).append
      (((hline f List.mem_cons_self).append ?_).append (.of_all rfl))
    refine .flatMap fun m hm => ?_
    obtain ⟨f', hf', rfl⟩ := List.mem_map.1 hm
    exact (IsText.of_all (b := [comma]) rfl).append (hline f' (List.mem_cons_of_mem _ hf'))

end

end FileRelay.Json
