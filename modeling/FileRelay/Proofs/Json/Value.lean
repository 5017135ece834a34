import FileRelay.Json.Fields
import FileRelay.Proofs.Json.Literal
import FileRelay.Proofs.Text.Decimal

/-!
# Proofs/Json/Value — a value that was rendered is read back

A value is **regular** when its numbers and the bodies of its strings are such (`Regular`): for JSON
texts hold these as they were written.  A regular value is read back from its text, whatever ends it
(`Regular.reads`), and so is a whole text, on one line (`parse?_render`) or with one member on each
(`parse?_renderLines`): the blanks between members say nothing (`members?_spaced`).
-/

namespace FileRelay.Json

/-! ## Numbers -/

/-- What can follow a value: nothing, a comma, the end of an array or an object, or a blank. -/
def Ends (rest : Bytes) : Prop :=
  ∀ b ∈ rest.head?, b = comma ∨ b = closeBracket ∨ b = closeBrace ∨ isSpace b = true

/-- **A number** ends where a value can end, and begins with a digit or a minus. -/
structure IsNumber (lexeme : Bytes) : Prop where
  first : ∃ b s, lexeme = b :: s ∧ (isDigit b = true ∨ b = 0x2D)
  reads : ∀ rest, Ends rest → number? (lexeme ++ rest) = some (lexeme, rest)

/-- The blanks one by one. -/
theorem isSpace_eq_true_iff {b : UInt8} :
    isSpace b = true ↔ b = 0x20 ∨ b = 0x09 ∨ b = 0x0A ∨ b = 0x0D := by
  simp only [isSpace, Bool.or_eq_true, beq_iff_eq, or_assoc]

theorem Ends.not_digit {rest : Bytes} (h : Ends rest) : ∀ b ∈ rest.head?, isDigit b = false := by
  intro b hb
  obtain rfl | rfl | rfl | hspace := h b hb
  · rfl
  · rfl
  · rfl
  · obtain rfl | rfl | rfl | rfl := isSpace_eq_true_iff.1 hspace <;> rfl

theorem dropWhile_of_head {p : UInt8 → Bool} {s : Bytes} (h : ∀ b ∈ s.head?, p b = false) :
    s.dropWhile p = s ∧ s.takeWhile p = [] := by
  cases s with
  | nil => exact ⟨rfl, rfl⟩
  | cons b s =>
    have hb := h b rfl
    simp [hb]

/-- **A row of digits** ends before what is no digit. -/
theorem digitRow?_append {ds rest : Bytes} (hne : ds ≠ []) (hds : ∀ b ∈ ds, isDigit b = true)
    (hr : ∀ b ∈ rest.head?, isDigit b = false) : digitRow? (ds ++ rest) = some (ds, rest) := by
  obtain ⟨hdrop, htake⟩ := dropWhile_of_head hr
  unfold digitRow?
  rw [List.takeWhile_append_of_pos hds, List.dropWhile_append_of_pos hds, hdrop, htake,
    List.append_nil]
  simp [hne]

/-- Where a value can end, there is neither a fraction nor an exponent. -/
theorem Ends.parts {rest : Bytes} (h : Ends rest) :
    fractionPart? rest = some ([], rest) ∧ exponentPart? rest = some ([], rest) := by
  cases rest with
  | nil => exact ⟨rfl, rfl⟩
  | cons b rest =>
    obtain rfl | rfl | rfl | hspace := h b rfl
    · exact ⟨rfl, rfl⟩
    · exact ⟨rfl, rfl⟩
    · exact ⟨rfl, rfl⟩
    · obtain rfl | rfl | rfl | rfl := isSpace_eq_true_iff.1 hspace <;> exact ⟨rfl, rfl⟩

/-- A digit is an octet. -/
theorem toNat_toUInt8 {c : Char} (h : c.isDigit = true) : c.toUInt8.toNat = c.toNat := by
  simp only [Char.isDigit, Bool.and_eq_true, decide_eq_true_eq] at h
  have hle := UInt32.le_iff_toNat_le.1 h.2
  rw [Char.toUInt8, UInt32.toNat_toUInt8]
  exact Nat.mod_eq_of_lt (Nat.lt_of_le_of_lt hle (by decide))

theorem isDigit_toUInt8 {c : Char} (h : c.isDigit = true) : isDigit c.toUInt8 = true := by
  have heq := toNat_toUInt8 h
  simp only [Char.isDigit, Bool.and_eq_true, decide_eq_true_eq, ge_iff_le] at h
  simp only [isDigit, Bool.and_eq_true, decide_eq_true_eq, UInt8.le_iff_toNat_le, heq]
  exact ⟨UInt32.le_iff_toNat_le.1 h.1, UInt32.le_iff_toNat_le.1 h.2⟩

/-- **Digits are read back** from their octets. -/
theorem asChars_map {cs : List Char} (h : ∀ c ∈ cs, c.isDigit = true) :
    asChars (cs.map Char.toUInt8) = cs := by
  unfold asChars
  rw [List.map_map]
  refine (List.map_congr_left fun c hc => ?_).trans (List.map_id cs)
  rw [Function.comp_apply, toNat_toUInt8 (h c hc), Char.ofNat_toNat, id]

/-- **The digits of a number** are read where a value can end. -/
theorem magnitude?_digits (n : Nat) {rest : Bytes} (hrest : Ends rest) :
    magnitude? ((Text.Decimal.digits n).map Char.toUInt8 ++ rest)
      = some ((Text.Decimal.digits n).map Char.toUInt8, rest) := by
  obtain ⟨c, cs, hcs⟩ := List.exists_cons_of_ne_nil (Text.Decimal.digits_ne_nil n)
  have hall := Text.Decimal.isDigit_digits n
  have hrow : digitRow? ((Text.Decimal.digits n).map Char.toUInt8 ++ rest)
      = some ((Text.Decimal.digits n).map Char.toUInt8, rest) := by
    refine digitRow?_append (by simp [hcs]) (fun b hb => ?_) hrest.not_digit
    obtain ⟨c, hc, rfl⟩ := List.mem_map.1 hb
    exact isDigit_toUInt8 (hall c hc)
  have hwhole : wholePart? ((Text.Decimal.digits n).map Char.toUInt8 ++ rest)
      = some ((Text.Decimal.digits n).map Char.toUInt8, rest) := by
    rw [wholePart?, hrow, Option.bind_some, if_neg]
    intro h
    simp only [hcs, List.map_cons, List.head?_cons, Bool.and_eq_true, beq_iff_eq,
      Option.some.injEq, bne_iff_ne, ne_eq] at h
    -- A first digit zero is the only one.
    have hzero : c = '0' := by
      rw [← Char.ofNat_toNat c, ← toNat_toUInt8 (hall c (by simp [hcs])), h.1]
      rfl
    have hdigits := Text.Decimal.head?_digits (n := n) (by rw [hcs, hzero, List.head?_cons])
    rw [hcs] at hdigits
    obtain ⟨-, rfl⟩ := List.cons_eq_cons.1 hdigits
    exact h.2 rfl
  obtain ⟨hfraction, hexponent⟩ := hrest.parts
  simp [magnitude?, hwhole, hfraction, hexponent]

/-- The first digit of a number. -/
theorem digits_eq_cons (n : Nat) : ∃ b s, (Text.Decimal.digits n).map Char.toUInt8 = b :: s ∧
    isDigit b = true := by
  obtain ⟨c, cs, hcs⟩ := List.exists_cons_of_ne_nil (Text.Decimal.digits_ne_nil n)
  refine ⟨c.toUInt8, cs.map Char.toUInt8, by rw [hcs, List.map_cons], ?_⟩
  exact isDigit_toUInt8 (Text.Decimal.isDigit_digits n c (by simp [hcs]))

theorem ne_minus_of_isDigit {b : UInt8} (h : isDigit b = true) : b ≠ 0x2D := by
  rintro rfl
  exact absurd h (by decide)

/-- **The digits of a number are a number.** -/
theorem isNumber_digits (n : Nat) : IsNumber ((Text.Decimal.digits n).map Char.toUInt8) := by
  obtain ⟨b, s, hs, hb⟩ := digits_eq_cons n
  refine ⟨⟨b, s, hs, .inl hb⟩, fun rest hrest => ?_⟩
  have hmagnitude := magnitude?_digits n hrest
  rw [hs, List.cons_append] at hmagnitude ⊢
  simp [number?, ne_minus_of_isDigit hb, hmagnitude]

/-- And so are a minus and digits. -/
theorem isNumber_minus (n : Nat) :
    IsNumber (0x2D :: (Text.Decimal.digits n).map Char.toUInt8) where
  first := ⟨_, _, rfl, .inr rfl⟩
  reads rest hrest := by simp [number?, magnitude?_digits n hrest]

/-! ## Values -/

/-- **A regular value** holds numbers and bodies of literals where it should. -/
inductive Regular : Value → Prop
  | null : Regular .null
  | bool (b : Bool) : Regular (.bool b)
  | number {lexeme : Bytes} (h : IsNumber lexeme) : Regular (.number lexeme)
  | string {body : Bytes} (h : IsBody body) : Regular (.string body)
  | array {items : List Value} (h : ∀ v ∈ items, Regular v) : Regular (.array items)
  | object {members : List (Bytes × Value)} (hk : ∀ m ∈ members, IsBody m.1)
      (hv : ∀ m ∈ members, Regular m.2) : Regular (.object members)

theorem regular_ofText (s : String) : Regular (ofText s) := .string (isBody_escape s)

theorem regular_ofNat (n : Nat) : Regular (ofNat n) := .number (isNumber_digits n)

theorem regular_ofInt : ∀ n : Int, Regular (ofInt n)
  | .ofNat n => regular_ofNat n
  | .negSucc n => .number (isNumber_minus (n + 1))

/-- A digit begins nothing else than a number. -/
theorem ne_of_isDigit {b : UInt8} (h : isDigit b = true) : b ≠ quote ∧ b ≠ openBracket ∧
    b ≠ openBrace ∧ b ≠ 0x6E ∧ b ≠ 0x74 ∧ b ≠ 0x66 ∧ b ≠ closeBracket ∧ isSpace b = false := by
  refine ⟨?_, ?_, ?_, ?_, ?_, ?_, ?_, ?_⟩
  case refine_8 =>
    refine Bool.eq_false_iff.2 fun hs => ?_
    obtain rfl | rfl | rfl | rfl := isSpace_eq_true_iff.1 hs <;> exact absurd h (by decide)
  all_goals
    rintro rfl
    exact absurd h (by decide)

/-- **The text of a value** begins neither with a blank nor with the end of an array. -/
theorem Regular.render_eq {v : Value} (h : Regular v) :
    ∃ b s, render v = b :: s ∧ isSpace b = false ∧ b ≠ closeBracket := by
  cases h with
  | null => exact ⟨_, _, rfl, rfl, by decide⟩
  | bool b => cases b <;> exact ⟨_, _, rfl, rfl, by decide⟩
  | string | array | object => exact ⟨_, _, rfl, rfl, by decide⟩
  | number h =>
    obtain ⟨b, s, rfl, hb | rfl⟩ := h.first
    · obtain ⟨-, -, -, -, -, -, hclose, hspace⟩ := ne_of_isDigit hb
      exact ⟨b, s, rfl, hspace, hclose⟩
    · exact ⟨_, s, rfl, rfl, by decide⟩

theorem Regular.skipSpace_render {v : Value} (h : Regular v) (rest : Bytes) :
    skipSpace (render v ++ rest) = render v ++ rest := by
  obtain ⟨b, s, hrender, hspace, -⟩ := h.render_eq
  simp [hrender, skipSpace, hspace]

/-- **A value that is read back** from its text, whatever ends it. -/
def Reads (v : Value) : Prop := ∀ n rest, Ends rest → (render v).length < n →
  value? n (render v ++ rest) = some (v, rest)

theorem ends_comma (rest : Bytes) : Ends (comma :: rest) := fun b hb => by simp_all

theorem ends_closeBracket (rest : Bytes) : Ends (closeBracket :: rest) := fun b hb => by simp_all

theorem ends_closeBrace (rest : Bytes) : Ends (closeBrace :: rest) := fun b hb => by simp_all

/-- A row of blanks. -/
def Blank (s : Bytes) : Prop := ∀ b ∈ s, isSpace b = true

theorem blank_nil : Blank [] := nofun

/-- **Blanks are skipped.** -/
theorem Blank.skipSpace_append {s : Bytes} (h : Blank s) (rest : Bytes) :
    skipSpace (s ++ rest) = skipSpace rest :=
  List.dropWhile_append_of_pos h

/-- Blanks end a value, if what follows them does. -/
theorem Blank.ends_append {s rest : Bytes} (h : Blank s) (hrest : Ends rest) :
    Ends (s ++ rest) := by
  cases s with
  | nil => exact hrest
  | cons b s =>
    intro c hc
    obtain rfl := Option.some.inj hc
    exact .inr (.inr (.inr (h _ List.mem_cons_self)))

/-- **The items of an array** are read back, if each of them is. -/
theorem items?_render {v : Value} {vs : List Value} (h : ∀ w ∈ v :: vs, Regular w ∧ Reads w)
    {n : Nat} (hn : (renderItems (v :: vs)).length + 1 < n) (rest : Bytes) :
    items? n (renderItems (v :: vs) ++ closeBracket :: rest) = some (v :: vs, rest) := by
  induction vs generalizing v n with
  | nil =>
    obtain ⟨n, rfl⟩ := Nat.exists_eq_succ_of_ne_zero (Nat.ne_zero_of_lt hn)
    rw [renderItems] at hn ⊢
    rw [items?, (h v (by simp)).2 n _ (ends_closeBracket rest) (by omega)]
    simp [skipSpace, isSpace, closeBracket, comma]
  | cons w vs ih =>
    obtain ⟨n, rfl⟩ := Nat.exists_eq_succ_of_ne_zero (Nat.ne_zero_of_lt hn)
    rw [renderItems] at hn ⊢
    simp only [List.length_append, List.length_cons] at hn
    have hrest := ih (v := w) (n := n) (fun u hu => h u (List.mem_cons_of_mem _ hu)) (by omega)
    have hspace : skipSpace (renderItems (w :: vs) ++ closeBracket :: rest)
        = renderItems (w :: vs) ++ closeBracket :: rest := by
      have hw := (h w (by simp)).1
      cases vs with
      | nil => exact hw.skipSpace_render _
      | cons u us => rw [renderItems, List.append_assoc]; exact hw.skipSpace_render _
    have hcomma : ∀ s, skipSpace (comma :: s) = comma :: s := fun _ => rfl
    rw [List.append_assoc, List.cons_append, items?,
      (h v (by simp)).2 n _ (ends_comma _) (by omega), Option.bind_some, hcomma]
    simp only [beq_self_eq_true, ↓reduceIte, hspace, hrest, Option.map_some]

/-! ## Members among blanks -/

/-- The text of a member, with blanks before it and behind its colon. -/
def spacedMember (lead gap : Bytes) (m : Bytes × Value) : Bytes :=
  lead ++ literal m.1 ++ colon :: gap ++ render m.2

/-- **The members of an object** between commas, with blanks before each and behind its colon. -/
def spaced (lead gap : Bytes) : List (Bytes × Value) → Bytes
  | [] => []
  | [m] => spacedMember lead gap m
  | m :: f :: ms => spacedMember lead gap m ++ comma :: spaced lead gap (f :: ms)

theorem spaced_nil_nil : ∀ ms, spaced [] [] ms = renderMembers ms
  | [] => rfl
  | [_] => by simp [spaced, spacedMember, renderMembers]
  | m :: f :: ms => by
    rw [spaced, spaced_nil_nil (f :: ms)]
    simp [spacedMember, renderMembers]

/-- One member on each line are members among blanks. -/
theorem renderLine_append (m : Bytes × Value) (ms : List (Bytes × Value)) :
    renderLine m ++ ms.flatMap (fun f => comma :: renderLine f)
      = spaced [0x0A, 0x20, 0x20] [0x20] (m :: ms) := by
  have hline : ∀ m, renderLine m = spacedMember [0x0A, 0x20, 0x20] [0x20] m := fun m => by
    simp [renderLine, spacedMember]
  induction ms generalizing m with
  | nil => simp [hline, spaced]
  | cons f ms ih =>
    rw [spaced, ← ih f, ← hline m]
    rfl

section

variable {lead gap : Bytes} {m : Bytes × Value} {ms : List (Bytes × Value)}

/-- **A member that others follow** is read up to the comma. -/
theorem members?_next {key : Bytes} {v : Value} (hkey : IsBody key) (hv : Regular v ∧ Reads v)
    (hgap : Blank gap) {n : Nat} (hn : (render v).length < n) (rest : Bytes) :
    members? (n + 1) (literal key ++ (colon :: gap ++ (render v ++ comma :: rest)))
      = (members? n (skipSpace rest)).map fun ms => ((key, v) :: ms.1, ms.2) := by
  have hbody := hkey (colon :: (gap ++ (render v ++ comma :: rest)))
  have hcolon : ∀ s, skipSpace (colon :: s) = colon :: s := fun _ => rfl
  have hcomma : ∀ s, skipSpace (comma :: s) = comma :: s := fun _ => rfl
  simp only [literal, List.cons_append, List.append_assoc, List.nil_append, members?,
    bne_self_eq_false, Bool.false_eq_true, ↓reduceIte, hbody, Option.bind_some, hcolon,
    hgap.skipSpace_append, hv.1.skipSpace_render, hv.2 n _ (ends_comma rest) hn, hcomma,
    beq_self_eq_true]

/-- **The last member** is read up to the end of the object, blanks before it apart. -/
theorem members?_last {key : Bytes} {v : Value} (hkey : IsBody key) (hv : Regular v ∧ Reads v)
    (hgap : Blank gap) {tail : Bytes} (htail : Blank tail) {n : Nat} (hn : (render v).length < n)
    (rest : Bytes) :
    members? (n + 1)
        (literal key ++ (colon :: gap ++ (render v ++ (tail ++ closeBrace :: rest))))
      = some ([(key, v)], rest) := by
  have hbody := hkey (colon :: (gap ++ (render v ++ (tail ++ closeBrace :: rest))))
  have hends := htail.ends_append (ends_closeBrace rest)
  have hcolon : ∀ s, skipSpace (colon :: s) = colon :: s := fun _ => rfl
  have hclose : skipSpace (tail ++ closeBrace :: rest) = closeBrace :: rest :=
    (htail.skipSpace_append _).trans rfl
  have hother : (closeBrace == comma) = false := rfl
  simp only [literal, List.cons_append, List.append_assoc, List.nil_append, members?,
    bne_self_eq_false, Bool.false_eq_true, ↓reduceIte, hbody, Option.bind_some, hcolon,
    hgap.skipSpace_append, hv.1.skipSpace_render, hv.2 n _ hends hn, hclose, hother,
    beq_self_eq_true]

/-- The blanks before a member are skipped. -/
theorem skipSpace_spacedMember (hlead : Blank lead) (rest : Bytes) :
    skipSpace (spacedMember lead gap m ++ rest)
      = literal m.1 ++ (colon :: gap ++ (render m.2 ++ rest)) := by
  rw [spacedMember, List.append_assoc, List.append_assoc, List.append_assoc,
    hlead.skipSpace_append]
  rfl

/-- **The members of an object** are read back from among blanks, if the value of each of them is. -/
theorem members?_spaced (hlead : Blank lead) (hgap : Blank gap) {tail : Bytes} (htail : Blank tail)
    (hk : ∀ e ∈ m :: ms, IsBody e.1) (hv : ∀ e ∈ m :: ms, Regular e.2 ∧ Reads e.2) {n : Nat}
    (hn : (spaced lead gap (m :: ms)).length < n) (rest : Bytes) :
    members? n (skipSpace (spaced lead gap (m :: ms) ++ (tail ++ closeBrace :: rest)))
      = some (m :: ms, rest) := by
  have hkey := hk m List.mem_cons_self
  have hvalue := hv m List.mem_cons_self
  induction ms generalizing m n with
  | nil =>
    obtain ⟨n, rfl⟩ := Nat.exists_eq_succ_of_ne_zero (Nat.ne_zero_of_lt hn)
    simp only [spaced, spacedMember, List.length_append, List.length_cons] at hn
    rw [spaced, skipSpace_spacedMember hlead]
    exact members?_last hkey hvalue hgap htail (by omega) rest
  | cons f ms ih =>
    obtain ⟨n, rfl⟩ := Nat.exists_eq_succ_of_ne_zero (Nat.ne_zero_of_lt hn)
    simp only [spaced, spacedMember, List.length_append, List.length_cons] at hn
    have hrest := ih (m := f) (n := n) (fun e he => hk e (List.mem_cons_of_mem _ he))
      (fun e he => hv e (List.mem_cons_of_mem _ he)) (by omega) (hk f (by simp)) (hv f (by simp))
    have hcons : spaced lead gap (m :: f :: ms) ++ (tail ++ closeBrace :: rest)
        = spacedMember lead gap m
          ++ comma :: (spaced lead gap (f :: ms) ++ (tail ++ closeBrace :: rest)) :=
      List.append_assoc _ _ _
    rw [hcons, skipSpace_spacedMember hlead, members?_next hkey hvalue hgap (by omega), hrest,
      Option.map_some]

/-- **An object** is read back from its members among blanks. -/
theorem value?_spaced (hlead : Blank lead) (hgap : Blank gap) {tail : Bytes} (htail : Blank tail)
    (hk : ∀ e ∈ m :: ms, IsBody e.1) (hv : ∀ e ∈ m :: ms, Regular e.2 ∧ Reads e.2) {n : Nat}
    (hn : (spaced lead gap (m :: ms)).length < n) (rest : Bytes) :
    value? (n + 1) (openBrace :: (spaced lead gap (m :: ms) ++ (tail ++ closeBrace :: rest)))
      = some (.object (m :: ms), rest) := by
  have hmembers := members?_spaced hlead hgap htail hk hv hn rest
  obtain ⟨s, hs⟩ : ∃ s, skipSpace (spaced lead gap (m :: ms) ++ (tail ++ closeBrace :: rest))
      = quote :: s := by
    cases ms with
    | nil => rw [spaced, skipSpace_spacedMember hlead]; exact ⟨_, rfl⟩
    | cons f ms => rw [spaced, List.append_assoc, skipSpace_spacedMember hlead]; exact ⟨_, rfl⟩
  rw [hs] at hmembers
  have hbrace : (openBrace == quote) = false ∧ (openBrace == openBracket) = false ∧
      (quote == closeBrace) = false := ⟨rfl, rfl, rfl⟩
  simp [value?, hbrace, hs, hmembers]

end

/-- **A regular value is read back**, whatever ends it. -/
theorem Regular.reads {v : Value} (h : Regular v) : Reads v := by
  induction h with
  | null =>
    intro n rest _ hn
    obtain ⟨n, rfl⟩ := Nat.exists_eq_succ_of_ne_zero (Nat.ne_zero_of_lt hn)
    rfl
  | bool b =>
    intro n rest _ hn
    obtain ⟨n, rfl⟩ := Nat.exists_eq_succ_of_ne_zero (Nat.ne_zero_of_lt hn)
    cases b <;> rfl
  | number h =>
    intro n rest hrest hn
    obtain ⟨n, rfl⟩ := Nat.exists_eq_succ_of_ne_zero (Nat.ne_zero_of_lt hn)
    obtain ⟨b, s, rfl, hb⟩ := h.first
    have hreads := h.reads rest hrest
    rw [List.cons_append] at hreads
    rw [render, List.cons_append]
    rcases hb with hb | rfl
    · obtain ⟨hquote, hbracket, hbrace, hn, ht, hf, -⟩ := ne_of_isDigit hb
      simp [value?, hquote, hbracket, hbrace, hn, ht, hf, hreads]
    · simp [value?, quote, openBracket, openBrace, hreads]
  | string h =>
    intro n rest _ hn
    obtain ⟨n, rfl⟩ := Nat.exists_eq_succ_of_ne_zero (Nat.ne_zero_of_lt hn)
    simp [render, literal, value?, h rest]
  | @array items h ih =>
    intro n rest _ hn
    obtain ⟨n, rfl⟩ := Nat.exists_eq_succ_of_ne_zero (Nat.ne_zero_of_lt hn)
    rw [render] at hn ⊢
    simp only [List.length_cons, List.length_append, List.length_nil] at hn
    rcases items with _ | ⟨v, vs⟩
    · rfl
    have hitems := items?_render (fun w hw => ⟨h w hw, ih w hw⟩) (n := n) (by omega) rest
    obtain ⟨b, s, hfirst, hspace, hclose⟩ : ∃ b s, renderItems (v :: vs) ++ closeBracket :: rest
        = b :: s ∧ isSpace b = false ∧ b ≠ closeBracket := by
      obtain ⟨b, s, hrender, hb⟩ := (h v (by simp)).render_eq
      cases vs <;> simp only [renderItems, hrender] <;> exact ⟨b, _, rfl, hb⟩
    rw [hfirst] at hitems
    simp [value?, quote, openBracket, hfirst, skipSpace, hspace, hclose, hitems]
  | @object members hk hv ih =>
    intro n rest _ hn
    obtain ⟨n, rfl⟩ := Nat.exists_eq_succ_of_ne_zero (Nat.ne_zero_of_lt hn)
    rw [render] at hn ⊢
    simp only [List.length_cons, List.length_append, List.length_nil] at hn
    rcases members with _ | ⟨m, ms⟩
    · rfl
    have hvalue : value? (n + 1) (openBrace :: (spaced [] [] (m :: ms) ++ ([] ++ closeBrace :: rest)))
        = some (.object (m :: ms), rest) :=
      value?_spaced blank_nil blank_nil blank_nil hk (fun e he => ⟨hv e he, ih e he⟩)
        (by rw [spaced_nil_nil]; omega) rest
    rw [spaced_nil_nil] at hvalue
    simpa using hvalue

/-- **A whole text is read back.** -/
theorem parse?_render {v : Value} (h : Regular v) : parse? (render v) = some v := by
  have hspace := h.skipSpace_render []
  have hreads := h.reads ((render v).length + 1) [] (by simp [Ends]) (Nat.lt_succ_self _)
  rw [List.append_nil] at hspace hreads
  rw [parse?, hspace, hreads]
  rfl

/-- **An object with one member on each line is read back.** -/
theorem parse?_renderLines {ms : List (Bytes × Value)} (h : Regular (.object ms)) :
    parse? (renderLines ms) = some (.object ms) := by
  obtain - | - | - | - | - | ⟨hk, hv⟩ := h
  rcases ms with _ | ⟨m, ms⟩
  · rfl
  have hblank : Blank [0x0A, 0x20, 0x20] ∧ Blank [0x20] ∧ Blank [0x0A] := by
    simp [Blank, isSpace]
  have hvalue := value?_spaced hblank.1 hblank.2.1 hblank.2.2 hk
    (fun e he => ⟨hv e he, (hv e he).reads⟩) (n := (renderLines (m :: ms)).length)
    (by simp only [renderLines, renderLine_append, List.length_cons, List.length_append]; omega) []
  rw [renderLines, renderLine_append] at hvalue ⊢
  have hspace : ∀ s, skipSpace (openBrace :: s) = openBrace :: s := fun _ => rfl
  rw [List.singleton_append] at hvalue
  rw [parse?, hspace, hvalue]
  rfl

end FileRelay.Json
