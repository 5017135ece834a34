import FileRelay.Proofs.Text.Octets

/-!
# Proofs/Text/Lossy — what a text read with replacements tells of its octets

An ASCII character other than null stands in the text only where its octet was
(`Bytes.mem_of_mem_lossyText`): a longer character that is complete is none of them, and neither is
the replacement.  Hence a text of such characters alone was read from just their octets
(`Bytes.ofText_lossyText`).
-/

namespace FileRelay.Bytes

/-- An ASCII character other than null. -/
def IsPlain (c : Char) : Prop := 0 < c.toNat ∧ c.toNat < 128

theorem not_isPlain_replacement : ¬ IsPlain replacement := by
  unfold IsPlain
  decide

theorem not_isPlain_ofNat {n : Nat} (h : 128 ≤ n) : ¬ IsPlain (Char.ofNat n) := by
  rw [IsPlain, toNat_charOfNat]
  split <;> omega

/-! ## Characters begun -/

/-- A longer character that is begun **properly** comes to no number below 128. -/
structure Begun.Proper (p : Begun) : Prop where
  low : 128 ≤ p.low.toNat
  owed : 1 ≤ p.owed
  last : p.owed = 1 → 2 ≤ p.bits
  more : 2 ≤ p.owed → 2 ≤ p.bits * 64 + (p.low.toNat - 128)

/-- An octet that is a character. -/
theorem Begun.first_inl {b : UInt8} {c : Char} (h : first b = some (.inl c)) :
    b.toNat < 128 ∧ c = Char.ofNat b.toNat := by
  unfold first at h
  split_ifs at h with hb
  all_goals simp only [Option.some.injEq, Sum.inl.injEq, reduceCtorEq] at h
  exact ⟨UInt8.lt_iff_toNat_lt.1 hb, h.symm⟩

/-- **Characters are begun properly.** -/
theorem Begun.first_inr {b : UInt8} {p : Begun} (h : first b = some (.inr p)) : p.Proper := by
  unfold first at h
  simp only [beq_iff_eq, UInt8.lt_iff_toNat_lt, ← UInt8.toNat_inj] at h
  split_ifs at h
  all_goals simp only [Option.some.injEq, Sum.inr.injEq, reduceCtorEq] at h
  all_goals subst h; constructor <;> simp at * <;> omega

/-- **One octet more** of a character that owes several. -/
theorem Begun.Proper.next {p : Begun} (hp : p.Proper) {b : UInt8} (hlow : p.low ≤ b)
    (howed : ¬ p.owed ≤ 1) :
    Begun.Proper ⟨p.bits * 64 + (b.toNat - 0x80), p.owed - 1, 0x80, 0xBF⟩ := by
  have hle := UInt8.le_iff_toNat_le.1 hlow
  have hmore := hp.more (by omega)
  have hbegin := hp.low
  constructor <;> simp <;> omega

/-- The last octet of a character makes none that is plain. -/
theorem Begun.Proper.not_isPlain {p : Begun} (hp : p.Proper) {b : UInt8} (howed : p.owed ≤ 1) :
    ¬ IsPlain (Char.ofNat (p.bits * 64 + (b.toNat - 0x80))) := by
  have hlast := hp.last (by have := hp.owed; omega)
  exact not_isPlain_ofNat (by omega)

/-! ## Texts -/

/-- A plain character that is read, with at most one character begun. -/
theorem mem_of_mem_lossyFrom {o : Option Begun} {b : Bytes} {c : Char} (ho : ∀ p ∈ o, p.Proper)
    (hc : IsPlain c) (h : c ∈ lossyFrom o b) : UInt8.ofNat c.toNat ∈ b := by
  have hrep : c ≠ replacement := by
    rintro rfl
    exact not_isPlain_replacement hc
  have hfirst : ∀ {b : UInt8}, Begun.first b = some (.inl c) → UInt8.ofNat c.toNat = b := by
    intro b hb
    obtain ⟨hlt, rfl⟩ := Begun.first_inl hb
    rw [toNat_charOfNat_octet hlt, UInt8.ofNat_toNat]
  fun_induction lossyFrom o b with
  | case1 => simp at h
  | case2 p => simp [hrep] at h
  | case3 b rest _ ih =>
    simp only [List.mem_cons, hrep, false_or] at h
    exact List.mem_cons_of_mem b (ih nofun h)
  | case4 b rest d hd ih =>
    obtain rfl | h := List.mem_cons.1 h
    · rw [hfirst hd]
      exact List.mem_cons_self
    · exact List.mem_cons_of_mem b (ih nofun h)
  | case5 b rest p hp ih =>
    exact List.mem_cons_of_mem b (ih (by simpa using Begun.first_inr hp) h)
  | case6 p b rest _ bits howed ih =>
    obtain hd | h := List.mem_cons.1 h
    · exact absurd (hd ▸ hc) ((ho p (Option.mem_some_self p)).not_isPlain howed)
    · exact List.mem_cons_of_mem b (ih nofun h)
  | case7 p b rest hrange bits howed ih =>
    simp only [Bool.and_eq_true, decide_eq_true_eq] at hrange
    have hnext := (ho p (Option.mem_some_self p)).next hrange.1 howed
    exact List.mem_cons_of_mem b (ih (by simpa using hnext) h)
  | case8 p b rest _ _ ih =>
    simp only [List.mem_cons, hrep, false_or] at h
    exact List.mem_cons_of_mem b (ih nofun h)
  | case9 p b rest _ d hd ih =>
    simp only [List.mem_cons, hrep, false_or] at h
    obtain rfl | h := h
    · rw [hfirst hd]
      exact List.mem_cons_self
    · exact List.mem_cons_of_mem b (ih nofun h)
  | case10 p b rest _ q hq ih =>
    simp only [List.mem_cons, hrep, false_or] at h
    exact List.mem_cons_of_mem b (ih (by simpa using Begun.first_inr hq) h)

/-- **A plain character of the text is an octet** of what was read. -/
theorem mem_of_mem_lossyText {b : Bytes} {c : Char} (hc : IsPlain c)
    (h : c ∈ (lossyText b).toList) : UInt8.ofNat c.toNat ∈ b :=
  mem_of_mem_lossyFrom (o := none) nofun hc (by rwa [lossyText, String.toList_ofList] at h)

/-- Where plain characters alone are read, no character was begun, and they are the octets. -/
theorem lossyFrom_isPlain {o : Option Begun} {b : Bytes} (ho : ∀ p ∈ o, p.Proper)
    (h : ∀ c ∈ lossyFrom o b, IsPlain c) :
    o = none ∧ (lossyFrom o b).flatMap String.utf8EncodeChar = b := by
  fun_induction lossyFrom o b with
  | case1 => exact ⟨rfl, rfl⟩
  | case4 b rest d hd ih =>
    obtain ⟨hlt, rfl⟩ := Begun.first_inl hd
    rw [List.flatMap_cons, utf8EncodeChar_charOfNat hlt,
      (ih nofun fun c hc => h c (List.mem_cons_of_mem _ hc)).2]
    exact ⟨rfl, rfl⟩
  | case5 b rest p hp ih =>
    exact absurd (ih (by simpa using Begun.first_inr hp) h).1 (Option.some_ne_none _)
  | case6 p b rest _ bits howed _ =>
    exact absurd (h _ List.mem_cons_self) ((ho p (Option.mem_some_self p)).not_isPlain howed)
  | case7 p b rest hrange bits howed ih =>
    simp only [Bool.and_eq_true, decide_eq_true_eq] at hrange
    have hnext := (ho p (Option.mem_some_self p)).next hrange.1 howed
    exact absurd (ih (by simpa using hnext) h).1 (Option.some_ne_none _)
  -- the other ways lead through a replacement
  | _ => exact absurd (h replacement (by simp)) not_isPlain_replacement

/-- **A text of plain characters alone is written as the octets that it was read from.** -/
theorem ofText_lossyText {b : Bytes} (h : ∀ c ∈ (lossyText b).toList, IsPlain c) :
    ofText (lossyText b) = b := by
  rw [lossyText, ofText_ofList]
  exact (lossyFrom_isPlain (o := none) nofun (by rwa [lossyText, String.toList_ofList] at h)).2

end FileRelay.Bytes
