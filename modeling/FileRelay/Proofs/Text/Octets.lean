import FileRelay.Bytes
import Mathlib.Data.List.Lex
import Mathlib.Tactic.Common
import Mathlib.Tactic.SplitIfs

/-!
# Proofs/Text/Octets — the octets of a text, character by character

A text is written character by character (`Bytes.ofText_eq_flatMap`).  A character below 128 is one
octet, which is no octet of any other character (`mem_utf8EncodeChar`), and the octets of texts are
in the order of the texts (`Bytes.ofText_lt`).  Texts behind each other, and octets below 128, are
the octets of a text (`Bytes.IsText`).
-/

namespace FileRelay

/-! ## One character -/

/-- **An octet below 128 belongs to the character of its number alone.** -/
theorem mem_utf8EncodeChar {c : Char} {b : UInt8} (hb : b < 0x80) :
    b ∈ String.utf8EncodeChar c ↔ c.val.toNat = b.toNat := by
  have hlt : b.toNat < 128 := UInt8.lt_iff_toNat_lt.1 hb
  unfold String.utf8EncodeChar
  dsimp only
  generalize c.val.toNat = n
  split_ifs <;> simp only [List.mem_cons, List.not_mem_nil, or_false, ← UInt8.toNat_inj,
    UInt8.toNat_ofNat'] <;> omega

/-- A character below 128 is one octet. -/
theorem utf8EncodeChar_of_lt {c : Char} (hc : c.val.toNat < 128) :
    String.utf8EncodeChar c = [UInt8.ofNat c.val.toNat] := by
  unfold String.utf8EncodeChar
  dsimp only
  rw [if_pos (by omega)]

/-- **The octets of a lesser character are less**, whatever follows them. -/
theorem utf8EncodeChar_append_lt {c d : Char} (h : c < d) (a b : Bytes) :
    String.utf8EncodeChar c ++ a < String.utf8EncodeChar d ++ b := by
  have hlt : c.val.toNat < d.val.toNat := h
  have htop : d.val.toNat < 0x110000 := by
    have hvalid := d.valid
    unfold UInt32.isValidChar Nat.isValidChar at hvalid
    omega
  unfold String.utf8EncodeChar
  dsimp only
  generalize c.val.toNat = m at *
  generalize d.val.toNat = n at *
  -- one case for each pair of lengths: the first octet tells lengths apart, and octets are digits
  split_ifs <;> simp only [List.cons_append, List.nil_append, List.cons_lt_cons_iff,
    UInt8.lt_iff_toNat_lt, ← UInt8.toNat_inj, UInt8.toNat_ofNat']
  all_goals simp (disch := omega) only [Nat.mod_eq_of_lt]
  all_goals omega

/-! ## Texts -/

namespace Bytes

/-- **A text is written character by character.** -/
theorem ofText_eq_flatMap (s : String) : ofText s = s.toList.flatMap String.utf8EncodeChar := by
  rw [ofText, String.toUTF8_eq_toByteArray, ← String.utf8Encode_toList, List.utf8Encode,
    List.data_toByteArray]

theorem ofText_ofList (cs : List Char) :
    ofText (String.ofList cs) = cs.flatMap String.utf8EncodeChar := by
  rw [ofText_eq_flatMap, String.toList_ofList]

/-- Texts with the same octets are the same. -/
theorem ofText_inj {s t : String} (h : ofText s = ofText t) : s = t := by
  have hread := toText?_ofText s
  rw [h, toText?_ofText] at hread
  exact (Option.some.inj hread).symm

/-- The octets of a text behind another. -/
theorem ofText_append (s t : String) : ofText (s ++ t) = ofText s ++ ofText t := by
  simp only [ofText_eq_flatMap, String.toList_append, List.flatMap_append]

/-- Rows of characters are written in their order. -/
theorem flatMap_utf8EncodeChar_lt {cs ds : List Char} (h : cs < ds) :
    cs.flatMap String.utf8EncodeChar < ds.flatMap String.utf8EncodeChar := by
  induction cs generalizing ds with
  | nil =>
    rcases ds with _ | ⟨d, ds⟩
    · exact absurd h (List.lt_irrefl _)
    have hpos : 0 < (String.utf8EncodeChar d).length := by
      rw [String.length_utf8EncodeChar]
      exact d.utf8Size_pos
    obtain ⟨b, bs, hd⟩ := List.exists_cons_of_length_pos hpos
    rw [List.flatMap_nil, List.flatMap_cons, hd]
    exact List.nil_lt_cons b _
  | cons c cs ih =>
    rcases ds with _ | ⟨d, ds⟩
    · exact absurd h (List.not_lt_nil _)
    rw [List.flatMap_cons, List.flatMap_cons]
    obtain hfirst | ⟨rfl, hrest⟩ := List.cons_lt_cons_iff.1 h
    · exact utf8EncodeChar_append_lt hfirst _ _
    · exact List.append_left_lt (ih hrest)

/-- **The octets of texts are in the order of the texts.** -/
theorem ofText_lt {s t : String} (h : s < t) : ofText s < ofText t := by
  rw [ofText_eq_flatMap, ofText_eq_flatMap]
  exact flatMap_utf8EncodeChar_lt h

/-! ## Octets below 128 -/

/-- A number of no character stands for null. -/
theorem toNat_charOfNat (n : Nat) : (Char.ofNat n).toNat = if n.isValidChar then n else 0 := by
  rw [Char.ofNat]
  by_cases h : n.isValidChar
  · rw [dif_pos h, if_pos h]
    rfl
  · rw [dif_neg h, if_neg h]
    rfl

/-- The character of an octet below 128 has its number and is written as this octet. -/
theorem toNat_charOfNat_octet {b : UInt8} (hb : b.toNat < 128) :
    (Char.ofNat b.toNat).toNat = b.toNat := by
  rw [toNat_charOfNat, if_pos (Or.inl (by omega))]

theorem utf8EncodeChar_charOfNat {b : UInt8} (hb : b.toNat < 128) :
    String.utf8EncodeChar (Char.ofNat b.toNat) = [b] := by
  have hnat : (Char.ofNat b.toNat).val.toNat = b.toNat := toNat_charOfNat_octet hb
  rw [utf8EncodeChar_of_lt (by rwa [hnat]), hnat, UInt8.ofNat_toNat]

/-- **The octets of some text.** -/
def IsText (b : Bytes) : Prop := ∃ s, ofText s = b

namespace IsText

theorem nil : IsText [] := ⟨"", rfl⟩

theorem append {a b : Bytes} : IsText a → IsText b → IsText (a ++ b) := by
  rintro ⟨s, rfl⟩ ⟨t, rfl⟩
  exact ⟨s ++ t, ofText_append s t⟩

theorem flatMap {α : Type} {f : α → Bytes} {l : List α} (h : ∀ a ∈ l, IsText (f a)) :
    IsText (l.flatMap f) := by
  induction l with
  | nil => exact nil
  | cons a l ih =>
    rw [List.flatMap_cons]
    exact (h a List.mem_cons_self).append (ih fun b hb => h b (List.mem_cons_of_mem _ hb))

theorem char (c : Char) : IsText (String.utf8EncodeChar c) :=
  ⟨String.ofList [c], by rw [ofText_ofList, List.flatMap_singleton]⟩

/-- **Octets below 128 are a text.** -/
theorem of_all {b : Bytes} (h : b.all (fun x => x.toNat < 128) = true) : IsText b := by
  rw [← List.flatMap_singleton' b]
  refine flatMap fun x hx => ?_
  rw [← utf8EncodeChar_charOfNat (of_decide_eq_true (List.all_eq_true.1 h x hx))]
  exact char _

end IsText

end Bytes

end FileRelay
