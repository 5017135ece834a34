import FileRelay.Json.Literal
import FileRelay.Proofs.Text.Octets

/-!
# Proofs/Json/Literal — a text that was escaped is read back

An octet of a text is written in one of three forms (`Escapes`), none of which ends a literal or
stands for anything else than the octet.  So a text that was escaped is the body of a literal
(`isBody_escape`), stands for itself (`decode?_escape`) and is a text again (`isText_escape`).
-/

namespace FileRelay.Json

/-- **The body of a literal** ends at the quote behind it and not before. -/
def IsBody (body : Bytes) : Prop := ∀ rest, body? .plain (body ++ quote :: rest) = some (body, rest)

/-- **The forms of an octet** in a body: a backslash and a letter, a number, or the octet itself. -/
inductive Escapes (b : UInt8) : Bytes → Prop
  | letter {c : UInt8} (hc : shortEscape? c = some b) : Escapes b [backslash, c]
  | control (hb : b < 0x20) :
      Escapes b [backslash, letterU, 0x30, 0x30, hexOctet (b / 16), hexOctet (b % 16)]
  | plain (hq : b ≠ quote) (hs : b ≠ backslash) (hb : ¬ b < 0x20) : Escapes b [b]

theorem escapeOctet_escapes (b : UInt8) : Escapes b (escapeOctet b) := by
  unfold escapeOctet
  split_ifs with hq hs hb hf hn hr ht hc
  case pos | pos | pos | pos | pos | pos | pos =>
    refine .letter ?_
    simp_all [shortEscape?, quote, backslash]
  case pos => exact .control hc
  case neg => exact .plain (by simpa using hq) (by simpa using hs) hc

theorem hexValue?_hexOctet : ∀ n < 16, hexValue? (hexOctet (UInt8.ofNat n)) = some n := by decide

/-- A control is its own character. -/
theorem octetsOf_control : ∀ n < 0x20, octetsOf n = [UInt8.ofNat n] := by decide +kernel

/-- The two digits of an octet. -/
theorem hexOctet_halves (b : UInt8) : hexValue? (hexOctet (b / 16)) = some (b.toNat / 16) ∧
    hexValue? (hexOctet (b % 16)) = some (b.toNat % 16) := by
  have hlt := b.toNat_lt
  have hdiv : b / 16 = UInt8.ofNat (b.toNat / 16) := by
    rw [← UInt8.toNat_inj, UInt8.toNat_div, UInt8.toNat_ofNat_of_lt' (show _ < 256 by omega)]
    rfl
  have hmod : b % 16 = UInt8.ofNat (b.toNat % 16) := by
    rw [← UInt8.toNat_inj, UInt8.toNat_mod, UInt8.toNat_ofNat_of_lt' (show _ < 256 by omega)]
    rfl
  rw [hdiv, hmod]
  exact ⟨hexValue?_hexOctet _ (by omega), hexValue?_hexOctet _ (by omega)⟩

namespace Escapes

variable {b : UInt8} {e : Bytes}

/-- **No form of an octet ends a literal.** -/
theorem body?_append (h : Escapes b e) (rest : Bytes) :
    body? .plain (e ++ rest) = (body? .plain rest).map fun r => (e ++ r.1, r.2) := by
  cases h with
  | @letter c hc =>
    have hu : c ≠ letterU := by
      rintro rfl
      simp [shortEscape?, letterU, quote, backslash] at hc
    simp [body?, Mode.step, hu, hc, quote, backslash, Option.map_map, Function.comp_def]
  | control hb =>
    obtain ⟨hhigh, hlow⟩ := hexOctet_halves b
    have hzero : hexValue? 0x30 = some 0 := rfl
    simp [body?, Mode.step, hzero, hhigh, hlow, quote, backslash, Option.map_map,
      Function.comp_def]
  | plain hq hs hb => simp [body?, Mode.step, hq, hs, hb]

/-- **A form of an octet is one piece**, and stands for the octet. -/
theorem pieces?_append (h : Escapes b e) : ∃ p : Piece,
    (∀ rest, pieces? .plain (e ++ rest) = (pieces? .plain rest).map (p :: ·)) ∧
      ∀ rest, join? none (p :: rest) = (join? none rest).map (b :: ·) := by
  cases h with
  | @letter c hc =>
    have hu : c ≠ letterU := by
      rintro rfl
      simp [shortEscape?, letterU, quote, backslash] at hc
    exact ⟨.octet b, fun rest => by simp [pieces?, hu, hc], fun rest => rfl⟩
  | control hb =>
    obtain ⟨hhigh, hlow⟩ := hexOctet_halves b
    have hzero : hexValue? 0x30 = some 0 := rfl
    have hlt : b.toNat < 0x20 := hb
    have hvalue : b.toNat / 16 * 16 + b.toNat % 16 = b.toNat := by omega
    refine ⟨.codeUnit b.toNat, fun rest => ?_, fun rest => ?_⟩
    · simp [pieces?, hzero, hhigh, hlow, hvalue]
    · have hhalf : isHighHalf b.toNat = false ∧ isLowHalf b.toNat = false := by
        simp only [isHighHalf, isLowHalf, Bool.and_eq_false_iff, decide_eq_false_iff_not]
        omega
      simp [join?, hhalf, octetsOf_control _ hlt]
  | plain hq hs hb => exact ⟨.octet b, fun rest => by simp [pieces?, hs], fun rest => rfl⟩

end Escapes

/-- **A text that was escaped** is the body of a literal. -/
theorem isBody_escape (s : String) : IsBody (escape s) := fun rest => by
  unfold escape
  induction Bytes.ofText s with
  | nil => simp [body?]
  | cons b bs ih =>
    rw [List.flatMap_cons, List.append_assoc, (escapeOctet_escapes b).body?_append, ih]
    rfl

/-- **A text that was escaped is read back.** -/
theorem decode?_escape (s : String) : decode? (escape s) = some s := by
  have hjoin : (pieces? .plain (escape s)).bind (join? none) = some (Bytes.ofText s) := by
    unfold escape
    induction Bytes.ofText s with
    | nil => rfl
    | cons b bs ih =>
      obtain ⟨p, hpieces, hjoin⟩ := (escapeOctet_escapes b).pieces?_append
      obtain ⟨ps, hps, hbs⟩ := Option.bind_eq_some_iff.1 ih
      rw [List.flatMap_cons, hpieces, hps, Option.map_some, Option.bind_some, hjoin, hbs]
      rfl
  rw [decode?, hjoin, Option.bind_some, Bytes.toText?_ofText]

/-! ## The text of a body -/

/-- An octet below 128 is escaped by such octets. -/
theorem all_escapeOctet :
    ∀ n < 128, (escapeOctet (UInt8.ofNat n)).all (fun x => x.toNat < 128) = true := by
  decide

/-- Other octets stand for themselves. -/
theorem escapeOctet_of_le {b : UInt8} (h : 0x80 ≤ b) : escapeOctet b = [b] := by
  have hall : ∀ n < 256, 0x80 ≤ n → escapeOctet (UInt8.ofNat n) = [UInt8.ofNat n] := by
    decide +kernel
  have heq := hall b.toNat b.toNat_lt (UInt8.le_iff_toNat_le.1 h)
  rwa [UInt8.ofNat_toNat] at heq

/-- **A text is escaped by a text.** -/
theorem isText_escape (s : String) : Bytes.IsText (escape s) := by
  rw [escape, Bytes.ofText_eq_flatMap, List.flatMap_assoc]
  refine .flatMap fun c _ => ?_
  by_cases hc : c.val.toNat < 128
  · rw [utf8EncodeChar_of_lt hc, List.flatMap_singleton]
    exact .of_all (all_escapeOctet _ hc)
  · have hsame : (String.utf8EncodeChar c).flatMap escapeOctet = String.utf8EncodeChar c := by
      refine (List.flatMap_congr fun b hb => escapeOctet_of_le ?_).trans
        (List.flatMap_singleton' _)
      refine UInt8.not_lt.1 fun hlt => hc ?_
      rw [(mem_utf8EncodeChar hlt).1 hb]
      exact UInt8.lt_iff_toNat_lt.1 hlt
    rw [hsame]
    exact .char c

end FileRelay.Json
