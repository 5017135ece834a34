import FileRelay.Digest.Algorithm
import FileRelay.Digest.Entry
import Mathlib.Tactic.Common

/-!
# Proofs/Digest/Entry — the entry of a digest is read back

The digest of a message has the length of its algorithm and is written in hexadecimal digits, so the
text of its entry is read back (`Entry.parse_text`): no equals sign stands in the name of an
algorithm, and nothing has to be trimmed.
-/

namespace FileRelay.Digest

open Text (isBlank isHexDigit trim)

/-! ## Lengths -/

theorem Family.length_octets {W : Type} (r : Family W) (x : Chain W) :
    (r.octets x).length = 8 * r.wordOctets := by
  simp only [octets, Chain.toList, List.length_flatMap, Bytes.length_bigEndian, List.map_cons,
    List.map_nil, List.sum_cons, List.sum_nil]
  omega

/-- **A digest has the length of its algorithm.** -/
theorem Algorithm.length_digest (a : Algorithm) (m : Bytes) :
    (a.digest m).length = a.digestOctets := by
  cases a with
  | sha256 => exact Family.length_octets _ _
  | sha384 =>
    rw [digest, List.length_take, Family.digest, Family.length_octets]
    rfl
  | sha512 => exact Family.length_octets _ _

/-! ## Hexadecimal digits -/

/-- **Octets are written in digits**: what all digits have, all their characters have. -/
theorem forall_hexDigits {p : Char → Prop} {a : Char} (h : ∀ n < 16, p (Bytes.hexDigit a n))
    {b : Bytes} : ∀ c ∈ Bytes.hexDigits a b, p c := by
  intro c hc
  obtain ⟨x, -, hx⟩ := List.mem_flatMap.1 hc
  have := x.toNat_lt
  simp only [List.mem_cons, List.not_mem_nil, or_false] at hx
  rcases hx with rfl | rfl
  · exact h _ (by omega)
  · exact h _ (by omega)

/-- Upper-case digits are hexadecimal digits. -/
theorem hexDigits_upper {b : Bytes} : ∀ c ∈ Bytes.hexDigits 'A' b, isHexDigit c = true :=
  forall_hexDigits (by decide)

/-- A hexadecimal digit is not blank. -/
theorem isBlank_of_isHexDigit {c : Char} (h : isHexDigit c = true) : isBlank c = false := by
  simp only [isHexDigit, Char.isDigit, Bool.or_eq_true, Bool.and_eq_true, decide_eq_true_eq,
    Char.le_def, UInt32.le_iff_toNat_le] at h
  have hlow : 48 ≤ c.toNat ∧ c.toNat ≤ 102 := by
    rcases h with (⟨hlow, hhigh⟩ | ⟨hlow, hhigh⟩) | ⟨hlow, hhigh⟩ <;>
      exact ⟨Nat.le_trans (by decide) hlow, Nat.le_trans hhigh (by decide)⟩
  simp only [isBlank, Bool.or_eq_false_iff, Bool.and_eq_false_iff, decide_eq_false_iff_not,
    beq_eq_false_iff_ne, ne_eq]
  omega

/-- A text without blanks is its own trimmed form. -/
theorem trim_of_forall {cs : List Char} (h : ∀ c ∈ cs, isBlank c = false) : trim cs = cs :=
  Text.trim_of_ends (fun c hc => h c (List.mem_of_mem_head? hc))
    fun c hc => h c (List.mem_of_getLast? hc)

/-! ## Entries -/

namespace Entry

theorem splitAtEquals?_append {a : List Char} (h : '=' ∉ a) (v : List Char) :
    splitAtEquals? (a ++ '=' :: v) = some (a, v) := by
  induction a with
  | nil => simp [splitAtEquals?]
  | cons c a ih =>
    rw [List.mem_cons, not_or] at h
    obtain ⟨hc, ha⟩ := h
    simp [splitAtEquals?, Ne.symm hc, ih ha]

/-- **An entry that is read back from its text**: its algorithm has a name without an equals sign and
without blanks at its ends, and its value is a row of hexadecimal digits. -/
structure Regular (e : Entry) : Prop where
  algorithm : e.algorithm.toList ≠ []
  noEquals : '=' ∉ e.algorithm.toList
  first : ∀ c ∈ e.algorithm.toList.head?, isBlank c = false
  last : ∀ c ∈ e.algorithm.toList.getLast?, isBlank c = false
  value : e.value.toList ≠ []
  digits : ∀ c ∈ e.value.toList, isHexDigit c = true

/-- **What stands around the first equals sign**, and no sign before it. -/
theorem splitAtEquals?_eq_some {cs a v : List Char} (h : splitAtEquals? cs = some (a, v)) :
    cs = a ++ '=' :: v ∧ '=' ∉ a := by
  induction cs generalizing a with
  | nil => simp [splitAtEquals?] at h
  | cons c cs ih =>
    rw [splitAtEquals?] at h
    split at h
    · rename_i hc
      obtain ⟨rfl, rfl⟩ : [] = a ∧ cs = v := by simpa using h
      exact ⟨by rw [hc]; rfl, List.not_mem_nil⟩
    · rename_i hc
      obtain ⟨⟨a', v'⟩, hr, heq⟩ := Option.map_eq_some_iff.1 h
      obtain ⟨rfl, rfl⟩ := Prod.mk.inj heq
      obtain ⟨rfl, hnone⟩ := ih hr
      exact ⟨rfl, fun hmem => (List.mem_cons.1 hmem).elim (fun heq => hc heq.symm) hnone⟩

/-- **A regular entry is read back** from its text. -/
theorem Regular.parse_text {e : Entry} (h : e.Regular) : parse e.text = .ok e := by
  have htext : e.text.toList = e.algorithm.toList ++ '=' :: e.value.toList := by simp [text]
  have hvalue : trim e.value.toList = e.value.toList :=
    trim_of_forall fun c hc => isBlank_of_isHexDigit (h.digits c hc)
  have hall : e.value.toList.all isHexDigit = true := List.all_eq_true.2 h.digits
  simp only [parse, htext, splitAtEquals?_append h.noEquals, Text.trim_of_ends h.first h.last, hvalue]
  simp [h.algorithm, h.value, hall]

/-- **What is read is regular.** -/
theorem regular_of_parse {s : String} {e : Entry} (h : parse s = .ok e) : e.Regular := by
  rw [parse] at h
  split at h
  · cases h
  rename_i a v hsplit
  dsimp only at h
  split at h
  · cases h
  rename_i hread
  simp only [Bool.or_eq_true, List.isEmpty_iff, Bool.not_eq_true', not_or, Bool.not_eq_false] at hread
  obtain ⟨⟨hname, hvalue⟩, hdigits⟩ := hread
  obtain rfl := (Except.ok.inj h).symm
  obtain ⟨hfirst, hlast⟩ := Text.trim_ends a
  obtain ⟨-, hnone⟩ := splitAtEquals?_eq_some hsplit
  refine ⟨?_, ?_, ?_, ?_, ?_, ?_⟩ <;> simp only [String.toList_ofList]
  · exact hname
  · exact fun hmem => hnone (Text.trim_sublist a |>.subset hmem)
  · exact hfirst
  · exact hlast
  · exact hvalue
  · exact List.all_eq_true.1 hdigits

/-- Whether a text holds no equals sign and no blank can be computed. -/
theorem plain_of_all {cs : List Char} (h : (cs ≠ [] ∧ '=' ∉ cs) ∧
    cs.all (fun c => !isBlank c) = true) : cs ≠ [] ∧ '=' ∉ cs ∧ ∀ c ∈ cs, isBlank c = false := by
  obtain ⟨⟨hne, hequals⟩, hall⟩ := h
  exact ⟨hne, hequals, fun c hc => by simpa using List.all_eq_true.1 hall c hc⟩

/-- The name of an algorithm holds no equals sign and no blank. -/
theorem name_plain (a : Algorithm) : a.name.toList ≠ [] ∧ '=' ∉ a.name.toList ∧
    ∀ c ∈ a.name.toList, isBlank c = false :=
  plain_of_all (by cases a <;> decide)

/-- **The entry of a digest is regular.** -/
theorem regular_digest (a : Algorithm) (m : Bytes) : Regular ⟨a.name, a.hexDigest m⟩ := by
  obtain ⟨hne, hequals, hblank⟩ := name_plain a
  have hvalue : (a.hexDigest m).toList = Bytes.hexDigits 'A' (a.digest m) := by
    simp [Algorithm.hexDigest, Bytes.hexUpper]
  refine ⟨hne, hequals, fun c hc => hblank c (List.mem_of_mem_head? hc),
    fun c hc => hblank c (List.mem_of_getLast? hc), ?_, ?_⟩ <;> simp only [hvalue]
  · rw [← List.length_pos_iff, Bytes.length_hexDigits, a.length_digest]
    cases a <;> decide
  · exact hexDigits_upper

end Entry

end FileRelay.Digest
