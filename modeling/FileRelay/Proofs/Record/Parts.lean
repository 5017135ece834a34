import FileRelay.Proofs.Record.Tiling
import Mathlib.Logic.ExistsUnique

/-!
# Proofs/Record/Parts — a record validates exactly when its parts tile its length, all in words

A record validates exactly when its fields fit together as natural numbers (`layout_iff_tiled`).  The
places of its parts then lie behind one another from zero to the length, so that every octet of the
file lies in exactly one part (`validate_tiles`).

A layout and the place of a part are counted in words, one operation after the other.
`layoutByWords?` and `startByWords?` have no answer as soon as one of these operations leaves the
words; for a positive length and part size, and for a record that validates, none does.
-/

namespace FileRelay

/-- The difference of two words, if it is not negative. -/
def Word.sub? (a b : UInt64) : Option UInt64 := if b ≤ a then some (a - b) else none

theorem Word.sub?_eq_some_iff {a b c : UInt64} :
    Word.sub? a b = some c ↔ a.toNat = b.toNat + c.toNat := by
  unfold sub?
  split
  · rename_i hle
    have hsub := UInt64.toNat_sub_of_le a b hle
    rw [UInt64.le_iff_toNat_le] at hle
    rw [Option.some.injEq, ← UInt64.toNat_inj]
    omega
  · rename_i hlt
    rw [UInt64.le_iff_toNat_le] at hlt
    simp only [reduceCtorEq, false_iff]
    omega

/-! ## Layouts -/

/-- The quotient of two words rounded up: one more than the whole quotient if something is left. -/
def quotientUp? (a b : UInt64) : Option UInt64 :=
  if 0 < a % b then Word.add? (a / b) 1 else some (a / b)

/-- **A layout counted in words**, step by step. -/
def layoutByWords? (length partSize : UInt64) : Option (UInt64 × UInt64) :=
  (quotientUp? length partSize).bind fun parts =>
    (Word.sub? parts 1).bind fun others =>
      (Word.mul? others partSize).bind fun start =>
        (Word.sub? length start).map fun last => (parts, last)

/-- The number of parts is the quotient rounded up. -/
theorem partCount_eq (length : Nat) {partSize : Nat} (hs : 0 < partSize) :
    partCount length partSize
      = length / partSize + (if 0 < length % partSize then 1 else 0) := by
  have hsplit := Nat.div_add_mod length partSize
  have hmod := Nat.mod_lt length hs
  have hsum : length + (partSize - 1)
      = length % partSize + (partSize - 1) + partSize * (length / partSize) := by omega
  rw [partCount, hsum, Nat.add_mul_div_left _ _ hs, Nat.add_comm]
  congr 1
  split
  · rw [Nat.div_eq_iff hs]
    omega
  · rw [Nat.div_eq_of_lt]
    omega

theorem quotientUp?_eq {length partSize parts : UInt64} (hs : 0 < partSize.toNat)
    (hp : parts.toNat = partCount length.toNat partSize.toNat) :
    quotientUp? length partSize = some parts := by
  rw [partCount_eq _ hs] at hp
  unfold quotientUp?
  simp only [UInt64.lt_iff_toNat_lt, UInt64.toNat_mod, UInt64.toNat_zero]
  split
  all_goals rename_i hmod; simp only [hmod, ↓reduceIte] at hp
  · rw [Word.add?_eq_some_iff, hp, UInt64.toNat_div, UInt64.toNat_one]
  · rw [Option.some.injEq, ← UInt64.toNat_inj, hp, UInt64.toNat_div, Nat.add_zero]

/-- **No step of a layout leaves the words.** -/
theorem layoutByWords?_eq {length partSize : UInt64} (hl : 0 < length.toNat)
    (hs : 0 < partSize.toNat) : ∃ parts last,
      layoutByWords? length partSize = some (parts, last) ∧
        layout length partSize = .ok (parts, last) := by
  have hpositive : partSize ≠ 0 ∧ length ≠ 0 := by
    constructor <;> rintro rfl <;> contradiction
  have hlayout : layout length partSize
      = .ok (UInt64.ofNat (partCount length.toNat partSize.toNat),
        UInt64.ofNat (lastPartLength length.toNat partSize.toNat)) := by
    rw [layout, if_neg hpositive.1, if_neg hpositive.2]
  obtain ⟨-, -, hparts, hlast⟩ := layout_eq_ok_iff.1 hlayout
  refine ⟨_, _, ?_, hlayout⟩
  generalize UInt64.ofNat (partCount length.toNat partSize.toNat) = parts at hparts
  generalize UInt64.ofNat (lastPartLength length.toNat partSize.toNat) = last at hlast
  have hfills := layout_fills hl hs
  have hcount := partCount_pos hl hs
  rw [← hparts, ← hlast] at hfills
  obtain ⟨others, -, hothers⟩ := Word.ofNat?_of_lt (n := parts.toNat - 1)
    (Nat.lt_of_le_of_lt (Nat.sub_le _ _) (Word.toNat_lt_limit parts))
  obtain ⟨start, -, hstart⟩ := Word.ofNat?_of_lt (n := (parts.toNat - 1) * partSize.toNat)
    (Nat.lt_of_le_of_lt (by omega) (Word.toNat_lt_limit length))
  have hsub : Word.sub? parts 1 = some others := by
    rw [Word.sub?_eq_some_iff, hothers, UInt64.toNat_one]
    omega
  have hmul : Word.mul? others partSize = some start := by
    rw [Word.mul?_eq_some_iff, hstart, hothers]
  have hrest : Word.sub? length start = some last := by
    rw [Word.sub?_eq_some_iff, hstart]
    omega
  rw [layoutByWords?, quotientUp?_eq hs hparts, Option.bind_some, hsub, Option.bind_some, hmul,
    Option.bind_some, hrest, Option.map_some]

namespace FileRecord

variable {r : FileRecord} {n n' : UInt64} {start start' length length' : UInt64} {k x : Nat}

/-- The only number of parts that fill a length, the last one being neither empty nor too long. -/
theorem Tiled.partCount_eq (h : r.Tiled) :
    partCount r.length.toNat r.partSize.toNat = r.parts.toNat := by
  have hpos := h.parts_pos
  have hfirst := h.last_pos
  have hlast := h.last_le
  obtain ⟨p, hp⟩ : ∃ p, r.parts.toNat = p + 1 := ⟨r.parts.toNat - 1, by omega⟩
  have hfills := h.fills
  rw [hp, Nat.add_sub_cancel] at hfills
  have hsum : r.length.toNat + (r.partSize.toNat - 1)
      = r.lastPartSize.toNat - 1 + r.partSize.toNat * (p + 1) := by
    rw [← hfills, Nat.mul_comm p, Nat.mul_succ]
    omega
  rw [partCount, hsum, Nat.add_mul_div_left _ _ (by omega), Nat.div_eq_of_lt (by omega), hp,
    Nat.zero_add]

/-- **The layout of a length is the one that tiles it.** -/
theorem layout_iff_tiled :
    layout r.length r.partSize = .ok (r.parts, r.lastPartSize) ↔ r.Tiled := by
  refine ⟨tiled_of_layout, fun h => ?_⟩
  have hfills := h.fills
  have hfirst := h.last_pos
  have hlast := h.last_le
  refine layout_eq_ok_iff.2 ⟨by omega, by omega, h.partCount_eq.symm, ?_⟩
  rw [lastPartLength, h.partCount_eq]
  omega

/-! ## Places of parts -/

/-- **The beginning of a part counted in words**, step by step. -/
def startByWords? (r : FileRecord) (n : UInt64) : Option (Option UInt64) :=
  match r.partLength? n with
  | none => some none
  | some _ => (Word.sub? n 1).bind fun others => (Word.mul? others r.partSize).map some

/-- **A part lies** at a place of the file, and is so long. -/
def Lies (r : FileRecord) (n start length : UInt64) : Prop :=
  r.partStart? n = some (some start) ∧ r.partLength? n = some length

namespace Tiled

/-- No step towards the beginning of a part leaves the words. -/
theorem startByWords?_eq (h : r.Tiled) (n : UInt64) :
    r.startByWords? n = r.partStart? n ∧ r.partStart? n ≠ none := by
  obtain ⟨o, ho, -⟩ := h.partStart?_eq n
  refine ⟨?_, by simp [ho]⟩
  unfold startByWords? partStart?
  rcases hl : r.partLength? n with _ | length
  · rfl
  · obtain ⟨hpos, -⟩ := partLength?_eq_some_iff.1 hl
    have hle : 1 ≤ n := UInt64.le_iff_toNat_le.2 hpos
    simp only [Word.sub?, hle, ↓reduceIte, Option.bind_some]

/-- No part is empty. -/
theorem span_pos (h : r.Tiled) (k : Nat) : 0 < r.span k := by
  unfold span
  split
  · exact h.last_pos
  · exact Nat.lt_of_lt_of_le h.last_pos h.last_le

/-- **A part lies where the parts before it end**, as far as it is long. -/
theorem lies_iff (h : r.Tiled) : r.Lies n start length ↔
    0 < n.toNat ∧ n.toNat ≤ r.parts.toNat ∧ start.toNat = r.reach (n.toNat - 1) ∧
      start.toNat + length.toNat = r.reach n.toNat := by
  obtain ⟨o, ho, hstart⟩ := h.partStart?_eq n
  rw [Lies, ho, Option.some.injEq, hstart, partLength?_eq_some_iff]
  by_cases hn : 0 < n.toNat ∧ n.toNat ≤ r.parts.toNat
  swap
  · tauto
  obtain ⟨hpos, hle⟩ := hn
  have hbegin := h.reach_of_lt (k := n.toNat - 1) (by omega)
  have hend := h.reach_succ (k := n.toNat - 1) (by omega)
  rw [Nat.sub_add_cancel hpos] at hend
  rw [hend, ← hbegin]
  omega

/-- **The record has exactly the parts from one to their number.** -/
theorem exists_lies_iff (h : r.Tiled) :
    (∃ start length, r.Lies n start length) ↔ 1 ≤ n.toNat ∧ n.toNat ≤ r.parts.toNat := by
  constructor
  · rintro ⟨start, length, hlies⟩
    obtain ⟨hpos, hle, -⟩ := h.lies_iff.1 hlies
    exact ⟨hpos, hle⟩
  · rintro ⟨hpos, hle⟩
    have hreach := h.reach_succ (k := n.toNat - 1) (by omega)
    rw [Nat.sub_add_cancel hpos] at hreach
    have hlimit := r.reach_lt_limit n.toNat
    obtain ⟨start, -, hstart⟩ := Word.ofNat?_of_lt (r.reach_lt_limit (n.toNat - 1))
    obtain ⟨length, -, hlength⟩ := Word.ofNat?_of_lt (n := r.span (n.toNat - 1)) (by omega)
    exact ⟨start, length, h.lies_iff.2 ⟨hpos, hle, hstart, by rw [hstart, hlength, hreach]⟩⟩

theorem exists_partLength_iff (h : r.Tiled) :
    (∃ length, r.partLength? n = some length) ↔ 1 ≤ n.toNat ∧ n.toNat ≤ r.parts.toNat := by
  constructor
  · rintro ⟨length, hl⟩
    obtain ⟨hpos, hle, -⟩ := partLength?_eq_some_iff.1 hl
    exact ⟨hpos, hle⟩
  · intro hn
    obtain ⟨-, length, -, hl⟩ := h.exists_lies_iff.2 hn
    exact ⟨length, hl⟩

theorem exists_partStart_iff (h : r.Tiled) :
    (∃ start, r.partStart? n = some (some start)) ↔ 1 ≤ n.toNat ∧ n.toNat ≤ r.parts.toNat := by
  constructor
  · rintro ⟨start, hs⟩
    obtain ⟨o, ho, hstart⟩ := h.partStart?_eq n
    obtain rfl := Option.some.inj (ho.symm.trans hs)
    obtain ⟨hpos, hle, -⟩ := (hstart start).1 rfl
    exact ⟨hpos, hle⟩
  · intro hn
    obtain ⟨start, -, hs, -⟩ := h.exists_lies_iff.2 hn
    exact ⟨start, hs⟩

/-- A part that lies somewhere is not empty. -/
theorem length_pos (h : r.Tiled) (hlies : r.Lies n start length) : 0 < length.toNat := by
  rw [(partLength?_eq_some_iff.1 hlies.2).2.2]
  exact h.span_pos _

/-- **A part begins where the one before it ends.** -/
theorem adjacent (h : r.Tiled) (hlies : r.Lies n start length) (hlies' : r.Lies n' start' length')
    (hn : n'.toNat = n.toNat + 1) : start'.toNat = start.toNat + length.toNat := by
  obtain ⟨-, -, -, hend⟩ := h.lies_iff.1 hlies
  obtain ⟨-, -, hbegin, -⟩ := h.lies_iff.1 hlies'
  rw [hbegin, hn, Nat.add_sub_cancel, hend]

/-- The octets of one part are those with one quotient by the part size. -/
theorem within_iff (h : r.Tiled) (hk : k < r.parts.toNat) :
    r.reach k ≤ x ∧ x < r.reach (k + 1) ↔ x < r.length.toNat ∧ x / r.partSize.toNat = k := by
  have hpos : 0 < r.partSize.toNat := Nat.lt_of_lt_of_le h.last_pos h.last_le
  rw [h.reach_of_lt hk, reach, Nat.lt_min, ← Nat.le_div_iff_mul_le hpos,
    ← Nat.div_lt_iff_lt_mul hpos]
  omega

/-- Every octet of the file lies in a part. -/
theorem div_lt (h : r.Tiled) (hx : x < r.length.toNat) :
    x / r.partSize.toNat < r.parts.toNat := by
  have hpos : 0 < r.partSize.toNat := Nat.lt_of_lt_of_le h.last_pos h.last_le
  rw [Nat.div_lt_iff_lt_mul hpos]
  exact Nat.lt_of_lt_of_le hx h.length_le

/-- **Every octet of the file lies in exactly one part**, and no other place does. -/
theorem lt_length_iff (h : r.Tiled) (x : Nat) : x < r.length.toNat ↔ ∃! n, ∃ start length,
    r.Lies n start length ∧ start.toNat ≤ x ∧ x < start.toNat + length.toNat := by
  have hwithin : ∀ n : UInt64, (∃ start length,
      r.Lies n start length ∧ start.toNat ≤ x ∧ x < start.toNat + length.toNat) →
      x < r.length.toNat ∧ n.toNat = x / r.partSize.toNat + 1 := by
    rintro n ⟨start, length, hlies, hbegin, hend⟩
    obtain ⟨hpos, hle, hstart, hreach⟩ := h.lies_iff.1 hlies
    rw [hstart] at hbegin
    rw [hreach, ← Nat.sub_add_cancel hpos] at hend
    obtain ⟨hx, hdiv⟩ := (h.within_iff (k := n.toNat - 1) (by omega)).1 ⟨hbegin, hend⟩
    exact ⟨hx, by omega⟩
  constructor
  · intro hx
    have hlt := h.div_lt hx
    obtain ⟨n, -, hn⟩ := Word.ofNat?_of_lt (n := x / r.partSize.toNat + 1)
      (Nat.lt_of_le_of_lt hlt (Word.toNat_lt_limit r.parts))
    obtain ⟨start, length, hlies⟩ := (h.exists_lies_iff (n := n)).2
      ⟨hn ▸ Nat.succ_pos _, hn ▸ hlt⟩
    obtain ⟨-, -, hstart, hreach⟩ := h.lies_iff.1 hlies
    rw [hn, Nat.add_sub_cancel] at hstart
    rw [hn] at hreach
    obtain ⟨hbegin, hend⟩ := (h.within_iff hlt).2 ⟨hx, rfl⟩
    refine ⟨n, ⟨start, length, hlies, hstart ▸ hbegin, hreach ▸ hend⟩, fun n' hn' => ?_⟩
    rw [← UInt64.toNat_inj, (hwithin n' hn').2, hn]
  · rintro ⟨n, hn, -⟩
    exact (hwithin n hn).1

end Tiled

/-- **A record validates exactly when its fields fit together**, and then its parts tile its length:
they are those from one to their number, none of them is empty, each begins where the one before it
ends, the first at zero, and the last ends at the length.  Nothing on the way leaves the words. -/
theorem validate_tiles (r : FileRecord) :
    (r.validate = .ok () ↔ r.id ≠ "" ∧ 0 < r.length.toNat ∧ 0 < r.partSize.toNat ∧
      1 ≤ r.lastPartSize.toNat ∧ r.lastPartSize.toNat ≤ r.partSize.toNat ∧ 1 ≤ r.parts.toNat ∧
      (r.parts.toNat - 1) * r.partSize.toNat + r.lastPartSize.toNat = r.length.toNat ∧
      r.firstSequence ≠ some 0 ∧ (r.digestAlgorithm.isSome ↔ r.digestValue.isSome)) ∧
    (∀ length partSize : UInt64, 0 < length.toNat → 0 < partSize.toNat → ∃ parts last,
      layoutByWords? length partSize = some (parts, last) ∧
        layout length partSize = .ok (parts, last)) ∧
    (r.validate = .ok () →
      (∀ n, r.startByWords? n = r.partStart? n ∧ r.partStart? n ≠ none) ∧
      (∀ n, (∃ length, r.partLength? n = some length) ↔
        1 ≤ n.toNat ∧ n.toNat ≤ r.parts.toNat) ∧
      (∀ n, (∃ start, r.partStart? n = some (some start)) ↔
        1 ≤ n.toNat ∧ n.toNat ≤ r.parts.toNat) ∧
      (∀ n start length, r.Lies n start length → 0 < length.toNat ∧
        (n.toNat = 1 → start.toNat = 0) ∧
        (n = r.parts → start.toNat + length.toNat = r.length.toNat) ∧
        ∀ n' start' length', n'.toNat = n.toNat + 1 → r.Lies n' start' length' →
          start'.toNat = start.toNat + length.toNat) ∧
      ∀ x, x < r.length.toNat ↔ ∃! n, ∃ start length,
        r.Lies n start length ∧ start.toNat ≤ x ∧ x < start.toNat + length.toNat) := by
  refine ⟨?_, fun _ _ => layoutByWords?_eq, fun hv => ?_⟩
  · rw [validate_eq_ok_iff, layout_iff_tiled]
    constructor
    · rintro ⟨hid, ⟨hparts, hfills, hfirst, hlast⟩, hrest⟩
      exact ⟨hid, by omega, by omega, hfirst, hlast, hparts, hfills, hrest⟩
    · rintro ⟨hid, -, -, hfirst, hlast, hparts, hfills, hrest⟩
      exact ⟨hid, ⟨hparts, hfills, hfirst, hlast⟩, hrest⟩
  · have h := tiled_of_validate hv
    refine ⟨h.startByWords?_eq, fun _ => h.exists_partLength_iff, fun _ => h.exists_partStart_iff,
      fun n start length hlies => ?_, h.lt_length_iff⟩
    obtain ⟨-, -, hstart, hreach⟩ := h.lies_iff.1 hlies
    refine ⟨h.length_pos hlies, fun hn => ?_, ?_, fun n' start' length' hn hlies' =>
      h.adjacent hlies hlies' hn⟩
    · rw [hstart, hn, Nat.sub_self, reach_zero]
    · rintro rfl
      rw [hreach, h.reach_parts]

/-- A file as long as words go, in two parts. -/
theorem validate_tiles_of_longest : ∃ r : FileRecord, r.validate = .ok () ∧
    r.length.toNat + 1 = Word.limit ∧
    ∃! n, ∃ start length, r.Lies n start length ∧ start.toNat ≤ 0xFFFFFFFFFFFFFFFE ∧
      0xFFFFFFFFFFFFFFFE < start.toNat + length.toNat := by
  let r : FileRecord := ⟨"id", "name", "", "", 0xFFFFFFFFFFFFFFFF, 2, 0x8000000000000000,
    0x7FFFFFFFFFFFFFFF, .epoch, none, none, none⟩
  have hv : r.validate = .ok () := by decide
  obtain ⟨-, -, -, -, hcovered⟩ := (validate_tiles r).2.2 hv
  exact ⟨r, hv, by decide, (hcovered _).1 (by decide)⟩

end FileRecord

end FileRelay
