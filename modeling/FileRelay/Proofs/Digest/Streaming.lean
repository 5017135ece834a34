import FileRelay.Digest.Digester
import Mathlib.Tactic.Common

/-!
# Proofs/Digest/Streaming — a digest in pieces is the digest of the whole

A stream that has absorbed a block has compressed it (`absorb_block`), so that absorbing a padded
message compresses its blocks one after the other.  Hence the value of a digester is the digest of
all that it has absorbed (`Digester.value_absorb`).
-/

namespace FileRelay.Digest

section

variable {W : Type} [Add W] [XorOp W] [AndOp W] [Complement W] {r : Family W}

namespace Stream

variable {s : Stream W} {p : Bytes}

theorem absorb_length (s : Stream W) (p : Bytes) : (s.absorb r p).length = s.length + p.length := by
  induction p generalizing s with
  | nil => rfl
  | cons b p ih =>
    have hpush : (s.push r b).length = s.length + 1 := by
      unfold push
      split <;> rfl
    rw [absorb, List.foldl_cons, ← absorb, ih, hpush, List.length_cons]
    omega

/-- **A block that is filled is compressed.** -/
theorem absorb_fill (hs : s.length % r.blockOctets = s.held.length)
    (hp : s.held.length + p.length = r.blockOctets) (hne : p ≠ []) :
    s.absorb r p
      = ⟨r.compress s.chain (s.held.reverse ++ p), [], s.length + p.length⟩ := by
  induction p generalizing s with
  | nil => exact absurd rfl hne
  | cons b p ih =>
    rw [List.length_cons] at hp
    rw [absorb, List.foldl_cons, ← absorb, push, Nat.add_mod, hs]
    rcases p with _ | ⟨c, p⟩
    · have hone : (s.held.length + 1 % r.blockOctets) % r.blockOctets = 0 := by
        rw [Nat.add_mod_mod, show s.held.length + 1 = r.blockOctets from hp, Nat.mod_self]
      rw [if_pos hone]
      simp
    · rw [List.length_cons] at hp
      have hlt : s.held.length + 1 < r.blockOctets := by omega
      have hmod : (s.held.length + 1 % r.blockOctets) % r.blockOctets = s.held.length + 1 := by
        rw [Nat.add_mod_mod, Nat.mod_eq_of_lt hlt]
      have hnext : (s.length + 1) % r.blockOctets = (b :: s.held).length := by
        rw [Nat.add_mod, hs, hmod, List.length_cons]
      rw [hmod, if_neg (Nat.succ_ne_zero _),
        ih hnext (by simp only [List.length_cons]; omega) (List.cons_ne_nil c p)]
      simp only [List.reverse_cons, List.append_assoc, List.singleton_append, List.length_cons]
      congr 1
      omega

/-- Whole blocks are compressed one after the other. -/
theorem absorb_blocks {n : Nat} (hr : 0 < r.blockOctets) (hheld : s.held = [])
    (hs : s.length % r.blockOctets = 0) (hp : p.length = n * r.blockOctets) :
    (s.absorb r p).chain = r.compressBlocks n s.chain p := by
  induction n generalizing s p with
  | zero =>
    obtain rfl : p = [] := List.length_eq_zero_iff.1 (by omega)
    rfl
  | succ n ih =>
    have hlen : p.length = r.blockOctets + n * r.blockOctets := by rw [hp, Nat.add_mul]; omega
    have htake : (p.take r.blockOctets).length = r.blockOctets := by
      rw [List.length_take]; omega
    have hfill := absorb_fill (r := r) (s := s) (p := p.take r.blockOctets)
      (by rw [hheld, hs]; rfl) (by rw [hheld, htake]; simp)
      (List.ne_nil_of_length_pos (by omega))
    rw [hheld, List.reverse_nil, List.nil_append, htake] at hfill
    rw [← List.take_append_drop r.blockOctets p, absorb_append, hfill, ih rfl]
    · rw [Family.compressBlocks, List.take_append_drop]
    · simp only [Nat.add_mod_right]
      exact hs
    · rw [List.length_drop, hlen]
      omega

end Stream

omit [Add W] [XorOp W] [AndOp W] [Complement W] in
/-- A padded message consists of whole blocks. -/
theorem Family.padded_mod (hr : 0 < r.wordOctets) (n : Nat) :
    (n + (r.padding n).length) % r.blockOctets = 0 := by
  have hb : r.blockOctets = 16 * r.wordOctets := rfl
  have hl : r.lengthOctets = 2 * r.wordOctets := rfl
  have hlt : n % r.blockOctets < r.blockOctets := Nat.mod_lt _ (by omega)
  have hn := Nat.div_add_mod n r.blockOctets
  obtain ⟨q, hq⟩ : ∃ q, q = 2 * r.blockOctets - 1 - r.lengthOctets - n % r.blockOctets := ⟨_, rfl⟩
  have hz := Nat.div_add_mod q r.blockOctets
  have hlen : (r.padding n).length = 1 + q % r.blockOctets + r.lengthOctets := by
    simp only [padding, hq, List.length_cons, List.length_append, List.length_replicate,
      Bytes.length_bigEndian]
    omega
  have htotal : n + (r.padding n).length + r.blockOctets * (q / r.blockOctets)
      = r.blockOctets * (n / r.blockOctets + 2) := by
    rw [hlen, Nat.mul_add]
    omega
  rw [← Nat.add_mul_mod_self_left _ _ (q / r.blockOctets), htotal, Nat.mul_mod_right]

/-- **A stream's digest is that of the whole message.** -/
theorem Stream.finish_absorb (hr : 0 < r.wordOctets) (first : Chain W) (m : Bytes) :
    ((Stream.start first).absorb r m).finish r = r.digest first m := by
  have hblock : 0 < r.blockOctets := by unfold Family.blockOctets; omega
  have hlen : ((Stream.start first).absorb r m).length = m.length := by
    rw [absorb_length]
    exact Nat.zero_add _
  have hpad : (m ++ r.padding m.length).length
      = (m ++ r.padding m.length).length / r.blockOctets * r.blockOctets := by
    refine (Nat.div_mul_cancel (Nat.dvd_of_mod_eq_zero ?_)).symm
    rw [List.length_append]
    exact Family.padded_mod hr m.length
  rw [finish, hlen, ← absorb_append, Family.digest,
    absorb_blocks hblock rfl (Nat.zero_mod _) hpad]
  rfl

end

theorem Running.finish_absorb (a : Algorithm) (m : Bytes) :
    ((Running.start a).absorb m).finish = a.digest m := by
  cases a with
  | sha256 => exact Stream.finish_absorb (by decide) first256 m
  | sha384 => exact congrArg (List.take 48) (Stream.finish_absorb (by decide) first384 m)
  | sha512 => exact Stream.finish_absorb (by decide) first512 m

namespace Digester

/-- Where a message is cut makes no difference to a digester that was not looked at. -/
theorem absorb_append (a : Algorithm) (p q : Bytes) :
    ((new a).absorb p).absorb q = (new a).absorb (p ++ q) := by
  simp only [absorb, isFixed, new, Option.isSome_none, Bool.false_eq_true, ↓reduceIte,
    Running.absorb_append]

theorem absorb_nil (a : Algorithm) : (new a).absorb [] = new a := by
  cases a <;> rfl

/-- **The value of a digester** is the digest of what it has absorbed. -/
theorem value_absorb (a : Algorithm) (m : Bytes) : ((new a).absorb m).value.1 = a.hexDigest m := by
  rw [Algorithm.hexDigest, ← Running.finish_absorb]
  rfl

end Digester

end FileRelay.Digest
