/-!
# Word — 64-bit counters, and sums and products that must fit one

Lengths, part numbers and log sequences are 64-bit words.  A sum or product that does not fit a word
has no value here: `add?` and `mul?` are `none` exactly then, so that nothing ever wraps.  Running
counters are natural numbers and `fit` is their limit.
-/

namespace FileRelay.Word

/-- The first number that is too large for a word, `2 ^ 64`. -/
def limit : Nat := 0x10000000000000000

/-- The number itself, if it fits a word. -/
def fit (n : Nat) : Option Nat := if n < limit then some n else none

/-- The word of this value, if there is one. -/
def ofNat? (n : Nat) : Option UInt64 := if n < limit then some (UInt64.ofNat n) else none

/-- The sum of two words, if it fits one. -/
def add? (a b : UInt64) : Option UInt64 := ofNat? (a.toNat + b.toNat)

/-- The product of two words, if it fits one. -/
def mul? (a b : UInt64) : Option UInt64 := ofNat? (a.toNat * b.toNat)

theorem fit_eq_some_iff {n m : Nat} : fit n = some m ↔ n < limit ∧ m = n := by
  unfold fit; split <;> simp_all [eq_comm, Nat.not_lt.2]

theorem fit_of_lt {n : Nat} (h : n < limit) : fit n = some n := fit_eq_some_iff.2 ⟨h, rfl⟩

theorem toNat_lt_limit (a : UInt64) : a.toNat < limit := a.toNat_lt

theorem ofNat?_toNat (a : UInt64) : ofNat? a.toNat = some a := by
  simp [ofNat?, toNat_lt_limit a]

theorem ofNat?_eq_some_iff {n : Nat} {a : UInt64} : ofNat? n = some a ↔ a.toNat = n := by
  constructor
  · intro h
    unfold ofNat? at h
    split at h
    · cases h
      rename_i hn
      exact UInt64.toNat_ofNat_of_lt' hn
    · cases h
  · rintro rfl; exact ofNat?_toNat a

theorem ofNat?_of_lt {n : Nat} (h : n < limit) : ∃ a, ofNat? n = some a ∧ a.toNat = n :=
  ⟨UInt64.ofNat n, by simp [ofNat?, h], UInt64.toNat_ofNat_of_lt' h⟩

theorem add?_eq_some_iff {a b c : UInt64} : add? a b = some c ↔ c.toNat = a.toNat + b.toNat :=
  ofNat?_eq_some_iff

theorem mul?_eq_some_iff {a b c : UInt64} : mul? a b = some c ↔ c.toNat = a.toNat * b.toNat :=
  ofNat?_eq_some_iff

end FileRelay.Word
