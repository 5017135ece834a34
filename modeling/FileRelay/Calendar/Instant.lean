import FileRelay.Calendar.Date

/-!
# Calendar/Instant — points of time to the nanosecond, leap seconds included

An **instant** is a number of seconds from the beginning of 1970 and the nanoseconds within that
second.  A leap second has no number of its own: it is the second before it with a thousand million
nanoseconds more, and so it can only follow the last second of a minute.  Years run from `-262143`
to `262142`.  Instants are ordered by their seconds and then by their nanoseconds.
-/

namespace FileRelay.Calendar

namespace Instant

/-- The years that instants lie in. -/
def firstYear : Int := -262143
def lastYear : Int := 262142

/-- The first and the last second of those years. -/
def firstSecond : Int := (Date.toDays ⟨firstYear, 1, 1⟩) * 86400
def lastSecond : Int := (Date.toDays ⟨lastYear, 12, 31⟩) * 86400 + 86399

/-- The nanoseconds of a second. -/
def nanosPerSecond : Nat := 1000000000

/-- Seconds and nanoseconds that are those of an instant. -/
def Valid (seconds : Int) (nanos : Nat) : Prop :=
  firstSecond ≤ seconds ∧ seconds ≤ lastSecond ∧ nanos < 2 * nanosPerSecond ∧
    (nanosPerSecond ≤ nanos → seconds % 60 = 59)

instance (seconds : Int) (nanos : Nat) : Decidable (Valid seconds nanos) := by
  unfold Valid; infer_instance

end Instant

/-- A **point of time**. -/
structure Instant where
  seconds : Int
  nanos : Nat
  valid : Instant.Valid seconds nanos
  deriving DecidableEq

namespace Instant

/-- The instant of these seconds and nanoseconds, if there is one. -/
def of? (seconds : Int) (nanos : Nat) : Option Instant :=
  if h : Valid seconds nanos then some ⟨seconds, nanos, h⟩ else none

theorem of?_eq_some_iff {s : Int} {n : Nat} {t : Instant} :
    of? s n = some t ↔ t.seconds = s ∧ t.nanos = n := by
  unfold of?
  split
  · constructor
    · rintro h; cases h; exact ⟨rfl, rfl⟩
    · rintro ⟨rfl, rfl⟩; rfl
  · rename_i h
    constructor
    · intro h'; cases h'
    · rintro ⟨rfl, rfl⟩; exact absurd t.valid h

/-- The beginning of 1970. -/
def epoch : Instant := ⟨0, 0, by decide⟩

instance : Inhabited Instant := ⟨epoch⟩

/-- **The earlier of two instants** has the fewer seconds, or as many and the fewer nanoseconds. -/
def before (s t : Instant) : Bool :=
  s.seconds < t.seconds || (s.seconds == t.seconds && s.nanos < t.nanos)

/-- The milliseconds from the beginning of 1970, rounded down. -/
def millis (t : Instant) : Int := t.seconds * 1000 + (t.nanos / 1000000 : Nat)

theorem before_iff {s t : Instant} :
    s.before t = true ↔ s.seconds < t.seconds ∨ (s.seconds = t.seconds ∧ s.nanos < t.nanos) := by
  simp [before]

theorem before_irrefl (t : Instant) : t.before t = false := by simp [before]

theorem before_trans {s t u : Instant} (h : s.before t = true) (h' : t.before u = true) :
    s.before u = true := by
  rw [before_iff] at *; omega

theorem eq_of_not_before {s t : Instant} (h : s.before t = false) (h' : t.before s = false) :
    s = t := by
  have h₁ : ¬ s.before t = true := by simp [h]
  have h₂ : ¬ t.before s = true := by simp [h']
  rw [before_iff] at h₁ h₂
  have hs : s.seconds = t.seconds := by omega
  have hn : s.nanos = t.nanos := by omega
  cases s; cases t; cases hs; cases hn; rfl

end Instant

end FileRelay.Calendar
