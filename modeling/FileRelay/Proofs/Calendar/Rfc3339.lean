import FileRelay.Calendar.Rfc3339
import FileRelay.Proofs.Calendar.Date
import FileRelay.Proofs.Text.Decimal

/-!
# Proofs/Calendar/Rfc3339 — an instant comes back from its text

Each reader gives back what the writer beside it has written, and leaves what follows: numbers
(`number?_padded`), years (`year?_yearText`), dates (`date?_dateText`), fractions
(`fraction?_fractionText`) and times (`time?_timeText`).  So every instant is read back from its text,
leap seconds and far years included (`parse?_chars`).
-/

namespace FileRelay.Calendar.Rfc3339

open FileRelay.Text Decimal

/-! ## Numbers -/

/-- A text that begins with no blank is left as it is. -/
theorem trimStart_of_head {c : Char} (h : isBlank c = false) (cs : List Char) :
    trimStart (c :: cs) = c :: cs := by
  simp [trimStart, h]

/-- **Digits are taken** up to what is none, or as many as there may be. -/
theorem takeDigits_append {ds rest : List Char} {most : Nat} (hds : ∀ c ∈ ds, c.isDigit = true)
    (hle : ds.length ≤ most)
    (hr : ds.length = most ∨ ∀ c ∈ rest.head?, c.isDigit = false) :
    takeDigits most (ds ++ rest) = (ds, rest) := by
  induction ds generalizing most with
  | nil =>
    rcases most with _ | most
    · rfl
    · rcases hr with hr | hr
      · simp at hr
      · cases rest with
        | nil => rfl
        | cons c rest => simp [takeDigits, hr c rfl]
  | cons d ds ih =>
    rcases most with _ | most
    · simp at hle
    · rw [List.length_cons] at hle hr
      have hrest : takeDigits most (ds ++ rest) = (ds, rest) :=
        ih (fun c hc => hds c (List.mem_cons_of_mem _ hc)) (by omega) (hr.imp_left fun h => by omega)
      rw [List.cons_append, takeDigits, if_pos (hds d (by simp)), hrest]

theorem padded_eq (width n : Nat) : ∃ c cs, padded width n = c :: cs ∧ c.isDigit = true := by
  have hne : padded width n ≠ [] := fun h => digits_ne_nil n (List.append_eq_nil_iff.1 h).2
  obtain ⟨c, cs, hcs⟩ := List.exists_cons_of_ne_nil hne
  exact ⟨c, cs, hcs, isDigit_padded width n c (by simp [hcs])⟩

theorem trimStart_padded (width n : Nat) (rest : List Char) :
    trimStart (padded width n ++ rest) = padded width n ++ rest := by
  obtain ⟨c, cs, hcs, hc⟩ := padded_eq width n
  rw [hcs, List.cons_append, trimStart_of_head (isBlank_of_isDigit hc)]

/-- **A number of its full width** is read, whatever follows it. -/
theorem number?_padded {width n : Nat} (hw : 0 < width) (h : n < 10 ^ width) (rest : List Char) :
    number? width (padded width n ++ rest) = some (n, rest) := by
  have hlength := length_padded hw h
  rw [number?, trimStart_padded, takeDigits_append (isDigit_padded width n) (Nat.le_of_eq hlength)
    (.inl hlength)]
  simp [value?_padded]

theorem bounded?_padded (width : Nat) {low high n : Nat} (hw : 0 < width) (h : n < 10 ^ width)
    (hlow : low ≤ n) (hhigh : n ≤ high) (rest : List Char) :
    bounded? width low high (padded width n ++ rest) = some (n, rest) := by
  rw [bounded?, number?_padded hw h, Option.bind_some, if_pos ⟨hlow, hhigh⟩]

theorem after?_cons {sign : Char} (h : isBlank sign = false) (cs : List Char) :
    after? sign (sign :: cs) = some cs := by
  simp [after?, trimStart_of_head h]

/-! ## Dates -/

/-- **A year is read back**, with its sign or without one. -/
theorem year?_yearText (year : Int) {rest : List Char} (hr : ∀ c ∈ rest.head?, c.isDigit = false) :
    year? (yearText year ++ rest) = some (year, rest) := by
  have hwhile : ∀ n, (padded 4 n ++ rest).takeWhile Char.isDigit = padded 4 n ∧
      (padded 4 n ++ rest).dropWhile Char.isDigit = rest := fun n => by
    rw [List.takeWhile_append_of_pos (isDigit_padded 4 n),
      List.dropWhile_append_of_pos (isDigit_padded 4 n)]
    cases rest with
    | nil => simp
    | cons c rest => simp [hr c rfl]
  unfold yearText
  split
  · rename_i hyear
    obtain ⟨c, cs, hcs, hc⟩ := padded_eq 4 year.toNat
    have hnumber := number?_padded (by decide) (show year.toNat < 10 ^ 4 by omega) rest
    have hplus : c ≠ '+' := by rintro rfl; exact absurd hc (by decide)
    have hminus : c ≠ '-' := by rintro rfl; exact absurd hc (by decide)
    rw [hcs, List.cons_append] at hnumber ⊢
    rw [year?, trimStart_of_head (isBlank_of_isDigit hc)]
    split
    · simp_all
    · simp_all
    · rw [hnumber, Option.map_some]
      simp only [Option.some.injEq, Prod.mk.injEq, and_true]
      omega
  · rename_i hyear
    obtain ⟨htake, hdrop⟩ := hwhile year.natAbs
    split
    · rw [List.cons_append, year?, trimStart_of_head (by decide)]
      simp only [htake, hdrop, value?_padded, Option.bind_eq_bind, Option.bind_some,
        Option.pure_def, Option.map_some, Option.some.injEq, Prod.mk.injEq, and_true]
      omega
    · rw [List.cons_append, year?, trimStart_of_head (by decide)]
      simp only [htake, hdrop, value?_padded, Option.bind_eq_bind, Option.bind_some,
        Option.pure_def, Option.map_some, Option.some.injEq, Prod.mk.injEq, and_true]
      omega

theorem daysInMonth_le_31 (year : Int) (month : Nat) : daysInMonth year month ≤ 31 := by
  unfold daysInMonth
  split_ifs <;> decide

/-- **A date is read back**, if instants can lie on it. -/
theorem date?_dateText {d : Date} (h : d.Valid) (hfirst : Instant.firstYear ≤ d.year)
    (hlast : d.year ≤ Instant.lastYear) (rest : List Char) :
    date? (dateText d ++ rest) = some (d, rest) := by
  obtain ⟨hmonth, hmonth', hday, hday'⟩ := h
  have hle := daysInMonth_le_31 d.year d.month
  have hminus : isBlank '-' = false := by decide
  have hyear : ∀ rest, year? (yearText d.year ++ '-' :: rest) = some (d.year, '-' :: rest) :=
    fun rest => year?_yearText d.year (by simp)
  rw [date?, dateText]
  simp only [List.append_assoc, List.cons_append, hyear, Option.bind_some, after?_cons hminus,
    bounded?_padded 2 (by decide) (show d.month < 10 ^ 2 by omega) hmonth hmonth',
    bounded?_padded 2 (by decide) (show d.day < 10 ^ 2 by omega) hday
      (Nat.le_trans hday' hle)]
  rw [if_pos ⟨⟨hmonth, hmonth', hday, hday'⟩, hfirst, hlast⟩]

/-! ## Times -/

/-- The digits of a fraction, followed by no digit. -/
theorem fraction?_padded {width n : Nat} (hw : 0 < width) (hle : width ≤ 9) (h : n < 10 ^ width)
    {rest : List Char} (hr : ∀ c ∈ rest.head?, c.isDigit = false) :
    fraction? ('.' :: (padded width n ++ rest)) = some (n * 10 ^ (9 - width), rest) := by
  have hlength := length_padded hw h
  have hrest : rest.dropWhile Char.isDigit = rest := by
    cases rest with
    | nil => rfl
    | cons c rest => simp [hr c rfl]
  rw [fraction?, takeDigits_append (isDigit_padded width n) (by rwa [hlength]) (.inr hr)]
  simp only [value?_padded, Option.map_some, hlength, hrest]
  rfl

/-- **A fraction is read back**, in as many digits as it needs. -/
theorem fraction?_fractionText {n : Nat} (h : n < Instant.nanosPerSecond) {rest : List Char}
    (hr : ∀ c ∈ rest.head?, c.isDigit = false ∧ c ≠ '.') :
    fraction? (fractionText n ++ rest) = some (n, rest) := by
  have hdigit : ∀ c ∈ rest.head?, c.isDigit = false := fun c hc => (hr c hc).1
  unfold Instant.nanosPerSecond at h
  unfold fractionText
  split_ifs with hzero hmillis hmicros
  · cases rest with
    | nil => simp [fraction?, hzero]
    | cons c rest => simp [fraction?, hzero, (hr c rfl).2]
  · rw [List.cons_append, fraction?_padded (by decide) (by decide) (by omega) hdigit]
    simp only [Option.some.injEq, Prod.mk.injEq, and_true]
    omega
  · rw [List.cons_append, fraction?_padded (by decide) (by decide) (by omega) hdigit]
    simp only [Option.some.injEq, Prod.mk.injEq, and_true]
    omega
  · rw [List.cons_append, fraction?_padded (by decide) (by decide) (by omega) hdigit]
    simp

/-- **A time is read back**, also in a leap second. -/
theorem time?_timeText {second nanos : Nat} (hs : second < 86400)
    (hn : nanos < 2 * Instant.nanosPerSecond)
    (hleap : Instant.nanosPerSecond ≤ nanos → second % 60 = 59) {rest : List Char}
    (hr : ∀ c ∈ rest.head?, c.isDigit = false ∧ c ≠ '.') :
    time? (timeText second nanos ++ rest) = some (second, nanos, rest) := by
  have hcolon : isBlank ':' = false := by decide
  have hfraction := fraction?_fractionText
    (n := nanos % Instant.nanosPerSecond) (Nat.mod_lt _ (by decide)) hr
  have hsecond : second % 60 + nanos / Instant.nanosPerSecond ≤ 60 := by
    unfold Instant.nanosPerSecond at *
    omega
  rw [time?, timeText]
  simp only [List.append_assoc, List.cons_append, Option.bind_some, after?_cons hcolon,
    bounded?_padded 2 (by decide) (show second / 3600 < 10 ^ 2 by omega)
      (Nat.zero_le _) (show second / 3600 ≤ 23 by omega),
    bounded?_padded 2 (by decide) (show second / 60 % 60 < 10 ^ 2 by omega)
      (Nat.zero_le _) (show second / 60 % 60 ≤ 59 by omega),
    bounded?_padded 2 (by decide) (Nat.lt_of_le_of_lt hsecond (by decide))
      (Nat.zero_le _) hsecond, hfraction, Option.map_some, Option.some.injEq]
  unfold Instant.nanosPerSecond at *
  split <;> simp only [Prod.mk.injEq, and_true] <;> omega

/-! ## Instants -/

/-- The year of an instant is one that instants lie in. -/
theorem year_bounds (t : Instant) : Instant.firstYear ≤ (Date.ofDays (t.seconds / 86400)).year ∧
    (Date.ofDays (t.seconds / 86400)).year ≤ Instant.lastYear := by
  obtain ⟨hfirst, hlast, -⟩ := t.valid
  unfold Instant.firstSecond at hfirst
  unfold Instant.lastSecond at hlast
  have hlow : (Date.ofDays (Date.toDays ⟨Instant.firstYear, 1, 1⟩)).year = Instant.firstYear := by
    decide
  have hhigh : (Date.ofDays (Date.toDays ⟨Instant.lastYear, 12, 31⟩)).year = Instant.lastYear := by
    decide
  rw [← hlow, ← hhigh]
  exact ⟨Date.year_ofDays_mono (by omega), Date.year_ofDays_mono (by omega)⟩

/-- **An instant is read back from its text.** -/
theorem parse?_chars (t : Instant) : parse? (chars t) = some t := by
  obtain ⟨hfirst, hlast⟩ := year_bounds t
  obtain ⟨-, -, hnanos, hleap⟩ := t.valid
  have hdate := date?_dateText (Date.valid_ofDays (t.seconds / 86400)) hfirst hlast
    ('T' :: (timeText (t.seconds % 86400).toNat t.nanos ++ ['Z']))
  have hend : ∀ c ∈ ['Z'].head?, c.isDigit = false ∧ c ≠ '.' := fun c hc => by
    obtain rfl := Option.some.inj hc
    decide
  have htime : time? (timeText (t.seconds % 86400).toNat t.nanos ++ ['Z'])
      = some ((t.seconds % 86400).toNat, t.nanos, ['Z']) :=
    time?_timeText (by omega) hnanos (fun h => by have := hleap h; omega) hend
  rw [parse?, chars, hdate]
  have hzone : zone? (trimStart ['Z']) = some (0, []) := by decide
  have hseparator : isSeparator 'T' = true := by decide
  simp only [Option.bind_some, htime, hzone, hseparator, Bool.not_true, Bool.false_eq_true,
    ↓reduceIte, Date.toDays_ofDays]
  rw [if_pos (by decide), Instant.of?_eq_some_iff]
  exact ⟨by omega, rfl⟩

end FileRelay.Calendar.Rfc3339
