import FileRelay.Calendar.Date
import Mathlib.Order.Monotone.Basic

/-!
# Proofs/Calendar/Date — a count of days and its date

The year of a day of a cycle is found by a division (`yearOfCycle`), which is right because it is
monotone and right for the ends of every year (`yearOfCycle_spec`).  So every count of days has a
date that the calendar has (`valid_ofDays`) and comes back from it (`toDays_ofDays`), and later days
are of later years (`year_ofDays_mono`).
-/

namespace FileRelay.Calendar

/-- Leap years come back with every cycle. -/
theorem isLeapYear_add_cycles (c year : Int) : isLeapYear (c * 400 + year) = isLeapYear year := by
  have h₄ : (c * 400 + year) % 4 = year % 4 := by omega
  have h₁₀₀ : (c * 400 + year) % 100 = year % 100 := by omega
  have h₄₀₀ : (c * 400 + year) % 400 = year % 400 := by omega
  unfold isLeapYear
  rw [h₄, h₁₀₀, h₄₀₀]

namespace Date

/-! ## The years of a cycle -/

/-- The first day of a year of a cycle. -/
def firstDay (y : Nat) : Nat := 365 * y + y / 4 - y / 100

/-- How many days a year of a cycle has, of which the leap day is the last one. -/
def daysOfYear (y : Nat) : Nat := if isLeapYear (y + 1) then 366 else 365

theorem yearOfCycle_mono : Monotone yearOfCycle := by
  refine monotone_nat_of_le_succ fun d => Nat.div_le_div_right ?_
  have hquads : d - d / 1460 ≤ d + 1 - (d + 1) / 1460 := by omega
  have hcenturies : d / 36524 ≤ (d + 1) / 36524 := Nat.div_le_div_right (Nat.le_succ d)
  have hcycles : ∀ n : Nat, n / 146096 = n / 36524 / 4 := fun n =>
    (Nat.div_div_eq_div_mul n 36524 4).symm
  rw [hcycles, hcycles]
  generalize d / 36524 = a at *
  generalize (d + 1) / 36524 = b at *
  omega

/-- Every year of a cycle begins and ends as it should. -/
theorem yearOfCycle_ends : ∀ y < 400, yearOfCycle (firstDay y) = y ∧
    yearOfCycle (firstDay y + daysOfYear y - 1) = y := by decide +kernel

theorem firstDay_succ : ∀ y < 399, firstDay (y + 1) = firstDay y + daysOfYear y := by decide +kernel

/-- **The year of a day of a cycle** has begun by that day, and has not ended. -/
theorem yearOfCycle_spec {d : Nat} (h : d < daysPerCycle) :
    yearOfCycle d < 400 ∧ firstDay (yearOfCycle d) ≤ d ∧
      d < firstDay (yearOfCycle d) + daysOfYear (yearOfCycle d) := by
  have hlt : yearOfCycle d < 400 := Nat.lt_succ_of_le (yearOfCycle_mono (Nat.le_of_lt_succ h))
  refine ⟨hlt, Nat.le_of_not_lt fun hd => ?_, Nat.lt_of_not_le fun hd => ?_⟩
  · obtain ⟨y, hy⟩ : ∃ y, yearOfCycle d = y + 1 := Nat.exists_eq_succ_of_ne_zero fun hz => by
      rw [hz] at hd
      exact absurd hd (Nat.not_lt_zero _)
    rw [hy] at hd hlt
    rw [firstDay_succ y (by omega)] at hd
    have hle := yearOfCycle_mono (Nat.le_sub_one_of_lt hd)
    rw [(yearOfCycle_ends y (by omega)).2, hy] at hle
    omega
  · rcases Nat.lt_or_ge (yearOfCycle d) 399 with hbefore | hlast
    · rw [← firstDay_succ _ hbefore] at hd
      have hle := yearOfCycle_mono hd
      rw [(yearOfCycle_ends _ (by omega)).1] at hle
      omega
    · have hy : yearOfCycle d = 399 := by omega
      rw [hy] at hd
      have hend : firstDay 399 + daysOfYear 399 = daysPerCycle := by decide
      omega

/-! ## The days of a year -/

/-- The month of a day of a year that begins in March. -/
def monthOf (doy : Nat) : Nat :=
  if (5 * doy + 2) / 153 < 10 then (5 * doy + 2) / 153 + 3 else (5 * doy + 2) / 153 - 9

/-- The day of its month. -/
def dayOf (doy : Nat) : Nat := doy - (153 * ((5 * doy + 2) / 153) + 2) / 5 + 1

/-- **Month and day of a day of a year** are those of a year that has it, and say which day it is. -/
theorem monthOf_spec : ∀ doy < 366, 1 ≤ monthOf doy ∧ monthOf doy ≤ 12 ∧ 1 ≤ dayOf doy ∧
    dayOfYear (monthOf doy) (dayOf doy) = doy ∧ (monthOf doy ≤ 2 ↔ 306 ≤ doy) ∧
      dayOf doy ≤ daysInMonth (if doy = 365 then 4 else 1) (monthOf doy) := by decide +kernel

/-- Only February is longer in leap years. -/
theorem daysInMonth_le {year year' : Int} (month : Nat)
    (h : isLeapYear year = true → isLeapYear year' = true) :
    daysInMonth year month ≤ daysInMonth year' month := by
  unfold daysInMonth
  split
  · rcases hyear : isLeapYear year with _ | _
    · rw [if_neg Bool.false_ne_true]
      split <;> omega
    · rw [h hyear]
  · exact Nat.le_refl _

/-! ## Dates -/

variable (n : Int)

/-- The day of its cycle that a count of days is, and the day of its year. -/
def cycleDay : Nat := ((n + 719468) % daysPerCycle).toNat
def yearDay : Nat := cycleDay n - firstDay (yearOfCycle (cycleDay n))

theorem cycleDay_lt : cycleDay n < daysPerCycle := by
  unfold cycleDay daysPerCycle
  omega

theorem yearDay_lt : yearDay n < daysOfYear (yearOfCycle (cycleDay n)) := by
  obtain ⟨-, hfirst, hlast⟩ := yearOfCycle_spec (cycleDay_lt n)
  unfold yearDay
  omega

theorem yearDay_lt_366 : yearDay n < 366 := by
  have := yearDay_lt n
  unfold daysOfYear at this
  split at this <;> omega

/-- **The date of a count of days**, by its cycle, its year and its day of the year. -/
theorem ofDays_eq : ofDays n = {
    year := (n + 719468) / daysPerCycle * 400 + yearOfCycle (cycleDay n)
      + (if monthOf (yearDay n) ≤ 2 then 1 else 0)
    month := monthOf (yearDay n)
    day := dayOf (yearDay n) } := by
  unfold ofDays
  simp only [Date.mk.injEq]
  refine ⟨?_, rfl, rfl⟩
  show (if monthOf (yearDay n) ≤ 2 then _ else _) = _
  split <;> simp [cycleDay]

/-- **Every count of days has a date that the calendar has.** -/
theorem valid_ofDays : (ofDays n).Valid := by
  obtain ⟨hmonth, hmonth', hday, -, hfebruary, hday'⟩ := monthOf_spec _ (yearDay_lt_366 n)
  rw [ofDays_eq]
  refine ⟨hmonth, hmonth', hday, Nat.le_trans hday' (daysInMonth_le _ fun hleap => ?_)⟩
  -- The leap day is the last one of its year.
  rcases Nat.lt_or_ge (yearDay n) 365 with hlt | hge
  · rw [if_neg (Nat.ne_of_lt hlt)] at hleap
    simp [isLeapYear] at hleap
  · have hlast := yearDay_lt n
    unfold daysOfYear at hlast
    split at hlast
    · rename_i hyear
      rw [if_pos (hfebruary.2 (by omega)), Int.add_assoc, isLeapYear_add_cycles]
      exact hyear
    · omega

example : ofDays 19782 = ⟨2024, 2, 29⟩ ∧ (ofDays 19782).Valid := by decide

/-- **A count of days comes back from its date.** -/
theorem toDays_ofDays : (ofDays n).toDays = n := by
  obtain ⟨-, -, -, hdoy, -⟩ := monthOf_spec _ (yearDay_lt_366 n)
  obtain ⟨hyear, hfirst, -⟩ := yearOfCycle_spec (cycleDay_lt n)
  rw [ofDays_eq, toDays]
  simp only [hdoy]
  have hcount : yearOfCycle (cycleDay n) * 365 + yearOfCycle (cycleDay n) / 4
      - yearOfCycle (cycleDay n) / 100 + yearDay n = cycleDay n := by
    unfold yearDay firstDay at *
    omega
  have hcycle : ((n + 719468) / daysPerCycle * 400 + yearOfCycle (cycleDay n)) / 400
        = (n + 719468) / daysPerCycle ∧
      (((n + 719468) / daysPerCycle * 400 + yearOfCycle (cycleDay n)) % 400).toNat
        = yearOfCycle (cycleDay n) := by
    constructor <;> omega
  have hshift : (if monthOf (yearDay n) ≤ 2 then
      (n + 719468) / daysPerCycle * 400 + yearOfCycle (cycleDay n)
        + (if monthOf (yearDay n) ≤ 2 then 1 else 0) - 1
      else (n + 719468) / daysPerCycle * 400 + yearOfCycle (cycleDay n)
        + (if monthOf (yearDay n) ≤ 2 then 1 else 0) : Int)
      = (n + 719468) / daysPerCycle * 400 + yearOfCycle (cycleDay n) := by
    split <;> omega
  rw [hshift, hcycle.1, hcycle.2, dayOfCycle, hcount, cycleDay]
  unfold daysPerCycle
  omega

example : ofDays (-1) = ⟨1969, 12, 31⟩ ∧ toDays ⟨1969, 12, 31⟩ = -1 := by decide

/-- **Later days are of later years.** -/
theorem year_ofDays_mono {m n : Int} (h : m ≤ n) : (ofDays m).year ≤ (ofDays n).year := by
  obtain ⟨-, -, -, -, hm, -⟩ := monthOf_spec _ (yearDay_lt_366 m)
  obtain ⟨-, -, -, -, hn, -⟩ := monthOf_spec _ (yearDay_lt_366 n)
  obtain ⟨hyear, -⟩ := yearOfCycle_spec (cycleDay_lt m)
  rw [ofDays_eq, ofDays_eq]
  simp only [hm, hn]
  rcases lt_or_ge ((m + 719468) / daysPerCycle) ((n + 719468) / daysPerCycle) with hlt | hge
  · split <;> split <;> omega
  · have hcycle : (m + 719468) / daysPerCycle = (n + 719468) / daysPerCycle := by
      unfold daysPerCycle at *
      omega
    have hday : cycleDay m ≤ cycleDay n := by
      unfold cycleDay daysPerCycle at *
      omega
    have hle := yearOfCycle_mono hday
    rcases Nat.lt_or_ge (yearOfCycle (cycleDay m)) (yearOfCycle (cycleDay n)) with hlt | hge
    · split <;> split <;> omega
    · have hsame : yearOfCycle (cycleDay m) = yearOfCycle (cycleDay n) := by omega
      have hdoy : yearDay m ≤ yearDay n := by
        unfold yearDay
        rw [hsame]
        omega
      split <;> split <;> omega

end Date

end FileRelay.Calendar
