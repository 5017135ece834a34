import FileRelay.Calendar.Instant
import FileRelay.Text.Blank
import FileRelay.Text.Decimal

/-!
# Calendar/Rfc3339 — instants as texts

An instant is **written** as a date, `T`, a time of day and `Z`: four digits for the years from 0 to
9999 and a sign with at least four for the others, then no, three, six or nine digits of the second,
as many as are needed.  A leap second is second 60.

Reading is more liberal.  Blanks may stand before each number and each sign between numbers; the
`T` may be small or a blank; a number may have fewer digits, and the fraction more than nine, of
which nine count; the zone may be `Z`, `UTC` or an offset in hours and minutes, with a hyphen or a
minus sign, and with blanks and colons between them.  A second 60 is the leap second after second
59 of any minute.
-/

namespace FileRelay.Calendar.Rfc3339

open FileRelay.Text

/-! ## Writing -/

/-- The year of a date. -/
def yearText (year : Int) : List Char :=
  if 0 ≤ year ∧ year ≤ 9999 then Decimal.padded 4 year.toNat
  else (if year < 0 then '-' else '+') :: Decimal.padded 4 year.natAbs

/-- A date. -/
def dateText (d : Date) : List Char :=
  yearText d.year ++ '-' :: (Decimal.padded 2 d.month ++ '-' :: Decimal.padded 2 d.day)

/-- The fraction of a second: a point and the fewest groups of three digits that are exact. -/
def fractionText (nanos : Nat) : List Char :=
  if nanos = 0 then []
  else if nanos % 1000000 = 0 then '.' :: Decimal.padded 3 (nanos / 1000000)
  else if nanos % 1000 = 0 then '.' :: Decimal.padded 6 (nanos / 1000)
  else '.' :: Decimal.padded 9 nanos

/-- A time of day; nanoseconds beyond a second make it the leap second. -/
def timeText (secondOfDay nanos : Nat) : List Char :=
  let leap := nanos / Instant.nanosPerSecond
  Decimal.padded 2 (secondOfDay / 3600) ++ ':' ::
    (Decimal.padded 2 (secondOfDay / 60 % 60) ++ ':' ::
      (Decimal.padded 2 (secondOfDay % 60 + leap) ++ fractionText (nanos % Instant.nanosPerSecond)))

/-- **An instant as a text.** -/
def chars (t : Instant) : List Char :=
  dateText (Date.ofDays (t.seconds / 86400)) ++
    'T' :: (timeText (t.seconds % 86400).toNat t.nanos ++ ['Z'])

/-- An instant as a string. -/
def text (t : Instant) : String := String.ofList (chars t)

/-! ## Reading -/

/-- At most `most` digits at the beginning of a text, and what follows them. -/
def takeDigits : Nat → List Char → List Char × List Char
  | 0, cs => ([], cs)
  | _ + 1, [] => ([], [])
  | most + 1, c :: cs =>
    if c.isDigit then
      let r := takeDigits most cs
      (c :: r.1, r.2)
    else ([], c :: cs)

/-- A number of at least one and at most `most` digits, after blanks. -/
def number? (most : Nat) (cs : List Char) : Option (Nat × List Char) :=
  let r := takeDigits most (trimStart cs)
  (Decimal.value? r.1).map fun n => (n, r.2)

/-- A number within bounds. -/
def bounded? (most low high : Nat) (cs : List Char) : Option (Nat × List Char) :=
  (number? most cs).bind fun r => if low ≤ r.1 ∧ r.1 ≤ high then some r else none

/-- A year: any number of digits after a sign, at most four without one. -/
def year? (cs : List Char) : Option (Int × List Char) :=
  match trimStart cs with
  | '-' :: r =>
    let ds := r.takeWhile Char.isDigit
    (Decimal.value? ds).map fun n => (-(n : Int), r.dropWhile Char.isDigit)
  | '+' :: r =>
    let ds := r.takeWhile Char.isDigit
    (Decimal.value? ds).map fun n => ((n : Int), r.dropWhile Char.isDigit)
  | r => (number? 4 r).map fun n => ((n.1 : Int), n.2)

/-- What follows a sign that may have blanks before it. -/
def after? (sign : Char) (cs : List Char) : Option (List Char) :=
  match trimStart cs with
  | [] => none
  | c :: r => if c = sign then some r else none

/-- A date that the calendar has. -/
def date? (cs : List Char) : Option (Date × List Char) :=
  (year? cs).bind fun y => (after? '-' y.2).bind fun r =>
    (bounded? 2 1 12 r).bind fun m => (after? '-' m.2).bind fun r =>
      (bounded? 2 1 31 r).bind fun d =>
        if Date.Valid ⟨y.1, m.1, d.1⟩ ∧ Instant.firstYear ≤ y.1 ∧ y.1 ≤ Instant.lastYear then
          some (⟨y.1, m.1, d.1⟩, d.2)
        else none

/-- The nanoseconds of a fraction, if there is one; digits after the ninth do not count. -/
def fraction? : List Char → Option (Nat × List Char)
  | '.' :: cs =>
    let r := takeDigits 9 cs
    (Decimal.value? r.1).map fun n => (n * Nat.pow 10 (9 - r.1.length), r.2.dropWhile Char.isDigit)
  | cs => some (0, cs)

/-- The second of the day and the nanoseconds of a time of day. -/
def time? (cs : List Char) : Option (Nat × Nat × List Char) :=
  (bounded? 2 0 23 cs).bind fun h => (after? ':' h.2).bind fun r =>
    (bounded? 2 0 59 r).bind fun m => (after? ':' m.2).bind fun r =>
      (bounded? 2 0 60 r).bind fun s => (fraction? s.2).map fun f =>
        if s.1 = 60 then
          (h.1 * 3600 + m.1 * 60 + 59, Instant.nanosPerSecond + f.1, f.2)
        else (h.1 * 3600 + m.1 * 60 + s.1, f.1, f.2)

/-- The character that stands for a minus in an offset. -/
def isMinus (c : Char) : Bool := c == '-' || c.toNat == 0x2212

/-- Two digits and what follows them. -/
def twoDigits? : List Char → Option (Nat × List Char)
  | a :: b :: cs => (Decimal.value? [a, b]).map fun n => (n, cs)
  | _ => none

/-- Hours and minutes after the sign of an offset, in seconds. -/
def offsetSize? (cs : List Char) : Option (Nat × List Char) :=
  (twoDigits? cs).bind fun h =>
    (twoDigits? (h.2.dropWhile fun c => c == ':' || isBlank c)).bind fun m =>
      if m.1 ≤ 59 ∧ h.1 * 3600 + m.1 * 60 < 86400 then some (h.1 * 3600 + m.1 * 60, m.2) else none

/-- Do three letters name the zone of no offset? -/
def isUtc (a b c : Char) : Bool := [a, b, c].map Char.toUpper == ['U', 'T', 'C']

/-- The seconds by which the zone is ahead. -/
def zone? (cs : List Char) : Option (Int × List Char) :=
  match cs with
  | [] => none
  | a :: r =>
    let named := match r with
      | b :: c :: t => if isUtc a b c then some t else none
      | _ => none
    match named with
    | some t => some (0, t)
    | none =>
      if a == 'Z' || a == 'z' then some (0, r)
      else if a == '+' then (offsetSize? r).map fun z => ((z.1 : Int), z.2)
      else if isMinus a then (offsetSize? r).map fun z => (-(z.1 : Int), z.2)
      else none

/-- May this character stand between a date and a time? -/
def isSeparator (c : Char) : Bool := c == 'T' || c == 't' || c == ' '

/-- **The instant that a text names.** -/
def parse? (cs : List Char) : Option Instant :=
  (date? cs).bind fun d =>
    match d.2 with
    | [] => none
    | c :: r =>
      if !isSeparator c then none
      else (time? r).bind fun t => (zone? (trimStart t.2.2)).bind fun z =>
        if (trimStart z.2).isEmpty then
          Instant.of? (d.1.toDays * 86400 + (t.1 : Int) - z.1) t.2.1
        else none

end FileRelay.Calendar.Rfc3339
