import Mathlib.Algebra.GroupWithZero.Nat
import Mathlib.Data.List.TakeWhile
import WikiMind.Base.Rows

/-!
# ISO-8601 datetimes

Library for Python's `datetime`: values with or without an offset from UTC, the
comparison that refuses to mix the two kinds, and `datetime.fromisoformat` as the
C code of Python 3.11 reads it (calendar and ISO week dates, basic and extended times,
fractions of a second, offsets). Clocks count microseconds from 0001-01-01.
-/

namespace WikiMind.Base

/-- A wall clock reading; aware values also carry the offset of that clock from UTC. -/
structure DateTime where
  wall : Nat
  utcoffset : Option Int
  deriving DecidableEq, Repr

namespace DateTime

/-- A value without `tzinfo`. -/
def Naive (t : DateTime) : Prop := t.utcoffset = none

instance (t : DateTime) : Decidable t.Naive := by unfold Naive; infer_instance

/-- The moment meant, with naive values read as UTC. -/
def instant (t : DateTime) : Int := t.wall - t.utcoffset.getD 0

/-- `a > b`: ordering a naive and an aware value raises `TypeError`. -/
def gt (a b : DateTime) : Except Exc Bool :=
  match a.utcoffset, b.utcoffset with
  | none, none => .ok (decide (b.wall < a.wall))
  | some _, some _ => .ok (decide (b.instant < a.instant))
  | _, _ => .error .typeError

/-- Two naive values always compare, by their clocks. -/
theorem gt_of_naive {a b : DateTime} (ha : a.Naive) (hb : b.Naive) :
    gt a b = .ok (decide (b.wall < a.wall)) := by
  simp only [gt, Naive] at *
  rw [ha, hb]

/-! ### Time of day -/

private def microseconds (h m s us : Nat) : Nat := ((h * 60 + m) * 60 + s) * 1000000 + us

private def microsecondsPerDay : Nat := 86400 * 1000000

/-- `DATE(t)`: the day of a clock reading. -/
def date (t : DateTime) : Nat := t.wall / microsecondsPerDay

/-- One ASCII digit. -/
def digit (c : Char) : Except Exc Nat :=
  if c.isDigit then .ok (c.toNat - 48) else .error .valueError

/-- The next two digits and what follows them. -/
def twoDigits : List Char → Except Exc (Nat × List Char)
  | a :: b :: rest => do return (10 * (← digit a) + (← digit b), rest)
  | _ => .error .valueError

/-- Whether a text has been read to its end; a NUL ends it too. -/
def ended (cs : List Char) : Bool := cs.head?.all (· = Char.ofNat 0)

/-- Fraction of a second, in microseconds: six digits count, fewer when the part is shorter,
and further ones are skipped. The rest is left to the caller. -/
def fraction (cs : List Char) : Except Exc (Nat × List Char) :=
  let used := cs.take 6
  if used.all Char.isDigit then
    .ok (used.foldl (fun v d ↦ 10 * v + (d.toNat - 48)) 0 * 10 ^ (6 - used.length),
      (cs.drop 6).dropWhile Char.isDigit)
  else .error .valueError

/-- The two-digit parts of a time, at most `parts` of them, the fraction, and what is left
unread. The character after the hours decides whether colons separate the parts; one byte
that ends the text is left unread, whatever it is. -/
def timeParts (hasSep : Option Bool) : Nat → List Char → Except Exc (List Nat × Nat × List Char)
  | 0, cs => do
    let (us, rest) ← fraction cs
    return ([], us, rest)
  | parts + 1, cs => do
    let (v, rest) ← twoDigits cs
    match rest with
    | [] => return ([v], 0, rest)
    | c :: rest' =>
      if rest' = [] ∧ c.utf8Size = 1 then return ([v], 0, rest)
      let hasSep := hasSep.getD (c = ':')
      if hasSep ∧ c = ':' then
        let (vs, us, left) ← timeParts (some hasSep) parts rest'
        return (v :: vs, us, left)
      else if c = '.' ∨ c = ',' then
        let (us, left) ← fraction rest'
        return ([v], us, left)
      else if hasSep then throw .valueError
      else
        let (vs, us, left) ← timeParts (some hasSep) parts rest
        return (v :: vs, us, left)

/-- `HH[:?MM[:?SS[.fff]]]`: hours, minutes, seconds and microseconds, and what is left. -/
def parseHhMmSsFf (cs : List Char) : Except Exc ((Nat × Nat × Nat × Nat) × List Char) := do
  let (parts, us, rest) ← timeParts none 3 cs
  return ((parts.getD 0 0, parts.getD 1 0, parts.getD 2 0, us), rest)

/-- The characters that start an offset: `-`, `+` and `Z`. -/
def designator (c : Char) : Bool := c = '-' || c = '+' || c = 'Z'

/-- The offset part: `Z`, or a signed time shorter than a day; less than a second is UTC. -/
def parseOffset : List Char → Except Exc Int
  | [] => .error .valueError
  | 'Z' :: rest => if ended rest then .ok 0 else .error .valueError
  | sign :: rest => do
    let ((hh, mm, ss, us), left) ← parseHhMmSsFf rest
    let offset := microseconds hh mm ss us
    if ended left ∧ offset < microsecondsPerDay then
      return if offset < 1000000 then 0 else if sign = '-' then -(offset : Int) else offset
    else throw .valueError

/-- A time with an optional offset: the microsecond of the day and the offset. Only a time
without offset has to end where the text does. -/
def parseIsoformatTime (cs : List Char) : Except Exc (Nat × Option Int) := do
  let ((hh, mm, ss, us), left) ← parseHhMmSsFf (cs.takeWhile fun c ↦ !designator c)
  let tz := cs.dropWhile fun c ↦ !designator c
  let offset ← if tz = [] then (if ended left then pure none else throw .valueError)
    else some <$> parseOffset tz
  if hh < 24 ∧ mm < 60 ∧ ss < 60 then return (microseconds hh mm ss us, offset)
  else throw .valueError

/-! ### Dates -/

/-- Leap years of the proleptic Gregorian calendar. -/
def isLeap (year : Nat) : Bool := year % 4 == 0 && (year % 100 != 0 || year % 400 == 0)

/-- Days of a month. -/
def daysInMonth (year month : Nat) : Nat :=
  if month = 2 then (if isLeap year then 29 else 28)
  else if month = 4 ∨ month = 6 ∨ month = 9 ∨ month = 11 then 30 else 31

/-- Days before the first of January. -/
def daysBeforeYear (year : Nat) : Nat :=
  let y := year - 1
  y * 365 + y / 4 - y / 100 + y / 400

/-- Days of the year before the first of the month. -/
def daysBeforeMonth (year month : Nat) : Nat :=
  ((List.range (month - 1)).map fun m ↦ daysInMonth year (m + 1)).sum

/-- Ordinal of a date, the first of January of year 1 being day 1. -/
def ymd2ord (year month day : Nat) : Nat :=
  daysBeforeYear year + daysBeforeMonth year month + day

/-- Ordinal of a calendar date that exists. -/
def calendarDate (year month day : Nat) : Except Exc Nat :=
  if 1 ≤ year ∧ 1 ≤ month ∧ month ≤ 12 ∧ 1 ≤ day ∧ day ≤ daysInMonth year month then
    .ok (ymd2ord year month day)
  else .error .valueError

private def maxOrdinal : Nat := 3652059

/-- Ordinal of the Monday that starts the first ISO week. -/
def isoWeek1Monday (year : Nat) : Nat :=
  let firstDay := ymd2ord year 1 1
  let firstWeekday := (firstDay + 6) % 7
  if 3 < firstWeekday then firstDay + 7 - firstWeekday else firstDay - firstWeekday

/-- Ordinal of an ISO week date that exists. -/
def weekDate (year week day : Nat) : Except Exc Nat :=
  let firstWeekday := ymd2ord year 1 1 % 7
  let has53 := firstWeekday = 4 ∨ (firstWeekday = 3 ∧ isLeap year)
  if 1 ≤ year ∧ 1 ≤ week ∧ (week < 53 ∨ (week = 53 ∧ has53)) ∧ 1 ≤ day ∧ day ≤ 7 then
    let ordinal := isoWeek1Monday year + (week - 1) * 7 + (day - 1)
    if ordinal ≤ maxOrdinal then .ok ordinal else .error .valueError
  else .error .valueError

/-- A dash where the date uses dashes, no dash where it does not. -/
def dash (hasSep : Bool) (cs : List Char) : Except Exc (List Char) :=
  if (cs.head? == some '-') == hasSep then .ok (if hasSep then cs.tail else cs)
  else .error .valueError

/-- A whole date part: `YYYY-MM-DD`, `YYYYMMDD`, `YYYY-Www[-D]` or `YYYYWww[D]`. -/
def parseIsoformatDate (cs : List Char) : Except Exc Nat := do
  let (century, rest) ← twoDigits cs
  let (yearOfCentury, rest) ← twoDigits rest
  let year := 100 * century + yearOfCentury
  let hasSep := rest.head? == some '-'
  let rest := if hasSep then rest.tail else rest
  if rest.head? = some 'W' then
    let (week, rest) ← twoDigits rest.tail
    if rest = [] then weekDate year week 1
    else
      match ← dash hasSep rest with
      | [d] => weekDate year week (← digit d)
      | _ => throw .valueError
  else
    let (month, rest) ← twoDigits rest
    let (day, rest) ← twoDigits (← dash hasSep rest)
    if rest = [] then calendarDate year month day else throw .valueError

/-- Where the date part ends. After `YYYYWww` the number of digits that follow tells a
weekday from a time. -/
def findSeparator (cs : List Char) : Except Exc Nat :=
  if cs.length = 7 then .ok 7
  else if cs[4]? = some '-' then
    if cs[5]? = some 'W' then
      if cs[8]? = some '-' then
        if cs.length = 9 then .error .valueError
        else if (cs[10]?.map Char.isDigit) = some true then .ok 8
        else .ok 10
      else .ok 8
    else .ok 10
  else if cs[4]? = some 'W' then
    let idx := 7 + ((cs.drop 7).takeWhile Char.isDigit).length
    if idx < 9 then .ok idx else if idx % 2 = 0 then .ok 7 else .ok 8
  else .ok 8

/-- `datetime.fromisoformat` on the characters of the string. -/
def ofIsoChars (cs : List Char) : Except Exc DateTime := do
  if cs.length < 7 then throw .valueError
  let separator ← findSeparator cs
  let ordinal ← parseIsoformatDate (cs.take separator)
  let midnight := (ordinal - 1) * microsecondsPerDay
  if cs.length ≤ separator then return ⟨midnight, none⟩
  let (time, offset) ← parseIsoformatTime (cs.drop (separator + 1))
  return ⟨midnight + time, offset⟩

/-- `datetime.fromisoformat`. -/
def fromisoformat (s : String) : Except Exc DateTime := ofIsoChars s.toList

/-- Calendar dates, week dates, basic times, fractions and offsets are all read; a separator
calls for a time, and a character before the offset is not looked at. -/
example :
    fromisoformat "2026-06-01T00:00:00.500000Z" = .ok ⟨739767 * 86400000000 + 500000, some 0⟩ ∧
    fromisoformat "20260601T0130+0130" = .ok ⟨739767 * 86400000000 + 5400000000, some 5400000000⟩ ∧
    fromisoformat "2026-W23-1" = .ok ⟨739767 * 86400000000, none⟩ ∧
    fromisoformat "2026-06-01T00 Z" = .ok ⟨739767 * 86400000000, some 0⟩ ∧
    fromisoformat "2026-06-01T" = .error .valueError ∧
    fromisoformat "2026-02-29" = .error .valueError := by
  decide +kernel

end DateTime

end WikiMind.Base
