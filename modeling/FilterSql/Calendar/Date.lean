import FilterSql.Power
import FilterSql.Text.Numeral

/-!
# Dates and moments

A `Date` counts the days since 1970-01-01 and a `Moment` the seconds and nanoseconds since the start
of that day, both in the Gregorian calendar without end.  A `Moment` may lie in a leap second, which
is the last second of its minute with a billion nanoseconds or more.  Both are kept between the
years -262143 and 262142.
-/

namespace FilterSql

namespace Calendar

/-- Year, month and day. -/
structure Civil where
  year : Int
  month : Nat
  day : Nat
  deriving DecidableEq, Repr

/-- Is it a leap year? -/
def isLeapYear (year : Int) : Bool :=
  year % 4 == 0 && (year % 100 != 0 || year % 400 == 0)

/-- The length of a month. -/
def monthLength (year : Int) (month : Nat) : Nat :=
  if month = 2 then if isLeapYear year then 29 else 28
  else if month = 4 ∨ month = 6 ∨ month = 9 ∨ month = 11 then 30
  else 31

/-- Is there such a month and such a day in it? -/
def Civil.exists (c : Civil) : Bool :=
  1 ≤ c.month && c.month ≤ 12 && 1 ≤ c.day && c.day ≤ monthLength c.year c.month

/-- The days from 1970-01-01 to a day.  Years are counted from March, in eras of 400 years. -/
def Civil.days (c : Civil) : Int :=
  let y := if c.month ≤ 2 then c.year - 1 else c.year
  let era := y / 400
  let ofEra := y % 400
  let ofYear : Int := (153 * ((c.month + 9) % 12) + 2) / 5 + c.day - 1
  era * 146097 + (ofEra * 365 + ofEra / 4 - ofEra / 100 + ofYear) - 719468

/-- Year, month and day of a number of days. -/
def civil (days : Int) : Civil :=
  let z := days + 719468
  let era := z / 146097
  let ofEra := z % 146097
  let yearOfEra := (ofEra - ofEra / 1460 + ofEra / 36524 - ofEra / 146096) / 365
  let ofYear := ofEra - (365 * yearOfEra + yearOfEra / 4 - yearOfEra / 100)
  let march := (5 * ofYear + 2) / 153
  let month := if march < 10 then march + 3 else march - 9
  let year := yearOfEra + era * 400
  { year := if month ≤ 2 then year + 1 else year
    month := month.toNat
    day := (ofYear - (153 * march + 2) / 5 + 1).toNat }

/-- The first day that a date may be. -/
def firstDay : Int := (Civil.mk (-262143) 1 1).days

/-- The last day that a date may be. -/
def lastDay : Int := (Civil.mk 262142 12 31).days

end Calendar

open Calendar

/-- A day, counted from 1970-01-01. -/
structure Date where
  days : Int
  inRange : firstDay ≤ days ∧ days ≤ lastDay
  deriving DecidableEq, Repr

/-- The day with a number, if it lies in the years of dates. -/
def Date.ofDays? (days : Int) : Option Date :=
  if h : firstDay ≤ days ∧ days ≤ lastDay then some ⟨days, h⟩ else none

/-- The day of a year, month and day that exist. -/
def Date.ofCivil? (year : Int) (month day : Nat) : Option Date :=
  let c := Civil.mk year month day
  if c.exists then ofDays? c.days else none

/-- Year, month and day of a day. -/
def Date.civil (d : Date) : Civil := Calendar.civil d.days

/-- A point of time, counted from 1970-01-01T00:00:00. -/
structure Moment where
  seconds : Int
  nanos : Nat
  inRange : firstDay * 86400 ≤ seconds ∧ seconds < (lastDay + 1) * 86400
  nanos_lt : nanos < 10 ^ 9 ∨ (nanos < 2 * 10 ^ 9 ∧ seconds % 60 = 59)
  deriving DecidableEq, Repr

namespace Moment

/-- The moment of these seconds and nanoseconds, if there is one. -/
def ofSeconds? (seconds : Int) (nanos : Nat) : Option Moment :=
  if h : firstDay * 86400 ≤ seconds ∧ seconds < (lastDay + 1) * 86400 then
    if hn : nanos < 10 ^ 9 ∨ (nanos < 2 * 10 ^ 9 ∧ seconds % 60 = 59) then
      some ⟨seconds, nanos, h, hn⟩
    else none
  else none

/-- The day of a moment. -/
def date (t : Moment) : Date :=
  ⟨t.seconds / 86400, by have := t.inRange; omega⟩

/-- The second of its day. -/
def secondOfDay (t : Moment) : Nat := (t.seconds % 86400).toNat

/-- A second of a day, counted from it by a zone `east` seconds ahead. -/
def ofDay? (d : Date) (second nanos : Nat) (east : Int) : Option Moment :=
  ofSeconds? (d.days * 86400 + second - east) nanos

/-- Earlier or later, by seconds and then by nanoseconds. -/
def order (s t : Moment) : Ordering :=
  (compare s.seconds t.seconds).then (compare s.nanos t.nanos)

end Moment

end FilterSql
