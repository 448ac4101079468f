import FilterSql.Calendar.Date
import FilterSql.Text.Blank

/-!
# Dates and moments as text

Dates are written `YYYY-MM-DD`, moments with `T` or a blank between date and time.  Three readings
of moments differ in how strict they are: `Moment.ofStrict?` wants fixed widths and a zone,
`Moment.ofLoose?` allows blanks between the parts, `Moment.ofLocal?` has no zone.  Each step of a
reading gives a value and what it leaves of the text.
-/

namespace FilterSql

open Text

/-! ## Writing -/

/-- Years from 0 to 9999 have four digits; others have a sign as well. -/
def yearChars (year : Int) : List Char :=
  if 0 ≤ year ∧ year ≤ 9999 then padded 4 year.natAbs
  else (if year < 0 then '-' else '+') :: padded 4 year.natAbs

/-- The characters of a date. -/
def Date.chars (d : Date) : List Char :=
  let c := d.civil
  yearChars c.year ++ '-' :: padded 2 c.month ++ '-' :: padded 2 c.day

/-- The text of a date. -/
def Date.text (d : Date) : String := String.ofList d.chars

/-- A fraction of a second in 3, 6 or 9 digits, the fewest that are exact. -/
def fractionChars (nanos : Nat) : List Char :=
  if nanos = 0 then []
  else if nanos % 1000000 = 0 then '.' :: padded 3 (nanos / 1000000)
  else if nanos % 1000 = 0 then '.' :: padded 6 (nanos / 1000)
  else '.' :: padded 9 nanos

/-- The time of day; a leap second is the second 60. -/
def Moment.timeChars (t : Moment) : List Char :=
  let s := t.secondOfDay
  let leap := t.nanos / 1000000000
  padded 2 (s / 3600) ++ ':' :: padded 2 (s / 60 % 60) ++ ':' :: padded 2 (s % 60 + leap) ++
    fractionChars (t.nanos % 1000000000)

/-- Date and time with a mark between them and a text after them. -/
def Moment.write (t : Moment) (mark : Char) (zone : String) : String :=
  String.ofList (t.date.chars ++ mark :: t.timeChars ++ zone.toList)

/-! ## Reading -/

/-- Drops blanks at the front. -/
def skipBlanks (cs : List Char) : List Char := cs.dropWhile isBlank

/-- At least `least` and at most `most` digits; further digits are left. -/
def numberOf (least most : Nat) (cs : List Char) : Option (Nat × List Char) :=
  let ds := (cs.take most).takeWhile isDigit
  if ds.length < least then none else some (digitsValue ds, cs.drop ds.length)

/-- One given character. -/
def mark? (c : Char) : List Char → Option (List Char)
  | d :: rest => if d = c then some rest else none
  | [] => none

/-- A number of one or two digits after blanks. -/
def looseNumber (cs : List Char) : Option (Nat × List Char) := numberOf 1 2 (skipBlanks cs)

/-- A year after blanks: up to four digits, or a sign and any number of digits. -/
def looseYear (cs : List Char) : Option (Int × List Char) :=
  match skipBlanks cs with
  | '-' :: rest => (numberOf 1 rest.length rest).map fun (n, r) => (-(n : Int), r)
  | '+' :: rest => (numberOf 1 rest.length rest).map fun (n, r) => ((n : Int), r)
  | r => (numberOf 1 4 r).map fun (n, r) => ((n : Int), r)

/-- `year-month-day`, with blanks before the numbers and, if `blanks`, before the dashes. -/
def looseDate (blanks : Bool) (cs : List Char) : Option (Date × List Char) := do
  let skip := fun r => if blanks then skipBlanks r else r
  let (year, r) ← looseYear cs
  let (month, r) ← looseNumber (← mark? '-' (skip r))
  let (day, r) ← looseNumber (← mark? '-' (skip r))
  return (← Date.ofCivil? year month day, r)

/-- A fraction of a second: a point and digits, of which nine count. -/
def fraction (cs : List Char) : Option (Nat × List Char) :=
  match cs with
  | '.' :: rest => do
    let ds := rest.takeWhile isDigit
    let kept := ds.take 9
    if kept.isEmpty then none
    else some (digitsValue kept * 10 ^ (9 - kept.length), rest.dropWhile isDigit)
  | _ => some (0, cs)

/-- A time of day as seconds and nanoseconds.  The second 60 is a leap second. -/
def timeOfDay? (hour minute second nanos : Nat) : Option (Nat × Nat) :=
  if hour < 24 ∧ minute < 60 ∧ second ≤ 60 then
    if second = 60 then some (hour * 3600 + minute * 60 + 59, nanos + 1000000000)
    else some (hour * 3600 + minute * 60 + second, nanos)
  else none

/-- `hour:minute:second` with a fraction, with blanks around the numbers. -/
def looseTime (cs : List Char) : Option ((Nat × Nat) × List Char) := do
  let (hour, r) ← looseNumber cs
  let (minute, r) ← looseNumber (← mark? ':' (skipBlanks r))
  let (second, r) ← looseNumber (← mark? ':' (skipBlanks r))
  let (nanos, r) ← fraction r
  return (← timeOfDay? hour minute second nanos, r)

/-- A zone in seconds east: `Z`, or a sign, two digits of hours, what `between` drops, and two
digits of minutes. -/
def zone (between : List Char → Option (List Char)) (cs : List Char) : Option (Int × List Char) :=
  match cs with
  | [] => none
  | c :: rest =>
    if c = 'Z' || c = 'z' then some (0, rest)
    else if c = '+' || c = '-' || c.toNat = 0x2212 then do
      let (hours, r) ← numberOf 2 2 rest
      let (minutes, r) ← numberOf 2 2 (← between r)
      if minutes < 60 then
        let east : Int := hours * 3600 + minutes * 60
        return (if c = '+' then east else -east, r)
      else none
    else none

/-- Is there one of the marks between date and time? -/
def timeMark? : List Char → Option (List Char)
  | c :: rest => if c = 'T' || c = 't' || c = ' ' then some rest else none
  | [] => none

/-- A moment of a day and a time in a zone less than a day off. -/
def Moment.inZone? (d : Date) (time : Nat × Nat) (east : Int) : Option Moment :=
  if -86400 < east ∧ east < 86400 then Moment.ofDay? d time.1 time.2 east else none

/-- `YYYY-MM-DD`, a mark, `hh:mm:ss` with a fraction, and a zone `Z` or `±hh:mm`. -/
def Moment.ofStrict? (s : String) : Option Moment := do
  let (year, r) ← numberOf 4 4 s.toList
  let (month, r) ← numberOf 2 2 (← mark? '-' r)
  let (day, r) ← numberOf 2 2 (← mark? '-' r)
  let (hour, r) ← numberOf 2 2 (← timeMark? r)
  let (minute, r) ← numberOf 2 2 (← mark? ':' r)
  let (second, r) ← numberOf 2 2 (← mark? ':' r)
  let (nanos, r) ← fraction r
  let (east, r) ← zone (mark? ':') r
  if r.isEmpty then
    Moment.inZone? (← Date.ofCivil? year month day) (← timeOfDay? hour minute second nanos) east
  else none

/-- A date, a mark, a time and a zone, with blanks between the parts. -/
def Moment.ofLoose? (s : String) : Option Moment := do
  let (d, r) ← looseDate true s.toList
  let (time, r) ← looseTime (← timeMark? r)
  let r := skipBlanks r
  let (east, r) ←
    if String.ofList ((r.take 3).map Char.toUpper) = "UTC" then some ((0 : Int), r.drop 3)
    else zone (fun r => some (r.dropWhile fun c => c == ':' || isBlank c)) r
  if (skipBlanks r).isEmpty then Moment.inZone? d time east else none

/-- A date, `T` and a time without a zone. -/
def Moment.ofLocal? (s : String) : Option Moment := do
  let (d, r) ← looseDate true s.toList
  let (time, r) ← looseTime (← mark? 'T' (skipBlanks r))
  if (skipBlanks r).isEmpty then Moment.ofDay? d time.1 time.2 0 else none

/-- `year-month-day` with nothing after it. -/
def Date.ofText? (s : String) : Option Date := do
  let (d, r) ← looseDate false s.toList
  if r.isEmpty then some d else none

/-- `year-month-day` with blanks anywhere between its parts. -/
def Date.ofLoose? (s : String) : Option Date := do
  let (d, r) ← looseDate true s.toList
  if (skipBlanks r).isEmpty then some d else none

end FilterSql
