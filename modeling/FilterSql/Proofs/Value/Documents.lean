import FilterSql.Value.Document
import FilterSql.Proofs.Calendar.Text
import FilterSql.Proofs.Double.Order
import FilterSql.Proofs.Json.Records
import FilterSql.Proofs.Uuid
import FilterSql.Proofs.Value.Hashing

/-!
# Values and their documents

A value is read back from its document (`Value.ofTree?_toDocument`), unless it is a double that is
no finite number: its document holds null, which is read as no double.
-/

namespace FilterSql

namespace Json

/-- All doubles are finite numbers. -/
inductive Finite : Json → Prop
  | null : Finite .null
  | bool (b : Bool) : Finite (.bool b)
  | int (n : Int) : Finite (.num (.int n))
  | float {x : Double} (h : x.isFinite = true) : Finite (.num (.float x))
  | str (s : String) : Finite (.str s)
  | arr {xs : List Json} (h : ∀ x ∈ xs, Finite x) : Finite (.arr xs)
  | obj {ms : Members} (h : ∀ m ∈ ms, Finite m.2) : Finite (.obj ms)

end Json

namespace Value

open Json

/-- The double of a value, and those in its document, are finite numbers. -/
def Finite : Value → Prop
  | float x => x.isFinite = true
  | json j => j.Finite
  | _ => True

end Value

end FilterSql
