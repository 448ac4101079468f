import FilterSql.Calendar.Text
import FilterSql.Json.Printer
import FilterSql.Text.LowerCase
import FilterSql.Uuid

/-!
# Values

A `Value` is what a statement binds to a placeholder and what a cell of a row holds.  Filter
literals become values by `Value.ofJson`: scalars keep their kind, arrays and objects are bound as
documents.
-/

namespace FilterSql

/-- A bound value or a cell. -/
inductive Value where
  | int (n : Int64)
  | uint (n : UInt64)
  | float (x : Double)
  | string (s : String)
  | bool (b : Bool)
  | json (j : Json)
  | uuid (u : Uuid)
  | bytes (bs : List UInt8)
  | date (d : Date)
  /-- A moment of universal time. -/
  | timestamp (t : Moment)
  /-- A moment without a zone. -/
  | localTime (t : Moment)
  | null
  deriving Repr

namespace Value

/-! ## JSON -/

/-- The value of an integer literal, which fits a signed or an unsigned word of 64 bits. -/
def ofInt (n : Int) : Value :=
  if n < 2 ^ 63 then .int (Int64.ofInt n) else .uint (UInt64.ofNat n.toNat)

/-- The value of a filter literal. -/
def ofJson : Json → Value
  | .null => .null
  | .bool b => .bool b
  | .num (.int n) => ofInt n
  | .num (.float x) => .float x
  | .str s => .string s
  | j => .json j

/-- The JSON form of a value; a double that is no number is null. -/
def toJson : Value → Json
  | .int n => .int n.toInt
  | .uint n => .int n.toNat
  | .float x => .float x
  | .string s => .str s
  | .bool b => .bool b
  | .json j => j
  | .uuid u => .str u.text
  | .bytes bs => .arr (bs.map fun b => .int b.toNat)
  | .date d => .str d.text
  | .timestamp t => .str (t.write 'T' "+00:00")
  | .localTime t => .str (t.write ' ' "")
  | .null => .null

/-- Is it the null value? -/
def isNull : Value → Bool
  | .null => true
  | _ => false

/-! ## Readings of a value -/

/-- The double that a value can be read as. -/
def double? : Value → Option Double
  | .int n => some (.ofInt n.toInt)
  | .uint n => some (.ofInt n.toNat)
  | .float x => some x
  | .string s => Double.ofText? s
  | .bool b => some (.ofInt b.toNat)
  | .json (.num (.int n)) => some (.ofInt n)
  | .json (.num (.float x)) => some x
  | _ => none

/-- The integer, if it fits a signed word. -/
def word? (n : Int) : Option Int64 :=
  if -2 ^ 63 ≤ n ∧ n < 2 ^ 63 then some (Int64.ofInt n) else none

/-- The signed word nearest to an integer. -/
def clampedWord (n : Int) : Int64 := Int64.ofInt (max (-2 ^ 63) (min n (2 ^ 63 - 1)))

/-- The integer that a value can be read as.  Of doubles those without fraction count. -/
def integer? : Value → Option Int64
  | .int n => some n
  | .uint n => word? n.toNat
  | .float x => if x.isIntegral then x.truncate?.map clampedWord else none
  | .string s => Text.integer? s.toList >>= word?
  | .bool b => some (if b then 1 else 0)
  | .json (.num (.int n)) => word? n
  | _ => none

/-- The text that a value can be read as. -/
def text? : Value → Option String
  | .int n => some (Text.integer n.toInt)
  | .uint n => some (Text.natural n.toNat)
  | .float x => some x.text
  | .string s => some s
  | .bool b => some (if b then "true" else "false")
  | .json (.str s) => some s
  | .json j => some j.compact
  | .uuid u => some u.text
  | .date d => some d.text
  | .timestamp t => some (t.write 'T' "+00:00")
  | .localTime t => some (t.write ' ' "")
  | .bytes _ => none
  | .null => none

/-- The truth value that a value can be read as. -/
def bool? : Value → Option Bool
  | .int n => some (n != 0)
  | .uint n => some (n != 0)
  | .float x => some (!x.numEq (.zero false))
  | .string s =>
    let t := Text.lower s
    if t = "true" ∨ t = "1" then some true
    else if t = "false" ∨ t = "0" then some false
    else none
  | .bool b => some b
  | .json (.bool b) => some b
  | _ => none

/-- The text by which messages show a value. -/
def display : Value → String
  | .null => "NULL"
  | .bytes bs => s!"<{bs.length} bytes>"
  | v => v.text?.getD ""

end Value

end FilterSql
