import FilterSql.Text.Blank
import FilterSql.Value.Basic

/-!
# Rows

A row of a result: named cells in the order of the columns.  Names are found whatever the case of
their ASCII letters.
-/

namespace FilterSql

/-- A named cell. -/
structure Field where
  name : String
  value : Value
  deriving Repr

/-- A row of an entity. -/
structure Row where
  entity : String
  fields : List Field
  deriving Repr

namespace Row

/-- The first field of a name. -/
def find? (r : Row) (name : String) : Option Field :=
  r.fields.find? fun f => Text.sameIgnoringCase f.name name

/-- The value of the first field of a name; null if there is none. -/
def get (r : Row) (name : String) : Value :=
  match r.find? name with
  | some f => f.value
  | none => .null

/-- The row as an object; of fields with one name the last counts. -/
def toJson (r : Row) : Json := .obj (putAll (r.fields.map fun f => (f.name, f.value.toJson)))

end Row

end FilterSql
