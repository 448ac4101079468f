import FilterSql.Filter.Basic
import FilterSql.Sql.Storage

/-!
# Compiling a projection

Which properties of an entity a filter asks for, and the columns that they make.
-/

namespace FilterSql

open Sql

/-- Does a flag stand for yes?  Null, false, zero, NaN and the empty text do not. -/
def isTruthy : Json → Bool
  | .null => false
  | .bool b => b
  | .num (.int n) => n != 0
  | .num (.float x) => !x.numEq (.zero false) && !x.isNaN
  | .str s => s != ""
  | .arr _ => true
  | .obj _ => true

/-- The names that flags choose: those that are flagged, or else those that are not flagged off. -/
def flagged (flags : Members) (names : List String) : List String :=
  match names.filter fun n => (flags.lookup n).any isTruthy with
  | [] => names.filter fun n => (flags.lookup n).all isTruthy
  | included => included

/-- The properties that a projection chooses; none if the entity declares no properties.  Names that
are not declared are left out. -/
def Entity.selection? (e : Entity) (fields : Option FieldsSpec) : Option (List String) :=
  let names := e.properties.map (·.name)
  if names.isEmpty then none
  else
    match fields with
    | none => some names
    | some (.list []) => some names
    | some (.list chosen) => some (chosen.filter e.hasProperty)
    | some (.flags flags) => some (flagged flags names)

/-- The columns that a projection chooses, before which stands the table.  With joins, and without
columns, they are all columns of the table. -/
def Entity.selectionColumns (e : Entity) (fields : Option FieldsSpec) (hasJoins : Bool) :
    List Expr :=
  match ((e.selection? fields).getD []).map (e.columnExpr (some e.tableName)) with
  | [] => if hasJoins then [.all (some e.tableName)] else []
  | columns => columns

end FilterSql
