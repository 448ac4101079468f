import FilterSql.Schema.Entity
import FilterSql.Sql.Select

/-!
# Where entities are stored

The table of an entity, the columns of its properties, and the texts inside properties that hold
documents.
-/

namespace FilterSql.Entity

open Sql

/-- The table of an entity in its namespace. -/
def storage (e : Entity) : Table := ⟨e.schema, e.tableName⟩

/-- The column of a property. -/
def columnIn (e : Entity) (qualifier : Option String) (property : String) : Column :=
  ⟨qualifier, e.column property⟩

/-- The column of a property as an expression. -/
def columnExpr (e : Entity) (qualifier : Option String) (property : String) : Expr :=
  .column (e.columnIn qualifier property)

/-- What a key of an entity stands for: the property of that name, or else the text at the path
after its first point in the document that the property before the point holds. -/
def keyExpr (e : Entity) (qualifier : Option String) (key : String) : Expr :=
  if e.hasProperty key then e.columnExpr qualifier key
  else
    match Text.split (· == '.') key with
    | head :: k :: keys => .textAt (e.columnIn qualifier head) (k :: keys)
    | _ => e.columnExpr qualifier key

end FilterSql.Entity
