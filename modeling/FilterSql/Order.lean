import FilterSql.Error
import FilterSql.Plan.Session
import FilterSql.Sql.Storage

/-!
# Compiling an order

Each entry of an order is a key and an optional direction, with blanks or commas between them.
-/

namespace FilterSql

open Sql

/-- The words of an entry of an order. -/
def orderWords (entry : String) : List String :=
  Text.words (fun c => Text.isBlank c || c == ',') entry

/-- What a key of an order stands for: a property of the entity where the key arrives, or of the
root. -/
def orderExpr (g : Registry) (root : Entity) (s : Session) (key : String) :
    Except CompileError Expr :=
  match s.endpoint? .order key with
  | some ⟨_, label, name, some property⟩ => do
    let entity ← CompileError.ofSchema (g.entity name)
    return entity.keyExpr (some label) property
  | some ⟨_, _, _, none⟩ => .error (.missingOrderProperty key)
  | none => .ok (root.keyExpr (some root.tableName) key)

/-- The items of an order.  Entries without a key are skipped. -/
def orderItems (g : Registry) (root : Entity) (s : Session) :
    List String → Except CompileError (List OrderItem)
  | [] => .ok []
  | entry :: rest =>
    match orderWords entry with
    | [] => orderItems g root s rest
    | key :: directions => do
      let expr ← orderExpr g root s key
      let more ← orderItems g root s rest
      return ⟨expr, some (Direction.ofName directions.head?)⟩ :: more

end FilterSql
