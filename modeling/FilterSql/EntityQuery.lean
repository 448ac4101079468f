import FilterSql.Compiler
import FilterSql.Row

/-!
# Queries of an entity

An `EntityQuery` compiles filters of one entity, has them run, and gives rows under the names of
properties.  What runs a statement is a parameter: it may be any computation that gives rows or
fails.
-/

namespace FilterSql

open Sql

/-- Why a query has no rows. -/
inductive QueryError where
  /-- The database refused. -/
  | sql
  | compile (e : CompileError)
  /-- A bound value does not fit the type of its placeholder, the placeholders counted from one. -/
  | coercion (index : Nat) (type value : String)
  /-- The rows are not those that were asked for. -/
  | unexpectedResult (reason : String)
  deriving DecidableEq, Repr

/-- The message of an error. -/
def QueryError.message : QueryError → String
  | sql => "SQL error"
  | compile e => s!"Compile error: {e.message}"
  | coercion index type value =>
    "Cannot bind parameter $" ++ s!"{Text.natural index} as {type}: {value}"
  | unexpectedResult reason => s!"Unexpected result: {reason}"

/-- A field under the name of the first property that is stored in its column. -/
def Entity.propertyField (e : Entity) (f : Field) : Field :=
  match e.properties.find? fun p => p.column == f.name with
  | some p => { f with name := p.name }
  | none => f

/-- A row of an entity under the names of its properties. -/
def Entity.propertyRow (e : Entity) (r : Row) : Row := ⟨e.name, r.fields.map e.propertyField⟩

/-- The number in the row of a count. -/
def countOf? (rows : List Row) : Option Nat := do
  let row ← rows.head?
  let field ← row.find? countColumn
  let n ← field.value.integer?
  if 0 ≤ n then some n.toInt.toNat else none

/-- A compiler and one of its entities. -/
structure EntityQuery where
  compiler : Compiler
  root : Entity

namespace EntityQuery

/-- Queries of the entity of a name. -/
def ofName (c : Compiler) (entity : String) : Except CompileError EntityQuery :=
  (CompileError.ofSchema (c.registry.entity entity)).map fun root => ⟨c, root⟩

variable {m : Type → Type} [Monad m]

/-- A statement of a compilation. -/
def compiled (s : Except CompileError Statement) : ExceptT QueryError m Statement :=
  match s with
  | .ok s => return s
  | .error e => throw (.compile e)

/-- The rows that pass a filter. -/
def find (q : EntityQuery) (run : Statement → ExceptT QueryError m (List Row)) (f : Filter) :
    ExceptT QueryError m (List Row) := do
  let statement ← compiled (q.compiler.select q.root.name f)
  let rows ← run statement
  return rows.map q.root.propertyRow

/-- The first row that passes a filter. -/
def findOne (q : EntityQuery) (run : Statement → ExceptT QueryError m (List Row)) (f : Filter) :
    ExceptT QueryError m (Option Row) := do
  return (← q.find run (f.withLimit 1)).head?

/-- The number of rows that pass a tree of conditions. -/
def count (q : EntityQuery) (run : Statement → ExceptT QueryError m (List Row))
    (clause : Option Json) : ExceptT QueryError m Nat := do
  let statement ← compiled (q.compiler.count q.root.name clause)
  match countOf? (← run statement) with
  | some n => return n
  | none =>
    throw (.unexpectedResult s!"count of \"{q.root.name}\" returned no \"{countColumn}\" column")

end EntityQuery

end FilterSql
