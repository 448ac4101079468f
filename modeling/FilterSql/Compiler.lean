import FilterSql.Order
import FilterSql.Plan.Planner
import FilterSql.Projection
import FilterSql.Where.Compile

/-!
# Compiling filters

A `Compiler` makes statements of filters over the entities of a schema: `select` fetches the rows of
an entity that pass a filter, and `count` counts those that pass a tree of conditions.  With joins a
row of the entity may come several times, which grouping by the identifier undoes.
-/

namespace FilterSql

open Sql

/-- A schema, a dialect and operators. -/
structure Compiler where
  registry : Registry
  dialect : Dialect := .postgres
  operators : Operators := .standard

/-- The order of an entity when a filter asks for none. -/
def Entity.defaultOrder (e : Entity) : List String :=
  match e.settings.idSort with
  | .always => e.idNames
  | .never => []
  | .numericOnly => if e.hasOnlyNumericIds then e.idNames else []

/-- The columns of the identifier. -/
def Entity.idColumns (e : Entity) : List Expr := e.idNames.map (e.columnExpr (some e.tableName))

/-- A bound on the number of rows: a number of at least one, which may be written as a text, cut to
an integer. -/
def rowBound? (j : Json) : Option Int64 := do
  let x ←
    match j with
    | .num (.int n) => some (Double.ofInt n)
    | .num (.float x) => some x
    | .str s => Double.ofText? (Text.trim s)
    | _ => none
  match x.compare? (.ofInt 1) with
  | some .gt | some .eq => x.truncate?.map Value.clampedWord
  | _ => none

/-- A bound as an expression. -/
def boundExpr? (j : Option Json) : Option Expr := (j >>= rowBound?).map fun n => .value (.int n)

/-- The name of the column that holds a count. -/
def countColumn : String := "cnt"

/-- The name of the statement whose rows are counted. -/
def countedLabel : String := "t_count"

/-- The number of all rows. -/
def countExpr : Expr := .named (.callAll "count") countColumn

/-- The order that a filter means for an entity. -/
def Filter.effectiveOrder (f : Filter) (root : Entity) : List String :=
  if f.hasOrder then f.orderEntries else root.defaultOrder

namespace Compiler

/-- A plan of joins that has to succeed. -/
def planned (c : Compiler) (root : Entity) (clause : Option Members) (order : List String) :
    Except CompileError Session :=
  match Session.plan c.registry root clause order {} with
  | (s, .ok ()) => .ok s
  | (_, .error e) => .error e

/-- The condition of a tree of conditions under a plan. -/
def condition (c : Compiler) (root : Entity) (s : Session) (clause : Option Members) :
    Except CompileError (Option Expr) :=
  View.compile ⟨c.registry, root, s, c.operators⟩ clause

/-- The statement that fetches the rows of a filter. -/
def buildSelect (c : Compiler) (root : Entity) (f : Filter) : Except CompileError Select := do
  let order := f.effectiveOrder root
  let s ← c.planned root f.conditions? order
  let condition ← c.condition root s f.conditions?
  let orderBy ← orderItems c.registry root s order
  let joins ← c.registry.joinClauses s
  return {
    columns := root.selectionColumns f.fields s.hasJoins
    source := some (.table root.storage none)
    joins, condition, orderBy
    groupBy := if s.hasJoins then root.idColumns else []
    limit := boundExpr? f.limit
    offset := boundExpr? (f.skip <|> f.offset) }

/-- The statement that counts the rows of a tree of conditions. -/
def buildCount (c : Compiler) (root : Entity) (f : Filter) : Except CompileError Select := do
  let s ← c.planned root f.conditions? []
  let condition ← c.condition root s f.conditions?
  let source := some (Source.table root.storage none)
  if s.hasJoins then
    let joins ← c.registry.joinClauses s
    let ids := root.idColumns
    let columns := if ids.isEmpty then [.all (some root.tableName)] else ids
    let inner : Select := { columns, source, joins, condition, groupBy := ids }
    return { columns := [countExpr], source := some (.query inner (some countedLabel)) }
  else return { columns := [countExpr], source, condition }

/-- Compiles a filter of an entity. -/
def select (c : Compiler) (entity : String) (f : Filter) : Except CompileError Statement := do
  let root ← CompileError.ofSchema (c.registry.entity entity)
  return (← c.buildSelect root f).render c.dialect

/-- Compiles the count of a tree of conditions of an entity. -/
def count (c : Compiler) (entity : String) (clause : Option Json) :
    Except CompileError Statement := do
  let root ← CompileError.ofSchema (c.registry.entity entity)
  return (← c.buildCount root { condition := clause }).render c.dialect

end Compiler

end FilterSql
