import FilterSql.Sql.Expr
import FilterSql.Text.Blank

/-!
# SELECT statements

A `Select` by its clauses, the pieces of its text, and the `Statement` that is made of them: the
text in a dialect and the values to be bound to its placeholders.
-/

namespace FilterSql.Sql

/-- A table in a namespace of the database. -/
structure Table where
  space : Option String
  name : String
  deriving DecidableEq, Repr

/-- A kind of join. -/
inductive JoinKind where
  | inner
  | left
  deriving DecidableEq, Repr

/-- A joined table and the condition of the join. -/
structure JoinClause where
  kind : JoinKind
  table : Table
  label : Option String
  condition : Expr
  deriving Repr

/-- The direction of an order. -/
inductive Direction where
  | asc
  | desc
  deriving DecidableEq, Repr

/-- The direction of a name in any case; all but `desc` is ascending. -/
def Direction.ofName (name : Option String) : Direction :=
  match name with
  | some s => if Text.sameIgnoringCase s "desc" then .desc else .asc
  | none => .asc

/-- The name of a direction. -/
def Direction.name : Direction → String
  | asc => "asc"
  | desc => "desc"

/-- An expression to order by. -/
structure OrderItem where
  expr : Expr
  direction : Option Direction
  deriving Repr

/-- Where rows come from: a table, or another statement of type `σ`. -/
inductive Source (σ : Type) where
  | table (t : Table) (label : Option String)
  | query (q : σ) (label : Option String)
  deriving Repr

/-- A SELECT statement; without columns it selects all. -/
structure Select where
  columns : List Expr := []
  source : Option (Source Select) := none
  joins : List JoinClause := []
  condition : Option Expr := none
  groupBy : List Expr := []
  orderBy : List OrderItem := []
  limit : Option Expr := none
  offset : Option Expr := none

/-! ## Pieces -/

/-- The pieces of a table. -/
def Table.pieces (t : Table) : List Piece := qualifierPieces t.space ++ [.name t.name]

/-- The pieces of a label, if there is one. -/
def labelPieces : Option String → List Piece
  | some a => [.fixed " as ", .name a]
  | none => []

/-- The pieces of a join. -/
def JoinClause.pieces (d : Dialect) (j : JoinClause) : List Piece :=
  let kind :=
    match j.kind with
    | .inner => " inner join "
    | .left => " left join "
  .fixed kind :: (j.table.pieces ++ labelPieces j.label ++ .fixed " on " :: j.condition.pieces d)

/-- The pieces of an optional clause after its keyword. -/
def clausePieces (d : Dialect) (keyword : String) : Option Expr → List Piece
  | some e => .fixed keyword :: e.pieces d
  | none => []

/-- The pieces of a clause with a list after its keyword. -/
def listClausePieces (d : Dialect) (keyword : String) : List Expr → List Piece
  | [] => []
  | es => .fixed keyword :: Expr.listPieces d ", " es

/-- The pieces of an item of an order. -/
def OrderItem.pieces (d : Dialect) (o : OrderItem) : List Piece :=
  o.expr.pieces d ++
    match o.direction with
    | some .asc => [.fixed " asc"]
    | some .desc => [.fixed " desc"]
    | none => []

/-- The pieces of an order with commas between its items. -/
def orderPieces (d : Dialect) : List OrderItem → List Piece
  | [] => []
  | [o] => o.pieces d
  | o :: os => o.pieces d ++ .fixed ", " :: orderPieces d os

/-- The pieces of the ORDER BY clause. -/
def orderClausePieces (d : Dialect) : List OrderItem → List Piece
  | [] => []
  | os => .fixed " order by " :: orderPieces d os

/-- The pieces of the selected columns. -/
def columnPieces (d : Dialect) : List Expr → List Piece
  | [] => [.fixed "*"]
  | es => Expr.listPieces d ", " es

mutual

/-- The pieces of a statement. -/
def Select.pieces (d : Dialect) : Select → List Piece
  | ⟨columns, source, joins, condition, groupBy, orderBy, limit, offset⟩ =>
    .fixed "select " :: (columnPieces d columns ++ fromPieces d source ++
      joins.flatMap (JoinClause.pieces d) ++ clausePieces d " where " condition ++
      listClausePieces d " group by " groupBy ++ orderClausePieces d orderBy ++
      clausePieces d " limit " limit ++ clausePieces d " offset " offset)

/-- The pieces of the FROM clause. -/
def fromPieces (d : Dialect) : Option (Source Select) → List Piece
  | none => []
  | some s => .fixed " from " :: sourcePieces d s

/-- The pieces of a source. -/
def sourcePieces (d : Dialect) : Source Select → List Piece
  | .table t label => t.pieces ++ labelPieces label
  | .query q label => .fixed "(" :: (q.pieces d ++ .fixed ")" :: labelPieces label)

end

/-! ## Statements -/

/-- A statement and the values bound to its placeholders. -/
structure Statement where
  text : String
  bindings : List Value
  deriving Repr

/-- The statement of pieces. -/
def statementOf (d : Dialect) (ps : List Piece) : Statement :=
  ⟨String.ofList (assemble d 0 ps), bindings ps⟩

/-- The statement of a SELECT in a dialect. -/
def Select.render (s : Select) (d : Dialect) : Statement := statementOf d (s.pieces d)

/-- The text of an expression in a dialect, with the values bound in it. -/
def Expr.render (e : Expr) (d : Dialect) : Statement := statementOf d (e.pieces d)

end FilterSql.Sql
