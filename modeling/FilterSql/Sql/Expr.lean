import FilterSql.Sql.Dialect

/-!
# SQL expressions

Expressions as trees, and the pieces of their text.  Values are bound, never written out.
Conjunction, disjunction and the rest stand without parentheses of their own: `Expr.nested` adds
them.
-/

namespace FilterSql.Sql

/-- A column, with the table that it belongs to if that is said. -/
structure Column where
  qualifier : Option String
  name : String
  deriving DecidableEq, Repr

/-- A comparison of two expressions. -/
inductive Comparison where
  | eq
  | notEq
  | lt
  | ltEq
  | gt
  | gtEq
  | like
  | notLike
  | ilike
  | notIlike
  deriving DecidableEq, Repr

/-- An expression. -/
inductive Expr where
  | column (c : Column)
  | value (v : Value)
  | compare (left : Expr) (op : Comparison) (right : Expr)
  | call (function : String) (args : List Expr)
  /-- A function of all rows, as in `count(*)`. -/
  | callAll (function : String)
  | named (e : Expr) (label : String)
  /-- The text at a path of members of a document. -/
  | textAt (c : Column) (keys : List String)
  | and (es : List Expr)
  | or (es : List Expr)
  | not (e : Expr)
  | nested (e : Expr)
  | oneOf (e : Expr) (choices : List Expr) (negated : Bool)
  | between (e low high : Expr)
  | isNull (e : Expr) (negated : Bool)
  /-- All columns, of one table if it is said. -/
  | all (qualifier : Option String)
  deriving Repr, Inhabited

/-- The conjunction of expressions; none of none, and one stands for itself. -/
def Expr.conjunction : List Expr → Option Expr
  | [] => none
  | [e] => some e
  | es => some (.and es)

/-- A comparison with blanks around it. -/
def Comparison.text (d : Dialect) : Comparison → String
  | eq => " = "
  | notEq => " <> "
  | lt => " < "
  | ltEq => " <= "
  | gt => " > "
  | gtEq => " >= "
  | like => " like "
  | notLike => " not like "
  | ilike => if d.hasIlike then " ilike " else " like "
  | notIlike => if d.hasIlike then " not ilike " else " not like "

/-- A table before its column, if it is said. -/
def qualifierPieces : Option String → List Piece
  | some q => [.name q, .fixed "."]
  | none => []

/-- The pieces of a column. -/
def Column.pieces (c : Column) : List Piece := qualifierPieces c.qualifier ++ [.name c.name]

mutual

/-- The pieces of an expression. -/
def Expr.pieces (d : Dialect) : Expr → List Piece
  | .column c => c.pieces
  | .value v => [.bound v]
  | .compare left op right => left.pieces d ++ .fixed (op.text d) :: right.pieces d
  | .call function args =>
    .fixed function :: .fixed "(" :: (Expr.listPieces d ", " args ++ [.fixed ")"])
  | .callAll function => [.fixed function, .fixed "(*)"]
  | .named e label => e.pieces d ++ [.fixed " as ", .name label]
  | .textAt c keys => extraction d c.pieces keys
  | .and es => Expr.listPieces d " and " es
  | .or es => Expr.listPieces d " or " es
  | .not e => .fixed "not (" :: (e.pieces d ++ [.fixed ")"])
  | .nested e => .fixed "(" :: (e.pieces d ++ [.fixed ")"])
  | .oneOf e choices negated =>
    e.pieces d ++ .fixed (if negated then " not in (" else " in (") ::
      (Expr.listPieces d ", " choices ++ [.fixed ")"])
  | .between e low high =>
    e.pieces d ++ .fixed " between " :: (low.pieces d ++ .fixed " and " :: high.pieces d)
  | .isNull e negated => e.pieces d ++ [.fixed (if negated then " is not null" else " is null")]
  | .all qualifier => qualifierPieces qualifier ++ [.fixed "*"]

/-- The pieces of expressions with a separator between them. -/
def Expr.listPieces (d : Dialect) (separator : String) : List Expr → List Piece
  | [] => []
  | [e] => e.pieces d
  | e :: es => e.pieces d ++ .fixed separator :: Expr.listPieces d separator es

end

end FilterSql.Sql
