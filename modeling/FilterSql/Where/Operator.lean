import FilterSql.Catalog
import FilterSql.Sql.Expr
import FilterSql.Where.Clause

/-!
# Operators of conditions

The operators that a tree of conditions may use, by name.  `Condition.compile` is the meaning of
those that look at one column; the others combine further conditions.
-/

namespace FilterSql

open Sql

/-- What an operator does. -/
inductive Operator where
  | compare (op : Comparison)
  | oneOf (negated : Bool)
  | between
  | not
  | and
  | or
  deriving DecidableEq, Repr

/-- Operators by name. -/
abbrev Operators := Catalog (String × Operator) Prod.fst

namespace Operators

/-- Binds an operator to a name, over any other. -/
def bind (ops : Operators) (name : String) (op : Operator) : Operators := ops.put (name, op)

/-- The operator of a name. -/
def get (ops : Operators) (name : String) : Except CompileError Operator :=
  match ops.find? name with
  | some (_, op) => .ok op
  | none => .error (.unsupportedOperator name)

/-- The usual operators. -/
def standard : Operators :=
  Catalog.ofList [
    ("=", .compare .eq), ("eq", .compare .eq),
    ("!=", .compare .notEq), ("neq", .compare .notEq),
    ("<", .compare .lt), ("lt", .compare .lt),
    ("<=", .compare .ltEq), ("lte", .compare .ltEq),
    (">", .compare .gt), ("gt", .compare .gt),
    (">=", .compare .gtEq), ("gte", .compare .gtEq),
    ("in", .oneOf false), ("inq", .oneOf false), ("nin", .oneOf true),
    ("between", .between),
    ("like", .compare .like), ("nlike", .compare .notLike),
    ("ilike", .compare .ilike), ("nilike", .compare .notIlike),
    ("not", .not), ("!", .not), ("and", .and), ("or", .or)]

end Operators

/-- An operator as it is used: its name, the column on its left, and on its right a value, or an
operand that is resolved already. -/
structure Condition where
  name : String
  column : Option Expr
  value : Json
  operand : Option Expr

/-- A filter literal as a bound value. -/
def bound (j : Json) : Expr := .value (.ofJson j)

/-- The choices of a membership; without any the list holds null. -/
def choices : Json → List Expr
  | .arr [] => [.value .null]
  | .arr xs => xs.map bound
  | .null => [.value .null]
  | j => [bound j]

namespace Condition

/-- The column on the left, which has to be there. -/
def requireColumn (c : Condition) : Except CompileError Expr :=
  match c.column with
  | some e => .ok e
  | none =>
    .error (.invalidOperand c.name "operator needs a property on its left-hand side")

/-- Refuses an operand that is resolved already. -/
def refuseOperand (c : Condition) : Except CompileError Unit :=
  match c.operand with
  | some _ => .error (.invalidExpression s!"'{c.name}' cannot be used in $expr")
  | none => .ok ()

/-- A comparison of the column with the right side. -/
def comparison (c : Condition) (op : Comparison) : Except CompileError Expr := do
  let column ← c.requireColumn
  match c.operand, c.value, op with
  | none, .null, .eq => return .isNull column false
  | none, .null, .notEq => return .isNull column true
  | none, value, _ => return .compare column op (bound value)
  | some operand, _, _ => return .compare column op operand

/-- Membership of the column in a list. -/
def membership (c : Condition) (negated : Bool) : Except CompileError Expr := do
  c.refuseOperand
  return .oneOf (← c.requireColumn) (choices c.value) negated

/-- The column between two bounds, which are null if they are missing. -/
def range (c : Condition) : Except CompileError Expr := do
  c.refuseOperand
  match c.value with
  | .arr xs =>
    let bound? (i : Nat) : Expr := ((xs.drop i).head?.map bound).getD (.value .null)
    return .between (← c.requireColumn) (bound? 0) (bound? 1)
  | _ => .error (.invalidOperand c.name "expected an array of two bounds")

end Condition

end FilterSql
