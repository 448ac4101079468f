import FilterSql.Plan.Session
import FilterSql.Sql.Storage
import FilterSql.Where.Operator

/-!
# Compiling conditions

A `View` is what a tree of conditions is compiled against: the schema, the entity that it filters,
the plan of joins and the operators.  `View.compile` makes one expression of a tree.  Members are
compiled in their order, and those that come to nothing are left out.
-/

namespace FilterSql

open Sql

/-- What conditions are compiled against. -/
structure View where
  registry : Registry
  root : Entity
  session : Session
  operators : Operators

/-- How a group may read its value: as one clause or as arms, each of its own. -/
inductive GroupValue where
  | mapping (clause arms : Unit → Except CompileError (List Expr))
  | list (arms : Unit → Except CompileError (List Expr))
  | other

namespace GroupValue

/-- Arms in parentheses with an operator between them, in parentheses themselves. -/
def group (join : List Expr → Expr) : List Expr → Option Expr
  | [] => none
  | arms => some (.nested (join (arms.map .nested)))

/-- All of the value: a mapping is one clause. -/
def all : GroupValue → Except CompileError (Option Expr)
  | mapping clause _ => (clause ()).map Expr.conjunction
  | list arms => (arms ()).map (group .and)
  | other => .ok none

/-- One of the value: a mapping has an arm for each member. -/
def any : GroupValue → Except CompileError (Option Expr)
  | mapping _ arms => (arms ()).map (group .or)
  | list arms => (arms ()).map (group .or)
  | other => .ok none

end GroupValue

namespace View

/-- The table before columns of the root, which is needed as soon as there may be others. -/
def rootQualifier (w : View) : Option String :=
  if w.session.hasJoins || w.session.hasConditions then some w.root.tableName else none

/-- What a key stands for: a property of the root, a text inside one, or a property of the entity
where the key arrives.  Any other key stands for nothing. -/
def resolveKey (w : View) (key : String) : Except CompileError (Option Expr) :=
  let head := (Text.split (· == '.') key).headD key
  if w.root.hasProperty key then .ok (some (w.root.columnExpr w.rootQualifier key))
  else if key.toList.contains '.' && w.root.hasProperty head then
    .ok (some (w.root.keyExpr w.rootQualifier key))
  else
    match w.session.endpoint? .condition key with
    | some ⟨_, label, name, some property⟩ => do
      let entity ← CompileError.ofSchema (w.registry.entity name)
      return some (entity.keyExpr (some label) property)
    | _ => .ok none

/-- An operand of a comparison: a key after `$`, or a bound value. -/
def operand (w : View) (j : Json) : Except CompileError (Option Expr) :=
  match projection? j with
  | some key => w.resolveKey key
  | none => .ok (some (bound j))

/-- Applies an operator.  `value` is the value as a group reads it, and `negated` the conditions
that negation is about. -/
def apply (op : Operator) (c : Condition) (value : GroupValue)
    (negated : Unit → Except CompileError (Option Expr)) : Except CompileError (Option Expr) :=
  match op with
  | .compare op => (c.comparison op).map some
  | .oneOf negated => (c.membership negated).map some
  | .between => c.range.map some
  | .and => do
    c.refuseOperand
    value.all
  | .or => do
    c.refuseOperand
    value.any
  | .not => do
    c.refuseOperand
    return (← negated ()).map .not

/-- The comparison of two operands, which is left out if one of them stands for nothing. -/
def comparison (w : View) (value : Json) : Except CompileError (Option Expr) := do
  let (name, left, right) ← exprOperands value
  let leftExpr ← w.operand left
  let rightExpr ← w.operand right
  match leftExpr, rightExpr with
  | some l, some r =>
    let op ← w.operators.get name
    apply op ⟨name, some l, right, some r⟩ .other fun _ => .ok none
  | _, _ => return none

/-- The conditions of one member: `group` is its value as a group reads it, and `field` gives the
conditions that its value puts on a column. -/
def member (w : View) (name : String) (value : Json) (group : GroupValue)
    (field : Expr → Except CompileError (List Expr)) : Except CompileError (List Expr) :=
  if isBlankMember value || name == joinDirective then .ok []
  else if isGroup name then do
    let op ← w.operators.get name
    return (← apply op ⟨name, none, value, none⟩ group fun _ => group.all).toList
  else if name = exprDirective then (w.comparison value).map Option.toList
  else do
    match ← w.resolveKey name with
    | some column => field column
    | none => return []

/-- The condition that a column equals a value, by the operator of that name. -/
def equality (w : View) (column : Expr) (value : Json) (group : GroupValue) :
    Except CompileError (List Expr) := do
  let op ← w.operators.get "="
  let c := Condition.mk "=" (some column) value none
  return (← apply op c group fun _ => .error .circularEquality).toList

mutual

/-- The conditions of the members of a clause. -/
def members (w : View) : Members → Except CompileError (List Expr)
  | [] => .ok []
  | (name, value) :: rest => do
    let here ← w.member name value (w.groupValue value) fun column => w.field column value
    let more ← w.members rest
    return here ++ more

/-- The arms of the members of a clause, each a clause of its own. -/
def memberArms (w : View) : Members → Except CompileError (List Expr)
  | [] => .ok []
  | (name, value) :: rest => do
    let here ← w.member name value (w.groupValue value) fun column => w.field column value
    let more ← w.memberArms rest
    return (Expr.conjunction here).toList ++ more

/-- The arms of the elements of a list, which have to be objects to count. -/
def elementArms (w : View) : List Json → Except CompileError (List Expr)
  | [] => .ok []
  | x :: xs => do
    let here ← w.element x
    let more ← w.elementArms xs
    return (Expr.conjunction here).toList ++ more

/-- The conditions of an element of a list. -/
def element (w : View) : Json → Except CompileError (List Expr)
  | .obj ms => w.members ms
  | _ => .ok []

/-- The value of a group. -/
def groupValue (w : View) : Json → GroupValue
  | .obj ms => .mapping (fun _ => w.members ms) (fun _ => w.memberArms ms)
  | .arr xs => .list fun _ => w.elementArms xs
  | _ => .other

/-- The conditions that a value puts on a column: those of its operators, or equality. -/
def field (w : View) (column : Expr) : Json → Except CompileError (List Expr)
  | .obj ms => w.entries column ms
  | .arr xs => w.equality column (.arr xs) (.list fun _ => w.elementArms xs)
  | j => w.equality column j .other

/-- The conditions of operators on a column.  Negation is about the conditions that its operand
would put on the column by itself. -/
def entries (w : View) (column : Expr) : Members → Except CompileError (List Expr)
  | [] => .ok []
  | (name, value) :: rest => do
    let op ← w.operators.get name
    let negated := fun _ =>
      if isBlankMember value then .ok none else (w.field column value).map Expr.conjunction
    let here ← apply op ⟨name, some column, value, none⟩ (w.groupValue value) negated
    let more ← w.entries column rest
    return here.toList ++ more

end

/-- The expression of a tree of conditions; none if it comes to nothing. -/
def compile (w : View) (clause : Option Members) : Except CompileError (Option Expr) :=
  match clause with
  | some ms => (w.members ms).map Expr.conjunction
  | none => .ok none

end View

end FilterSql
