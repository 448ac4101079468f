import FilterSql.Error
import FilterSql.Json.Basic

/-!
# Trees of conditions

A tree of conditions is an object whose members are taken together.  Most members are keys with a
value or with operators.  The others are groups (`and`, `or`, `not`, `!`), a comparison of two
operands (`$expr`), and paths that are to be joined whether or not a condition needs them (`$join`).
-/

namespace FilterSql

/-- Does the member hold further conditions? -/
def isGroup (name : String) : Bool := name == "and" || name == "or" || name == "not" || name == "!"

/-- The member that compares two operands. -/
def exprDirective : String := "$expr"

/-- The member that names paths to be joined. -/
def joinDirective : String := "$join"

/-- A member with an empty text or list counts as absent. -/
def isBlankMember : Json → Bool
  | .str s => s == ""
  | .arr [] => true
  | _ => false

/-- A text without its leading `$`, by which operands refer to keys. -/
def projection? : Json → Option String
  | .str s =>
    match s.toList with
    | '$' :: rest => some (String.ofList rest)
    | _ => none
  | _ => none

/-- The operator and the two operands of a comparison; members after the first do not count. -/
def exprOperands : Json → Except CompileError (String × Json × Json)
  | .obj ((operator, .arr [left, right]) :: _) => .ok (operator, left, right)
  | .obj ((operator, _) :: _) =>
    .error (.invalidExpression s!"$expr->{operator} must be an array value with 2 elements")
  | .obj [] => .error (.invalidExpression "$expr has no operator")
  | _ => .error (.invalidExpression "$expr must be an object")

/-- The paths of a join directive. -/
def joinPaths (value : Json) : Except CompileError (List String) :=
  let paths? :=
    match value with
    | .str path => some [path]
    | .arr paths => paths.mapM Json.str?
    | _ => none
  match paths? with
  | some paths => .ok paths
  | none =>
    .error (.invalidOperand joinDirective "expected a relation path or a list of paths")

end FilterSql
