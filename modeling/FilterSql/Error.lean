import FilterSql.Schema.Registry

/-!
# Errors of compilation

What may be wrong with a filter when it is compiled against a schema.
-/

namespace FilterSql

/-- Why a filter has no statement. -/
inductive CompileError where
  /-- A key begins with neither a property nor a relation. -/
  | unknownPath (entity key : String)
  /-- A chain of relations ends at an entity without the property. -/
  | propertyNotOnTarget (property entity chain : String)
  | invalidPolymorphicUsage (key reason : String)
  | malformedKey (key : String)
  | unsupportedOperator (operator : String)
  | invalidExpression (reason : String)
  | invalidOperand (operator reason : String)
  /-- An order goes by a relation instead of a property. -/
  | missingOrderProperty (key : String)
  /-- The operator of equality is bound to negation, which is defined by it. -/
  | circularEquality
  | schema (e : SchemaError)
  deriving DecidableEq, Repr

namespace CompileError

/-- The message of an error. -/
def message : CompileError → String
  | unknownPath e k => s!"No relation or property found for key '{k}' in entity '{e}'"
  | propertyNotOnTarget p e c => s!"'{p}' is not a property of '{e}' reached through '{c}'"
  | invalidPolymorphicUsage k r => s!"Invalid polymorphic usage in key '{k}': {r}"
  | malformedKey k => s!"Malformed key '{k}'"
  | unsupportedOperator o => s!"Operator '{o}' is not supported"
  | invalidExpression r => s!"Invalid $expr: {r}"
  | invalidOperand o r => s!"Invalid operand for '{o}': {r}"
  | missingOrderProperty k => s!"Relation order constraint for key '{k}' is missing a property"
  | circularEquality => "Operator '=' is bound to its own negation"
  | schema e => s!"Schema error: {e.message}"

/-- An answer of the schema within a compilation. -/
def ofSchema {α : Type} (x : Except SchemaError α) : Except CompileError α := x.mapError .schema

end CompileError

end FilterSql
