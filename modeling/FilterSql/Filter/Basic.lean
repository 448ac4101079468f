import FilterSql.Json.Basic
import FilterSql.Text.Blank

/-!
# Filters

A `Filter` says which rows of an entity are wanted: a tree of conditions, an order, bounds on the
number of rows, and the properties to fetch.  The tree of conditions and the bounds are kept as
JSON; what they mean is up to the statement made of the filter.
-/

namespace FilterSql

/-- An order: entries in one text, or a list of such texts. -/
inductive OrderSpec where
  | one (text : String)
  | many (texts : List String)
  deriving DecidableEq, Repr

/-- A projection: the properties in order, or flags that include or exclude properties. -/
inductive FieldsSpec where
  | list (names : List String)
  | flags (flags : Members)
  deriving Repr

/-- A filter, all of whose parts are optional. -/
structure Filter where
  condition : Option Json := none
  order : Option OrderSpec := none
  limit : Option Json := none
  offset : Option Json := none
  /-- Another name for `offset`, which wins if both are there. -/
  skip : Option Json := none
  fields : Option FieldsSpec := none
  deriving Repr, Inhabited

namespace OrderSpec

/-- Is the text the name of a direction? -/
def isDirection (s : String) : Bool :=
  Text.sameIgnoringCase s "asc" || Text.sameIgnoringCase s "desc"

/-- Joins a direction that stands alone with the entry before it, unless that has a direction. -/
def joinDirections : List String → List String
  | p :: d :: rest =>
    if isDirection d && !p.toList.any Text.isBlank then s!"{p} {d}" :: joinDirections rest
    else p :: joinDirections (d :: rest)
  | ps => ps

/-- The trimmed pieces of a text between commas, without empty ones. -/
def commaPieces (s : String) : List String :=
  ((Text.split (· == ',') s).map Text.trim).filter fun p => p != ""

/-- The texts of an order. -/
def texts : OrderSpec → List String
  | one s => [s]
  | many ss => ss

/-- The entries `key` or `key direction` of an order.  A comma stands between entries, or between a
key and its direction. -/
def entries (o : OrderSpec) : List String :=
  o.texts.flatMap fun s => joinDirections (commaPieces s)

end OrderSpec

namespace Filter

/-- A filter with a tree of conditions only. -/
def ofCondition (condition : Json) : Filter := { condition := some condition }

/-- Sets the limit. -/
def withLimit (f : Filter) (limit : Nat) : Filter := { f with limit := some (.int limit) }

/-- The tree of conditions, which has to be an object to count. -/
def conditions? (f : Filter) : Option Members := f.condition >>= Json.obj?

/-- The entries of the order. -/
def orderEntries (f : Filter) : List String :=
  match f.order with
  | some o => o.entries
  | none => []

/-- Does the filter ask for an order? -/
def hasOrder (f : Filter) : Bool := !f.orderEntries.isEmpty

end Filter

end FilterSql
