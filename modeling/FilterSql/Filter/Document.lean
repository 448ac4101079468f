import FilterSql.Filter.Basic
import FilterSql.Json.Reader

/-!
# Filters as documents

A filter is an object with the members `where`, `order`, `limit`, `offset`, `skip` and `fields`, or
the list of these in that order.  Members may be missing or null, and others are skipped.
-/

namespace FilterSql

/-- Reads an order. -/
def OrderSpec.ofTree? (b : Budget) : Tree → Option OrderSpec
  | .text s => s.map .one
  | t => (t.asList? b fun _ e => e.asText?).map .many

/-- The document of an order. -/
def OrderSpec.toJson : OrderSpec → Json
  | one s => .str s
  | many ss => .arr (ss.map .str)

/-- Reads a projection. -/
def FieldsSpec.ofTree? (b : Budget) (t : Tree) : Option FieldsSpec :=
  match t with
  | .record _ =>
    match t.json? b with
    | some (.obj ms) => some (.flags ms)
    | _ => none
  | _ => (t.asList? b fun _ e => e.asText?).map .list

/-- The document of a projection. -/
def FieldsSpec.toJson : FieldsSpec → Json
  | list names => .arr (names.map .str)
  | flags ms => .obj ms

/-- Reads a projection. -/
def FieldsSpec.ofJson? (j : Json) : Option FieldsSpec := ofTree? none (Tree.ofJson j)

namespace Filter

/-- The members of the document of a filter. -/
def memberNames : List String := ["where", "order", "limit", "offset", "skip", "fields"]

/-- Reads a filter. -/
def ofTree? (b : Budget) (t : Tree) : Option Filter := do
  let inner ← b.enter
  match ← t.fields? memberNames with
  | [condition, order, limit, offset, skip, fields] =>
    return {
      condition := ← Tree.optional? (Tree.json? inner) condition
      order := ← Tree.optional? (OrderSpec.ofTree? inner) order
      limit := ← Tree.optional? (Tree.json? inner) limit
      offset := ← Tree.optional? (Tree.json? inner) offset
      skip := ← Tree.optional? (Tree.json? inner) skip
      fields := ← Tree.optional? (FieldsSpec.ofTree? inner) fields }
  | _ => none

/-- Reads a filter from a JSON value. -/
def ofJson? (j : Json) : Option Filter := ofTree? none (Tree.ofJson j)

/-- Reads a filter from a text. -/
def ofText? (s : String) : Option Filter := Json.document? s >>= ofTree? .ofText

/-- A member of a document, if it is there. -/
def optionalMember (name : String) (value : Option Json) : Members :=
  match value with
  | some j => [(name, j)]
  | none => []

/-- The document of a filter, without the parts that it does not have. -/
def toJson (f : Filter) : Json :=
  .obj (optionalMember "where" f.condition ++
    optionalMember "order" (f.order.map OrderSpec.toJson) ++
    optionalMember "limit" f.limit ++ optionalMember "offset" f.offset ++
    optionalMember "skip" f.skip ++ optionalMember "fields" (f.fields.map FieldsSpec.toJson))

end Filter

end FilterSql
