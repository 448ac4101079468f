import FilterSql.Json.Reader
import FilterSql.Schema.Registry

/-!
# Schemas as documents

A schema document is an object with the list `entities`.  Reading skips members that it does not
know, fills in defaults, and takes lists for objects, with the members by position.  Writing leaves
out what is not set, except the type of a property and the settings of an entity.
-/

namespace FilterSql

open FilterSql.Tree

/-! ## Reading -/

/-- The property type of a name. -/
def PropertyType.ofName? : String → Option PropertyType
  | "string" => some .string
  | "number" => some .number
  | "boolean" => some .boolean
  | "date" => some .date
  | "object" => some .object
  | "array" => some .array
  | "any" => some .any
  | _ => none

/-- Reads a property. -/
def Property.ofTree? (b : Budget) (t : Tree) : Option Property := do
  let inner ← b.enter
  match ← t.fields? ["name", "column", "type", "id"] with
  | [name, column, type, isId] =>
    return {
      name := ← name >>= asText?
      storage := ← optional? asText? column
      type := ← withDefault? .any (fun t => choice? inner t >>= PropertyType.ofName?) type
      isId := ← withDefault? false asBool? isId }
  | _ => none

/-- Reads when rows are ordered by identifier: a truth value or `numericIdOnly`. -/
def IdSort.ofTree? (b : Budget) (t : Tree) : Option IdSort :=
  match t with
  | .bool flag => some (if flag then .always else .never)
  | _ => if choice? b t = some "numericIdOnly" then some .numericOnly else none

/-- Reads settings. -/
def Settings.ofTree? (b : Budget) (t : Tree) : Option Settings := do
  let inner ← b.enter
  match ← t.fields? ["hiddenRelations", "defaultIdSort"] with
  | [hidden, sort] =>
    return {
      hiddenRelations := ← withDefault? [] (asList? inner fun _ t => t.asText?) hidden
      idSort := ← withDefault? .always (IdSort.ofTree? inner) sort }
  | _ => none

/-- Reads whether a relation is polymorphic: a truth value or the name of the discriminator. -/
def Polymorphic.ofTree? : Tree → Option (Option Polymorphic)
  | .null => some none
  | .bool flag => some (if flag then some ⟨none⟩ else none)
  | t => do
    match ← t.fields? ["discriminator"] with
    | [discriminator] => return some ⟨← optional? asText? discriminator⟩
    | _ => none

/-- Reads a relation of a direct kind. -/
def DirectRelation.ofTree? (kind : DirectKind) (t : Tree) : Option DirectRelation := do
  match ← t.fields? ["target", "keyFrom", "keyTo", "polymorphic"] with
  | [target, keyFrom, keyTo, polymorphic] =>
    return {
      kind
      target := ← target >>= asText?
      keyFrom := ← optional? asText? keyFrom
      keyTo := ← optional? asText? keyTo
      polymorphic := ← withDefault? none Polymorphic.ofTree? polymorphic }
  | _ => none

/-- Reads the entity of pairs. -/
def Through.ofTree? (t : Tree) : Option Through := do
  match ← t.fields? ["entity", "keyFrom", "keyTo", "polymorphic"] with
  | [entity, keyFrom, keyTo, polymorphic] =>
    return {
      entity := ← entity >>= asText?
      keyFrom := ← optional? asText? keyFrom
      keyTo := ← optional? asText? keyTo
      polymorphic := ← withDefault? none Polymorphic.ofTree? polymorphic }
  | _ => none

/-- Reads a relation by way of an entity of pairs. -/
def ThroughRelation.ofTree? (t : Tree) : Option ThroughRelation := do
  match ← t.fields? ["target", "keyFrom", "keyTo", "through"] with
  | [target, keyFrom, keyTo, through] =>
    return {
      target := ← target >>= asText?
      keyFrom := ← optional? asText? keyFrom
      keyTo := ← optional? asText? keyTo
      through := ← through >>= Through.ofTree? }
  | _ => none

/-- Reads a relation after its kind. -/
def Relation.ofKind? (kind : String) (t : Tree) : Option Relation :=
  match kind with
  | "belongsTo" => (DirectRelation.ofTree? .belongsTo t).map .direct
  | "hasOne" => (DirectRelation.ofTree? .hasOne t).map .direct
  | "hasMany" => (DirectRelation.ofTree? .hasMany t).map .direct
  | "referencesMany" => (DirectRelation.ofTree? .referencesMany t).map .direct
  | "hasManyThrough" => (ThroughRelation.ofTree? t).map .through
  | _ => none

/-- Reads a relation: its kind is the member `type`, or the first element of a list. -/
def Relation.ofTree? (b : Budget) (t : Tree) : Option Relation :=
  if t.isMeaningful b then
    match t with
    | .list (kind :: rest) => kind.asText? >>= fun k => Relation.ofKind? k (.list rest)
    | .record ms =>
      let kinds := ms.filter fun m => m.1 == some "type"
      let rest := ms.filter fun m => m.1 != some "type"
      match kinds with
      | [(_, kind)] => kind.asText? >>= fun k => Relation.ofKind? k (.record rest)
      | _ => none
    | _ => none
  else none

/-- Reads the relations of an entity; of relations with one name the last counts. -/
def Relations.ofTree? (b : Budget) : Tree → Option Relations
  | .record ms => do
    let inner ← b.enter
    let entries ← ms.mapM fun (key, t) => do return (← key, ← Relation.ofTree? inner t)
    return Catalog.ofList entries
  | _ => none

/-- Reads an entity. -/
def Entity.ofTree? (b : Budget) (t : Tree) : Option Entity := do
  let inner ← b.enter
  match ← t.fields? ["name", "table", "schema", "properties", "relations", "settings"] with
  | [name, table, space, properties, relations, settings] =>
    return {
      name := ← name >>= asText?
      table := ← optional? asText? table
      schema := ← optional? asText? space
      properties := ← withDefault? [] (asList? inner Property.ofTree?) properties
      relations := ← withDefault? .empty (Relations.ofTree? inner) relations
      settings := ← withDefault? {} (Settings.ofTree? inner) settings }
  | _ => none

/-- Reads the entities of a schema. -/
def Registry.entitiesOfTree? (b : Budget) (t : Tree) : Option (List Entity) := do
  let inner ← b.enter
  match ← t.fields? ["entities"] with
  | [some entities] => asList? inner Entity.ofTree? entities
  | _ => none

/-- Reads a schema from a text. -/
def Registry.ofText (s : String) : Except SchemaError Registry :=
  match Json.document? s >>= entitiesOfTree? .ofText with
  | some es => ofEntities es
  | none => .error .malformed

/-! ## Writing -/

/-- The name of a property type. -/
def PropertyType.name : PropertyType → String
  | string => "string"
  | number => "number"
  | boolean => "boolean"
  | date => "date"
  | object => "object"
  | array => "array"
  | any => "any"

/-- A member with a text, if there is one. -/
def textMember (name : String) : Option String → Members
  | some s => [(name, .str s)]
  | none => []

/-- The document of a property. -/
def Property.toJson (p : Property) : Json :=
  .obj (("name", .str p.name) :: textMember "column" p.storage ++
    ("type", .str p.type.name) :: if p.isId then [("id", .bool true)] else [])

/-- The document of when rows are ordered by identifier. -/
def IdSort.toJson : IdSort → Json
  | always => .bool true
  | never => .bool false
  | numericOnly => .str "numericIdOnly"

/-- The document of settings. -/
def Settings.toJson (s : Settings) : Json :=
  .obj [("hiddenRelations", .arr (s.hiddenRelations.map .str)), ("defaultIdSort", s.idSort.toJson)]

/-- The member of a polymorphic relation. -/
def Polymorphic.members : Option Polymorphic → Members
  | some p => [("polymorphic", .obj (textMember "discriminator" p.discriminator))]
  | none => []

/-- The document of a relation. -/
def Relation.toJson (r : Relation) : Json :=
  match r with
  | .direct d =>
    .obj (("type", .str r.kindName) :: ("target", .str d.target) ::
      textMember "keyFrom" d.keyFrom ++ textMember "keyTo" d.keyTo ++
      Polymorphic.members d.polymorphic)
  | .through d =>
    let t := d.through
    .obj (("type", .str r.kindName) :: ("target", .str d.target) ::
      textMember "keyFrom" d.keyFrom ++ textMember "keyTo" d.keyTo ++
      [("through", .obj (("entity", .str t.entity) :: textMember "keyFrom" t.keyFrom ++
        textMember "keyTo" t.keyTo ++ Polymorphic.members t.polymorphic))])

/-- The document of an entity. -/
def Entity.toJson (e : Entity) : Json :=
  .obj (("name", .str e.name) :: textMember "table" e.table ++ textMember "schema" e.schema ++
    [("properties", .arr (e.properties.map Property.toJson)),
      ("relations", .obj (e.relations.items.map fun (name, r) => (name, r.toJson))),
      ("settings", e.settings.toJson)])

/-- The document of a schema. -/
def Registry.toJson (g : Registry) : Json :=
  .obj [("entities", .arr (g.entities.items.map Entity.toJson))]

end FilterSql
