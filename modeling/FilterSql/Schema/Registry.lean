import FilterSql.Schema.Entity

/-!
# Registries

A `Registry` holds the entities of a schema by name.  It also completes relations: `resolve` fills
in the keys that a declaration leaves to their defaults.
-/

namespace FilterSql

/-- The side of a pair of keys. -/
inductive KeySide where
  | keyFrom
  | keyTo
  deriving DecidableEq, Repr

/-- The name of a side. -/
def KeySide.name : KeySide → String
  | keyFrom => "keyFrom"
  | keyTo => "keyTo"

/-- What is wrong with a schema, or with what is asked of it. -/
inductive SchemaError where
  | unknownEntity (entity : String)
  | duplicateEntity (entity : String)
  | unknownRelation (entity relation : String)
  /-- The target of a relation is no entity of the schema. -/
  | unregisteredTarget (entity relation target : String)
  /-- A key is left out and has no default. -/
  | missingKey (entity relation : String) (key : KeySide)
  | notJoinable (entity relation kind : String)
  /-- The document could not be read from its file. -/
  | unreadable
  /-- The document is no schema. -/
  | malformed
  deriving DecidableEq, Repr

/-- The message of an error. -/
def SchemaError.message : SchemaError → String
  | unknownEntity e => s!"Entity \"{e}\" is not registered"
  | duplicateEntity e => s!"Entity \"{e}\" is already registered"
  | unknownRelation e r => s!"Relation \"{r}\" is not declared on \"{e}\""
  | unregisteredTarget e r t => s!"Entity \"{t}\" is not registered for relation \"{e}.{r}\""
  | missingKey e r k => s!"Relation \"{e}.{r}\" has no resolvable {k.name}"
  | notJoinable e r k => s!"Relation \"{e}.{r}\" of type {k} cannot be joined"
  | unreadable => "Failed to read schema document"
  | malformed => "Invalid schema document"

/-- The entities of a schema by name. -/
structure Registry where
  entities : Catalog Entity Entity.name
  deriving DecidableEq, Inhabited

namespace Registry

/-- The registry without entities. -/
def empty : Registry := ⟨.empty⟩

/-- Is there an entity of the name? -/
def contains (g : Registry) (name : String) : Bool := g.entities.contains name

/-- The entity of a name, if there is one. -/
def entity? (g : Registry) (name : String) : Option Entity := g.entities.find? name

/-- The entity of a name. -/
def entity (g : Registry) (name : String) : Except SchemaError Entity :=
  match g.entity? name with
  | some e => .ok e
  | none => .error (.unknownEntity name)

/-- Adds an entity under a new name. -/
def register (g : Registry) (e : Entity) : Except SchemaError Registry :=
  if g.contains e.name then .error (.duplicateEntity e.name) else .ok ⟨g.entities.put e⟩

/-- The registry of a list of entities; the first repeated name is an error. -/
def ofEntities (es : List Entity) : Except SchemaError Registry := es.foldlM register empty

/-- The names of the entities in their order. -/
def names (g : Registry) : List String := g.entities.names

end Registry

/-! ## Completed relations -/

/-- A property of the row before the join, and the value it has to have. -/
structure Discriminator where
  property : String
  value : String
  deriving DecidableEq, Repr

/-- One join: the entity that is joined, the key of the row before, the key of the joined row. -/
structure JoinKeys where
  entity : String
  keyFrom : String
  keyTo : String
  discriminator : Option Discriminator
  deriving DecidableEq, Repr

/-- The joins that a relation stands for. -/
inductive Hops where
  | direct (target : JoinKeys)
  | through (table target : JoinKeys)
  deriving DecidableEq, Repr

/-- The join that arrives at the target. -/
def Hops.last : Hops → JoinKeys
  | direct target => target
  | through _ target => target

namespace Registry

/-- The entity at which a relation arrives. -/
def targetOf (g : Registry) (owner : Entity) (relation target : String) :
    Except SchemaError Entity :=
  match g.entity? target with
  | some e => .ok e
  | none => .error (.unregisteredTarget owner.name relation target)

/-- A key as declared, or else the first property of the identifier of `e`. -/
def keyOrId (owner : Entity) (relation : String) (side : KeySide) (declared : Option String)
    (e : Entity) : Except SchemaError String :=
  match declared, e.idNames with
  | some key, _ => .ok key
  | none, id :: _ => .ok id
  | none, [] => .error (.missingKey owner.name relation side)

/-- The discriminator of a polymorphic relation that is followed to a tag. -/
def discriminatorOf (p : Option Polymorphic) (tag : Option String) (usual : String) :
    Option Discriminator :=
  match p, tag with
  | some p, some tag => some ⟨p.discriminator.getD usual, tag⟩
  | _, _ => none

/-- The join of a direct relation. -/
def resolveDirect (g : Registry) (owner : Entity) (name : String) (tag : Option String)
    (r : DirectRelation) : Except SchemaError JoinKeys := do
  if r.kind = .referencesMany then
    .error (.notJoinable owner.name name r.kind.name)
  else
    let target ← g.targetOf owner name (tag.getD r.target)
    let discriminator := discriminatorOf r.polymorphic tag s!"{name}Type"
    if r.kind = .belongsTo then
      let keyTo ← keyOrId owner name .keyTo r.keyTo target
      return ⟨target.name, r.keyFrom.getD s!"{name}Id", keyTo, discriminator⟩
    else
      let keyFrom ← keyOrId owner name .keyFrom r.keyFrom owner
      return ⟨target.name, keyFrom, r.keyTo.getD s!"{owner.camelName}Id", discriminator⟩

/-- The joins of a relation by way of an entity of pairs. -/
def resolveThrough (g : Registry) (owner : Entity) (name : String) (tag : Option String)
    (r : ThroughRelation) : Except SchemaError (JoinKeys × JoinKeys) := do
  let table ← g.targetOf owner name r.through.entity
  let declared ← g.targetOf owner name r.target
  let target ← g.targetOf owner name (tag.getD r.target)
  let keyFrom ← keyOrId owner name .keyFrom r.keyFrom owner
  let keyTo ← keyOrId owner name .keyTo r.keyTo target
  return (
    ⟨table.name, keyFrom, r.through.keyFrom.getD s!"{owner.camelName}Id", none⟩,
    ⟨target.name, r.through.keyTo.getD s!"{declared.camelName}Id", keyTo,
      discriminatorOf r.through.polymorphic tag s!"{declared.camelName}Type"⟩)

/-- The joins of a relation of `owner`, followed to `tag` instead of its declared target if there is
one. -/
def resolve (g : Registry) (owner : Entity) (name : String) (tag : Option String) :
    Except SchemaError Hops :=
  match owner.relation? name with
  | none => .error (.unknownRelation owner.name name)
  | some (.direct r) => (g.resolveDirect owner name tag r).map .direct
  | some (.through r) => (g.resolveThrough owner name tag r).map fun (a, b) => .through a b

end Registry

end FilterSql
