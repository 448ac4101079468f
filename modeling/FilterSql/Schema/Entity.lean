import FilterSql.Catalog
import FilterSql.Schema.Relation
import FilterSql.Text.LowerCase

/-!
# Entities

An `Entity` has a name, a table, properties in the order of their declaration, and relations by
name.  Property names stand for columns, which may be called otherwise.
-/

namespace FilterSql

/-- The type of a property. -/
inductive PropertyType where
  | string
  | number
  | boolean
  | date
  | object
  | array
  | any
  deriving DecidableEq, Repr

/-- A property and its column. -/
structure Property where
  name : String
  /-- The name of the column, if it is not that of the property. -/
  storage : Option String := none
  type : PropertyType := .any
  /-- Is it a part of the identifier? -/
  isId : Bool := false
  deriving DecidableEq, Repr

/-- The name of the column. -/
def Property.column (p : Property) : String := p.storage.getD p.name

/-- Are rows ordered by their identifiers when no order is asked for? -/
inductive IdSort where
  | always
  | never
  /-- Only if all parts of the identifier are numbers. -/
  | numericOnly
  deriving DecidableEq, Repr

/-- Settings of an entity. -/
structure Settings where
  /-- Relations that are never joined. -/
  hiddenRelations : List String := []
  idSort : IdSort := .always
  deriving DecidableEq, Repr

/-- Relations by name. -/
abbrev Relations := Catalog (String × Relation) Prod.fst

/-- An entity of a schema. -/
structure Entity where
  name : String
  /-- The name of the table, if it is not the name in lower case. -/
  table : Option String := none
  /-- The namespace of the table in the database. -/
  schema : Option String := none
  properties : List Property := []
  relations : Relations := .empty
  settings : Settings := {}
  deriving DecidableEq

namespace Entity

/-- The name of the table. -/
def tableName (e : Entity) : String := e.table.getD (Text.lower e.name)

/-- The name with a small first letter, from which the names of keys are made. -/
def camelName (e : Entity) : String := Text.lowerFirst e.name

/-- The first property of a name. -/
def property? (e : Entity) (name : String) : Option Property :=
  e.properties.find? fun p => p.name == name

/-- Is the property declared? -/
def hasProperty (e : Entity) (name : String) : Bool := (e.property? name).isSome

/-- The column of a property; a name that is not declared is its own column. -/
def column (e : Entity) (name : String) : String :=
  match e.property? name with
  | some p => p.column
  | none => name

/-- The properties of the identifier. -/
def ids (e : Entity) : List Property := e.properties.filter (·.isId)

/-- The names of the properties of the identifier. -/
def idNames (e : Entity) : List String := e.ids.map (·.name)

/-- Are all properties of the identifier numbers? -/
def hasOnlyNumericIds (e : Entity) : Bool := e.ids.all fun p => p.type == .number

/-- The relation of a name. -/
def relation? (e : Entity) (name : String) : Option Relation :=
  (e.relations.find? name).map Prod.snd

/-- Is the relation never joined? -/
def isHidden (e : Entity) (name : String) : Bool := e.settings.hiddenRelations.contains name

/-- Declares a property after those there are. -/
def addProperty (e : Entity) (p : Property) : Entity :=
  { e with properties := e.properties ++ [p] }

/-- Declares a relation, over any other of its name. -/
def putRelation (e : Entity) (name : String) (r : Relation) : Entity :=
  { e with relations := e.relations.put (name, r) }

/-- Hides a relation. -/
def hideRelation (e : Entity) (name : String) : Entity :=
  { e with settings := { e.settings with
      hiddenRelations := e.settings.hiddenRelations ++ [name] } }

end Entity

end FilterSql
