/-!
# Relations between entities

A relation leads from its owner to a target entity, either by a pair of keys or by way of a table of
pairs.  The keys may be left to their defaults.  A polymorphic relation chooses the target by row,
by the value of a discriminator property.
-/

namespace FilterSql

/-- The kinds of relation that need no table in between. -/
inductive DirectKind where
  | belongsTo
  | hasOne
  | hasMany
  /-- A list of keys in one column, which cannot be joined. -/
  | referencesMany
  deriving DecidableEq, Repr

/-- The name of a kind. -/
def DirectKind.name : DirectKind → String
  | belongsTo => "belongsTo"
  | hasOne => "hasOne"
  | hasMany => "hasMany"
  | referencesMany => "referencesMany"

/-- Marks a relation whose target is chosen by row. -/
structure Polymorphic where
  /-- The property that names the target, if it is not the usual one. -/
  discriminator : Option String
  deriving DecidableEq, Repr

/-- A relation by a key of the owner and a key of the target. -/
structure DirectRelation where
  kind : DirectKind
  target : String
  keyFrom : Option String
  keyTo : Option String
  polymorphic : Option Polymorphic
  deriving DecidableEq, Repr

/-- The entity of pairs, with its keys to the owner and to the target. -/
structure Through where
  entity : String
  keyFrom : Option String
  keyTo : Option String
  polymorphic : Option Polymorphic
  deriving DecidableEq, Repr

/-- A relation by way of an entity of pairs. -/
structure ThroughRelation where
  target : String
  keyFrom : Option String
  keyTo : Option String
  through : Through
  deriving DecidableEq, Repr

/-- A relation as it is declared. -/
inductive Relation where
  | direct (r : DirectRelation)
  | through (r : ThroughRelation)
  deriving DecidableEq, Repr

namespace Relation

/-- The name of the kind of a relation. -/
def kindName : Relation → String
  | direct r => r.kind.name
  | through _ => "hasManyThrough"

/-- The declared target. -/
def target : Relation → String
  | direct r => r.target
  | through r => r.target

/-- Can the relation be joined? -/
def isJoinable : Relation → Bool
  | direct r => r.kind != .referencesMany
  | through _ => true

/-- What is declared of a target that is chosen by row. -/
def polymorphic? : Relation → Option Polymorphic
  | direct r => r.polymorphic
  | through r => r.through.polymorphic

/-- Is the target chosen by row? -/
def isPolymorphic (r : Relation) : Bool := r.polymorphic?.isSome

end Relation

end FilterSql
