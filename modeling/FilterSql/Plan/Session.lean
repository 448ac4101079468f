import FilterSql.Schema.Registry

/-!
# Plans of joins

A `Session` holds what the keys of one filter need: the joins in the order in which they were
planned, each found by its path, and for every key that crosses relations the table at which it
arrives.
-/

namespace FilterSql

/-- A planned join of a table to the table of its parent. -/
structure Join where
  /-- The entity at the start and the relations from there, with points between them. -/
  path : String
  /-- What the label begins with. -/
  stem : String
  parentStem : String
  parentLabel : String
  parentEntity : String
  relation : String
  /-- A property of the parent. -/
  keyFrom : String
  /-- A property of the joined entity. -/
  keyTo : String
  target : String
  label : String
  discriminator : Option Discriminator
  deriving DecidableEq, Repr

/-- Where a key arrives: the label and the entity of a joined table, and the rest of the key if it
goes on to a property. -/
structure Endpoint where
  stem : String
  label : String
  entity : String
  property : Option String
  deriving DecidableEq, Repr

/-- What a key is used for. -/
inductive Scope where
  | condition
  | order
  deriving DecidableEq, Repr

/-- Endpoints by key. -/
abbrev Endpoints := Catalog (String × Endpoint) Prod.fst

/-- The joins and endpoints planned so far, and the number of the next chain of joins. -/
structure Session where
  next : Nat := 0
  joins : List Join := []
  conditions : Endpoints := .empty
  orders : Endpoints := .empty
  deriving DecidableEq

namespace Session

/-- Is any join planned? -/
def hasJoins (s : Session) : Bool := !s.joins.isEmpty

/-- Does any condition cross relations? -/
def hasConditions (s : Session) : Bool := !s.conditions.items.isEmpty

/-- Does any order cross relations? -/
def hasOrders (s : Session) : Bool := !s.orders.items.isEmpty

/-- The first join of a path. -/
def join? (s : Session) (path : String) : Option Join := s.joins.find? fun j => j.path == path

/-- Draws a number. -/
def draw (s : Session) : Nat × Session := (s.next, { s with next := s.next + 1 })

/-- Plans joins after those there are. -/
def addJoins (s : Session) (joins : List Join) : Session := { s with joins := s.joins ++ joins }

/-- The endpoints of a scope. -/
def endpoints (s : Session) : Scope → Endpoints
  | .condition => s.conditions
  | .order => s.orders

/-- Where a key arrives. -/
def endpoint? (s : Session) (scope : Scope) (key : String) : Option Endpoint :=
  ((s.endpoints scope).find? key).map Prod.snd

/-- Says where a key arrives. -/
def setEndpoint (s : Session) (scope : Scope) (key : String) (e : Endpoint) : Session :=
  match scope with
  | .condition => { s with conditions := s.conditions.put (key, e) }
  | .order => { s with orders := s.orders.put (key, e) }

end Session

end FilterSql
