import FilterSql.Order
import FilterSql.Path.Chain
import FilterSql.Plan.Keys
import FilterSql.Plan.Session
import FilterSql.Sql.Storage

/-!
# Planning joins

`Session.planning` plans the joins along the relations of one key, which share the joins that are
there already, and says where the key arrives.  A key that crosses a hidden relation, or one that
cannot be joined, plans nothing.  `Session.plan` does so for all keys of a tree of conditions and of
an order.
-/

namespace FilterSql

/-- The table from which the next join of a chain starts. -/
structure Anchor where
  path : String
  stem : String
  label : String
  entity : String

/-- The table of the entity at which keys start. -/
def Anchor.ofRoot (root : Entity) : Anchor := ⟨root.name, "", root.tableName, root.name⟩

/-- The table that a join adds. -/
def Anchor.ofJoin (j : Join) : Anchor := ⟨j.path, j.stem, j.label, j.target⟩

/-- The key that begins an entry of an order. -/
def orderKey (entry : String) : String := (orderWords entry).headD entry

/-- May the key cross relations? -/
def Entity.isRelationKey (root : Entity) (key : String) : Bool :=
  key.toList.any (fun c => c == '.' || c == '(') || (root.relation? key).isSome

namespace Registry

/-- The joins along a chain of relations; none if one of them is hidden or cannot be joined. -/
def hops? (g : Registry) : Entity → List Segment → Except CompileError (Option (List Hops))
  | _, [] => .ok (some [])
  | owner, s :: rest =>
    if owner.isHidden s.name || !((owner.relation? s.name).any Relation.isJoinable) then .ok none
    else do
      let hops ← CompileError.ofSchema (g.resolve owner s.name s.tag)
      let next ← CompileError.ofSchema (g.entity hops.last.entity)
      let more ← hops? g next rest
      return more.map (hops :: ·)

/-- The join of a table to an anchor. -/
def joinAt (g : Registry) (anchor : Anchor) (path stem relation : String) (keys : JoinKeys) :
    Except CompileError Join := do
  let target ← CompileError.ofSchema (g.entity keys.entity)
  return {
    path, stem, relation
    parentStem := anchor.stem
    parentLabel := anchor.label
    parentEntity := anchor.entity
    keyFrom := keys.keyFrom
    keyTo := keys.keyTo
    target := keys.entity
    label := stem ++ target.tableName
    discriminator := keys.discriminator }

/-- The joins of one relation to an anchor: the last of them, and the table in between before it. -/
def joinsAt (g : Registry) (anchor : Anchor) (path stem : String) (segment : Segment) :
    Hops → Except CompileError (List Join × Join)
  | .direct keys => do
    return ([], ← g.joinAt anchor path stem segment.name keys)
  | .through table target => do
    let middle ← g.joinAt anchor s!"{anchor.path}.-.{segment.text}" stem s!"_{segment.name}_" table
    return ([middle], ← g.joinAt (.ofJoin middle) path stem segment.name target)

end Registry

/-- A step of planning.  It may fail, and what it did to the session until then stays. -/
abbrev Planning := EStateM CompileError Session

/-- What does not look at the session can be a part of planning. -/
instance : MonadLift (Except CompileError) Planning where
  monadLift
    | .ok a => pure a
    | .error e => throw e

namespace Session

/-- Plans the joins of one relation under the next number. -/
def addHop (g : Registry) (depth : Nat) (path : String) (segment : Segment) (hops : Hops)
    (anchor : Anchor) : Planning Unit := do
  let number ← modifyGet draw
  let stem := s!"t_{Text.natural number}_{Text.natural depth}_"
  let (middle, last) ← g.joinsAt anchor path stem segment hops
  modify (·.addJoins (middle ++ [last]))

/-- The table of the join of a path, which has to be planned. -/
def anchorAt (root : Entity) (key path : String) : Planning Anchor := do
  match (← get).join? path with
  | some j => return .ofJoin j
  | none => throw (.unknownPath root.name key)

/-- Plans one relation of the chain of `key`, `depth` relations from its start, unless its path is
planned already. -/
def planHop (g : Registry) (root : Entity) (key : String) (depth : Nat) (segment : Segment)
    (hops : Hops) (anchor : Anchor) : Planning Anchor := do
  let path := s!"{anchor.path}.{segment.text}"
  if ((← get).join? path).isNone then addHop g depth path segment hops anchor
  anchorAt root key path

/-- Plans the relations of a chain one after the other. -/
def planHops (g : Registry) (root : Entity) (key : String) (depth : Nat) (anchor : Anchor) :
    List (Segment × Hops) → Planning Anchor
  | [] => return anchor
  | (segment, hops) :: rest => do
    let next ← planHop g root key depth segment hops anchor
    planHops g root key (depth + 1) next rest

/-- Plans the joins of a chain of relations and says where `key` arrives. -/
def planChain (g : Registry) (root : Entity) (scope : Scope) (key : String) (chain : List Segment)
    (property : Option String) : Planning Unit := do
  match ← g.hops? root chain with
  | none => return ()
  | some hops =>
    let anchor ← planHops g root key 0 (.ofRoot root) (chain.zip hops)
    modify (·.setEndpoint scope key ⟨anchor.stem, anchor.label, anchor.entity, property⟩)

/-- The planning of a key. -/
def planning (g : Registry) (root : Entity) (scope : Scope) (key : String) : Planning Unit := do
  match ← Chain.ofKey g root key with
  | .plain => return ()
  | .relations chain => planChain g root scope key chain none
  | .property chain _ rest => planChain g root scope key chain (some rest)

/-- The session in which a key is planned, unless its planning fails. -/
def planKey (g : Registry) (root : Entity) (scope : Scope) (s : Session) (key : String) :
    Except CompileError Session :=
  match planning g root scope key s with
  | .ok () s => .ok s
  | .error e _ => .error e

/-- Plans keys in turn, up to the first that fails; what was planned before it stays. -/
def planKeys (g : Registry) (root : Entity) (scope : Scope) (s : Session) :
    List String → Session × Except CompileError Unit
  | [] => (s, .ok ())
  | key :: keys =>
    match planning g root scope key s with
    | .ok () s => planKeys g root scope s keys
    | .error e s => (s, .error e)

/-- The keys of a tree of conditions that are to be planned. -/
def conditionKeys (root : Entity) (clause : Members) : Except CompileError (List String) :=
  (FilterKey.ofClause clause).map fun keys =>
    (keys.filter fun k => k.forced || root.isRelationKey k.key).map (·.key)

/-- The keys of an order that are to be planned. -/
def orderKeys (root : Entity) (order : List String) : List String :=
  (order.map orderKey).filter root.isRelationKey

/-- Plans the joins of a tree of conditions and of an order, and keeps what was planned if it fails.
-/
def plan (g : Registry) (root : Entity) (clause : Option Members) (order : List String)
    (s : Session) : Session × Except CompileError Unit :=
  match conditionKeys root (clause.getD []) with
  | .error e => (s, .error e)
  | .ok keys =>
    match planKeys g root .condition s keys with
    | (s, .error e) => (s, .error e)
    | (s, .ok ()) => planKeys g root .order s (orderKeys root order)

end Session

namespace Registry

open Sql

/-- The clause of a planned join. -/
def joinClause (g : Registry) (j : Join) : Except CompileError JoinClause := do
  let parent ← CompileError.ofSchema (g.entity j.parentEntity)
  let target ← CompileError.ofSchema (g.entity j.target)
  let keys := Expr.compare (parent.columnExpr (some j.parentLabel) j.keyFrom) .eq
    (target.columnExpr (some j.label) j.keyTo)
  let discriminator := j.discriminator.toList.map fun d =>
    Expr.compare (parent.columnExpr (some j.parentLabel) d.property) .eq (.value (.string d.value))
  return ⟨.left, target.storage, some j.label, .and (keys :: discriminator)⟩

/-- The clauses of planned joins in the order of the plan. -/
def joinClauses (g : Registry) (s : Session) : Except CompileError (List JoinClause) :=
  s.joins.mapM g.joinClause

end Registry

end FilterSql
