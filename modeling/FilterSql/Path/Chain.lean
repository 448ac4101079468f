import FilterSql.Path.Key

/-!
# Chains of relations

The front of a key may name relations, one after the other from the entity at which the key starts.
`Chain.ofKey` walks them and says what the key stands for: a property of the first entity, the end
of a chain of relations, or a property of the entity at that end.
-/

namespace FilterSql

/-- What a key stands for. -/
inductive Chain where
  /-- A property of the entity at which the key starts. -/
  | plain
  /-- The end of a chain of relations. -/
  | relations (chain : List Segment)
  /-- A property of the entity at the end of a chain, and the whole key after the chain. -/
  | property (chain : List Segment) (property : String) (key : String)
  deriving DecidableEq, Repr

/-- A walk along relations: the segments walked, those left, and the entity reached. -/
structure Walk where
  chain : List Segment
  rest : List Segment
  last : Entity
  /-- Is the entity reached chosen by row? -/
  polymorphic : Bool

/-- Walks along relations as long as segments name any.  `previous` is the segment walked before,
whose tag would have to be the last of the chain. -/
def walk (g : Registry) (key : String) (current : Entity) (polymorphic : Bool)
    (previous : Option Segment) : List Segment → Except CompileError Walk
  | [] => .ok ⟨[], [], current, polymorphic⟩
  | s :: rest =>
    match current.relation? s.name with
    | none => .ok ⟨[], s :: rest, current, polymorphic⟩
    | some r =>
      match previous with
      | some ⟨name, some _⟩ =>
        .error (.invalidPolymorphicUsage key
          s!"tag on '{name}' must be on the last relation of the chain")
      | _ =>
        if s.tag.isSome && !r.isPolymorphic then
          .error (.invalidPolymorphicUsage key s!"relation '{s.name}' is not polymorphic")
        else do
          let next ← CompileError.ofSchema (g.targetOf current s.name (s.tag.getD r.target))
          let w ← walk g key next r.isPolymorphic (some s) rest
          return { w with chain := s :: w.chain }

/-- What a walk from `root` along all of a key stands for.  The target of a polymorphic relation may
be a general entity without the property. -/
def Walk.chain? (root : Entity) (key : String) (w : Walk) : Except CompileError Chain :=
  match w.rest.find? fun s => s.tag.isSome with
  | some s =>
    .error (.invalidPolymorphicUsage key s!"'{s.name}' is a property and cannot carry a tag")
  | none =>
    match w.rest, w.chain with
    | [], chain => .ok (.relations chain)
    | first :: _, [] =>
      if root.hasProperty first.name then .ok .plain else .error (.unknownPath root.name key)
    | first :: rest, chain =>
      if !w.polymorphic && !w.last.hasProperty first.name then
        .error (.propertyNotOnTarget first.name w.last.name (Segment.joinNames chain))
      else .ok (.property chain first.name (Segment.joinNames (first :: rest)))

/-- What a key that starts at `root` stands for. -/
def Chain.ofKey (g : Registry) (root : Entity) (key : String) : Except CompileError Chain := do
  let segments ← Segment.ofKey key
  let w ← walk g key root false none segments
  w.chain? root key

end FilterSql
