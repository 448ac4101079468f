import FilterSql.Where.Clause

/-!
# Keys of a tree of conditions

`FilterKey.ofClause` lists the keys that a tree refers to, each once and in the order of first
mention: the names of members, the operands of comparisons, and the paths of join directives, which
are marked.
-/

namespace FilterSql

/-- A key that a tree of conditions refers to. -/
structure FilterKey where
  key : String
  /-- Is it the path of a join directive? -/
  forced : Bool
  deriving DecidableEq, Repr

namespace FilterKey

/-- Adds a key after those there are; one that is there already may become forced. -/
def add (keys : List FilterKey) (k : FilterKey) : List FilterKey :=
  match keys with
  | [] => [k]
  | first :: rest =>
    if first.key = k.key then ⟨first.key, first.forced || k.forced⟩ :: rest
    else first :: add rest k

/-- The keys among two operands. -/
def ofOperands (left right : Json) : List FilterKey :=
  ([left, right].filterMap projection?).map fun key => ⟨key, false⟩

/-- The mentions in a member other than a group. -/
def ofMember (name : String) (value : Json) : Except CompileError (List FilterKey) :=
  if name = exprDirective then
    (exprOperands value).map fun (_, left, right) => ofOperands left right
  else if name = joinDirective then
    (joinPaths value).map fun paths => paths.map fun path => ⟨path, true⟩
  else .ok [⟨name, false⟩]

mutual

/-- The mentions in members in their order. -/
def mentions : Members → Except CompileError (List FilterKey)
  | [] => .ok []
  | (name, value) :: rest => do
    let here ← if isGroup name then groupMentions value else ofMember name value
    let more ← mentions rest
    return here ++ more

/-- The mentions in the value of a group. -/
def groupMentions : Json → Except CompileError (List FilterKey)
  | .obj ms => mentions ms
  | .arr xs => armMentions xs
  | _ => .ok []

/-- The mentions in the elements of a group. -/
def armMentions : List Json → Except CompileError (List FilterKey)
  | [] => .ok []
  | x :: xs => do
    let here ← elementMentions x
    let more ← armMentions xs
    return here ++ more

/-- The mentions in an element of a group, which has to be an object to count. -/
def elementMentions : Json → Except CompileError (List FilterKey)
  | .obj ms => mentions ms
  | _ => .ok []

end

/-- The keys of a tree of conditions. -/
def ofClause (clause : Members) : Except CompileError (List FilterKey) :=
  (mentions clause).map fun ks => ks.foldl add []

end FilterKey

end FilterSql
