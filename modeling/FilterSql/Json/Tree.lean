import FilterSql.Json.Basic

/-!
# Document trees

A `Tree` is a JSON text after its syntax is known and before its parts are taken for values.
Members may repeat, and a literal that follows the grammar without standing for anything (a number
beyond the doubles, a string with half a surrogate pair) is kept as an absent value.  A reader of a
record (`fields?`) looks only at the members that it knows, so what it skips need not mean anything.

A `Budget` bounds how many containers may be open around what is read; a tree made of a JSON value
is read without a bound.
-/

namespace FilterSql

/-- A JSON text by its structure. -/
inductive Tree where
  | null
  | bool (b : Bool)
  | number (n : Option Number)
  | text (s : Option String)
  | list (xs : List Tree)
  | record (ms : List (Option String × Tree))
  deriving Inhabited

/-- How many more containers may be opened; without a bound if absent. -/
abbrev Budget := Option Nat

/-- Opens one container. -/
def Budget.enter : Budget → Option Budget
  | none => some none
  | some 0 => none
  | some (n + 1) => some (some n)

/-- Texts may nest 127 containers. -/
def Budget.ofText : Budget := some 127

namespace Tree

mutual

/-- The value of a tree, if all of it means something and it fits the budget. -/
def json? (b : Budget) : Tree → Option Json
  | .null => some .null
  | .bool x => some (.bool x)
  | .number n => n.map .num
  | .text s => s.map .str
  | .list xs => do
    let inner ← b.enter
    return .arr (← elements? inner xs)
  | .record ms => do
    let inner ← b.enter
    return .obj (putAll (← members? inner ms))

/-- The values of elements. -/
def elements? (b : Budget) : List Tree → Option (List Json)
  | [] => some []
  | t :: ts => do
    let v ← json? b t
    let vs ← elements? b ts
    return v :: vs

/-- The values of members, repeated ones included. -/
def members? (b : Budget) : List (Option String × Tree) → Option Members
  | [] => some []
  | (key, t) :: ms => do
    let k ← key
    let v ← json? b t
    let vs ← members? b ms
    return (k, v) :: vs

end

mutual

/-- The tree of a value. -/
def ofJson : Json → Tree
  | .null => .null
  | .bool b => .bool b
  | .num n => .number (some n)
  | .str s => .text (some s)
  | .arr xs => .list (ofElements xs)
  | .obj ms => .record (ofMembers ms)

/-- The trees of elements. -/
def ofElements : List Json → List Tree
  | [] => []
  | x :: xs => ofJson x :: ofElements xs

/-- The trees of members. -/
def ofMembers : Members → List (Option String × Tree)
  | [] => []
  | (k, v) :: ms => (some k, ofJson v) :: ofMembers ms

end

/-- Does every part of the tree mean something, within the budget? -/
def isMeaningful (b : Budget) (t : Tree) : Bool := (t.json? b).isSome

/-- The subtrees of the member called `name`; none if the member is repeated. -/
def field? (name : String) (ms : List (String × Tree)) : Option (Option Tree) :=
  match ms.filter fun m => m.1 == name with
  | [] => some none
  | [m] => some (some m.2)
  | _ => none

/-- The members of a record, if all its names mean something. -/
def namedMembers? (ms : List (Option String × Tree)) : Option (List (String × Tree)) :=
  ms.mapM fun (key, t) => key.map fun k => (k, t)

/-- The fields of a record in the order of `names`, each absent or present once; unknown members are
skipped.  A list stands for a record by position, with the last fields left out at will. -/
def fields? (names : List String) : Tree → Option (List (Option Tree))
  | .record ms => do
    let named ← namedMembers? ms
    names.mapM fun name => field? name named
  | .list xs =>
    if xs.length ≤ names.length then
      some (xs.map some ++ List.replicate (names.length - xs.length) none)
    else none
  | _ => none

/-- Reads a text. -/
def asText? : Tree → Option String
  | .text s => s
  | _ => none

/-- Reads a truth value. -/
def asBool? : Tree → Option Bool
  | .bool b => some b
  | _ => none

/-- Reads a list, each element by `read`, which gets the budget inside the list. -/
def asList? {α : Type} (b : Budget) (read : Budget → Tree → Option α) : Tree → Option (List α)
  | .list xs => do
    let inner ← b.enter
    xs.mapM (read inner)
  | _ => none

/-- Reads an optional field: absent or null is nothing. -/
def optional? {α : Type} (read : Tree → Option α) : Option Tree → Option (Option α)
  | none => some none
  | some .null => some none
  | some t => (read t).map some

/-- Reads a field that has a default when it is absent. -/
def withDefault? {α : Type} (default : α) (read : Tree → Option α) : Option Tree → Option α
  | none => some default
  | some t => read t

/-- Reads the name of a choice without contents: a text, or a record of that name with null. -/
def choice? (b : Budget) : Tree → Option String
  | .text s => s
  | .record [(some name, .null)] => b.enter.map fun _ => name
  | _ => none

end Tree

end FilterSql
