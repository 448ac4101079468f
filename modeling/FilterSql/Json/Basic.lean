import FilterSql.Double.Basic

/-!
# JSON values

JSON values whose objects keep the order of their members.  An object holds each name once: a
repeated member keeps the place of the first and the value of the last (`put`).  Integers and
doubles are different numbers, and equality of documents (`Json.same`) does not look at the order
of members.
-/

namespace FilterSql

/-- A JSON number: an integer literal of 64 bits, or a double. -/
inductive Number where
  | int (n : Int)
  | float (x : Double)
  deriving DecidableEq, Repr

/-- Equality of numbers: integers differ from doubles, doubles compare by value. -/
def Number.same : Number → Number → Bool
  | .int m, .int n => m == n
  | .float x, .float y => x.numEq y
  | _, _ => false

/-- A JSON value. -/
inductive Json where
  | null
  | bool (b : Bool)
  | num (n : Number)
  | str (s : String)
  | arr (xs : List Json)
  | obj (ms : List (String × Json))
  deriving Inhabited, Repr

/-- The members of an object. -/
abbrev Members := List (String × Json)

/-- Sets the value of a name in place, or adds the entry at the end. -/
def put {α : Type} (name : String) (value : α) : List (String × α) → List (String × α)
  | [] => [(name, value)]
  | (k, v) :: rest => if k = name then (k, value) :: rest else (k, v) :: put name value rest

/-- Entries with each name once: its first place and its last value. -/
def putAll {α : Type} (entries : List (String × α)) : List (String × α) :=
  entries.foldl (fun acc (k, v) => put k v acc) []

namespace Json

/-- An integer. -/
def int (n : Int) : Json := .num (.int n)

/-- A double; what is no finite number has no JSON form and becomes null. -/
def float (x : Double) : Json := if x.isFinite then .num (.float x) else .null

/-- A text or null. -/
def optional : Option String → Json
  | some s => .str s
  | none => .null

/-- The text of a string. -/
def str? : Json → Option String
  | .str s => some s
  | _ => none

/-- The members of an object. -/
def obj? : Json → Option Members
  | .obj ms => some ms
  | _ => none

/-- The elements of an array. -/
def arr? : Json → Option (List Json)
  | .arr xs => some xs
  | _ => none

/-- The member of an object with a name. -/
def member? (name : String) : Json → Option Json
  | .obj ms => ms.lookup name
  | _ => none

mutual

/-- Equality of documents, whatever the order of members. -/
def same : Json → Json → Bool
  | .null, .null => true
  | .bool a, .bool b => a == b
  | .num m, .num n => m.same n
  | .str s, .str t => s == t
  | .arr xs, .arr ys => sameElements xs ys
  | .obj ms, .obj ns => ms.length == ns.length && sameMembers ms ns
  | _, _ => false

/-- Elementwise equality. -/
def sameElements : List Json → List Json → Bool
  | [], [] => true
  | x :: xs, y :: ys => same x y && sameElements xs ys
  | _, _ => false

/-- Does the second object have every member of the first? -/
def sameMembers : Members → Members → Bool
  | [], _ => true
  | (k, v) :: rest, ns =>
    (match ns.lookup k with
      | some w => same v w
      | none => false) && sameMembers rest ns

end

end Json

end FilterSql
