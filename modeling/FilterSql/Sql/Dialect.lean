import FilterSql.Text.LowerCase
import FilterSql.Text.Numeral
import FilterSql.Value.Basic

/-!
# Dialects of SQL

The three dialects differ in how names are quoted, how placeholders are written, how a text is taken
out of a document, and whether `ilike` is known.  Text of a statement is made of pieces (`Piece`):
fixed text, names, literals and bound values.  Only `assemble` turns pieces into text; it numbers
the placeholders, so that the `i`-th of them stands for the `i`-th bound value.
-/

namespace FilterSql

/-- A dialect of SQL. -/
inductive Dialect where
  | postgres
  | mysql
  | sqlite
  deriving DecidableEq, Repr, Inhabited

/-- A name that stands for no dialect. -/
structure UnknownDialect where
  name : String
  deriving DecidableEq, Repr

/-- The message of an unknown dialect. -/
def UnknownDialect.message (e : UnknownDialect) : String := s!"Unknown dialect: {e.name}"

namespace Dialect

/-- The dialect of a name, in any case. -/
def ofName (s : String) : Except UnknownDialect Dialect :=
  match Text.lower s with
  | "pg" | "postgres" | "postgresql" => .ok postgres
  | "mysql" | "mariadb" => .ok mysql
  | "sqlite" | "sqlite3" => .ok sqlite
  | other => .error ⟨other⟩

/-- The name of a dialect. -/
def name : Dialect → String
  | postgres => "PostgreSQL"
  | mysql => "MySQL"
  | sqlite => "SQLite"

/-- Is `ilike` known?  Elsewhere `like` stands for it. -/
def hasIlike : Dialect → Bool
  | postgres => true
  | _ => false

/-- The quote around names. -/
def nameQuote : Dialect → Char
  | mysql => Char.ofNat 0x60
  | _ => '"'

end Dialect

namespace Sql

/-- Characters in quotes, with each quote among them doubled. -/
def quoted (quote : Char) (cs : List Char) : List Char :=
  quote :: (cs.flatMap (fun c => if c = quote then [c, c] else [c]) ++ [quote])

/-- A part of the text of a statement. -/
inductive Piece where
  | fixed (text : String)
  | name (name : String)
  | literal (text : String)
  | bound (v : Value)
  deriving Repr

/-- The characters of a placeholder. -/
def placeholder (d : Dialect) (index : Nat) : List Char :=
  match d with
  | .postgres => '$' :: Text.naturalChars (index + 1)
  | _ => ['?']

/-- The characters of pieces, with the placeholders counted from `index`. -/
def assemble (d : Dialect) : (index : Nat) → List Piece → List Char
  | _, [] => []
  | i, .fixed s :: rest => s.toList ++ assemble d i rest
  | i, .name s :: rest => quoted d.nameQuote s.toList ++ assemble d i rest
  | i, .literal s :: rest => quoted '\'' s.toList ++ assemble d i rest
  | i, .bound _ :: rest => placeholder d i ++ assemble d (i + 1) rest

/-- The bound values of pieces in their order. -/
def bindings (ps : List Piece) : List Value :=
  ps.filterMap fun
    | .bound v => some v
    | _ => none

/-! ## Texts in documents -/

/-- May the member stand without quotes in a path? -/
def isPlainMember (key : List Char) : Bool :=
  match key with
  | [] => false
  | c :: rest => (c.isAlpha || c == '_') && rest.all fun c => c.isAlphanum || c == '_'

/-- A character of a quoted member. -/
def memberChar (c : Char) : List Char := if c = '\\' ∨ c = '"' then ['\\', c] else [c]

/-- A member as it stands in a path. -/
def memberChars (key : List Char) : List Char :=
  if isPlainMember key then key else '"' :: (key.flatMap memberChar ++ ['"'])

/-- The path `$.a.b` of members. -/
def dollarPath (keys : List String) : String :=
  String.ofList ('$' :: keys.flatMap fun key => '.' :: memberChars key.toList)

/-- The operators that go down the members, the last of which gives a text. -/
def arrows : List String → List Piece
  | [] => []
  | [key] => [.fixed "->>", .literal key]
  | key :: keys => .fixed "->" :: .literal key :: arrows keys

/-- The text at a path of members of a document in a column. -/
def extraction (d : Dialect) (column : List Piece) (keys : List String) : List Piece :=
  match d with
  | .postgres => column ++ arrows keys
  | .mysql =>
    .fixed "JSON_UNQUOTE(JSON_EXTRACT(" :: column ++
      [.fixed ", ", .literal (dollarPath keys), .fixed "))"]
  | .sqlite =>
    .fixed "json_extract(" :: column ++ [.fixed ", ", .literal (dollarPath keys), .fixed ")"]

end Sql

end FilterSql
