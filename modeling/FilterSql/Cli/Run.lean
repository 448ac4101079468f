import FilterSql.Cli.Args
import FilterSql.EntityQuery
import FilterSql.Filter.Document
import FilterSql.Postgres.ConnectionString
import FilterSql.Postgres.Executor
import FilterSql.Schema.Document
import FilterSql.Value.Basic

/-!
# Running commands

A command reads files, may connect to a database, and gives the text of its output or fails.  Files
and connections come from a `Host`, so that a run is a function of what the host answers.
-/

namespace FilterSql.Cli

/-- What a command needs from outside. -/
structure Host (m : Type → Type) where
  /-- The connection string of the environment. -/
  connection : Option String
  /-- The text of a file, if it can be read. -/
  fileText : String → m (Option String)
  /-- A connection, if there can be one. -/
  connect : Postgres.ConnectionString → m (Option (Postgres.Connection m))

/-- Why a command fails. -/
inductive Failure where
  | unreadableFilter
  | malformedFilter
  | schema (e : SchemaError)
  | compile (e : CompileError)
  | query (e : QueryError)
  | malformedConnection
  | noConnection
  deriving DecidableEq, Repr

/-- The message of a failure. -/
def Failure.message : Failure → String
  | unreadableFilter => "Failed to read the filter file"
  | malformedFilter => "Invalid filter JSON"
  | schema e => s!"Failed to load the schema: {e.message}"
  | compile e => s!"Failed to compile the filter: {e.message}"
  | query e => s!"Query failed: {e.message}"
  | malformedConnection => "Connection failed: Invalid connection string"
  | noConnection => "Connection failed: Postgres connection failed"

/-- What a run shows, and how it ends: with 0 for success, 1 for a failure and 2 for a wrong command
line. -/
structure Report where
  code : Nat
  output : String
  failure : Option Failure
  deriving DecidableEq, Repr

/-! ## Output -/

/-- A document on lines of its own. -/
def documentText (j : Json) : String := j.pretty ++ "\n"

/-- The document of a statement. -/
def statementJson (s : Sql.Statement) : Json :=
  .obj [("sql", .str s.text), ("bindings", .arr (s.bindings.map Value.toJson))]

/-- The document of rows. -/
def rowsJson (rows : List Row) : Json := .arr (rows.map Row.toJson)

/-! ## Steps -/

/-- Something that has to be there. -/
def present {α : Type} (failure : Failure) : Option α → Except Failure α
  | some a => .ok a
  | none => .error failure

/-- The filter of a document. -/
def filterOf (j : Json) : Except Failure Filter := present .malformedFilter (Filter.ofJson? j)

/-- The document of a text. -/
def documentOf (s : String) : Except Failure Json := present .malformedFilter (Json.parse? s)

namespace Host

variable {m : Type → Type} [Monad m] (host : Host m)

/-- An answer that asks nothing from outside. -/
def settled {α : Type} (answer : Except Failure α) : ExceptT Failure m α := ExceptT.mk (pure answer)

/-- The document of a filter; without one it is an empty object. -/
def filterDocument : FilterSource → ExceptT Failure m Json
  | .absent => return .obj []
  | .text s => settled (documentOf s)
  | .file path => do
    let text ← ExceptT.lift (host.fileText path)
    settled (present .unreadableFilter text >>= documentOf)

/-- The registry of the schema in a file. -/
def registry (path : String) : ExceptT Failure m Registry := do
  match ← ExceptT.lift (host.fileText path) with
  | some text => settled ((Registry.ofText text).mapError .schema)
  | none => throw (.schema .unreadable)

/-- A connection to the database of a connection string. -/
def connected (connection : String) : ExceptT Failure m (Postgres.Connection m) := do
  match Postgres.ConnectionString.ofText? connection with
  | none => throw .malformedConnection
  | some s =>
    let opened ← ExceptT.lift (host.connect s)
    settled (present .noConnection opened)

/-- Has the database of a connection string answer a question about an entity. -/
def ask {α : Type} (q : Query) (connection : String)
    (question : EntityQuery → (Sql.Statement → ExceptT QueryError m (List Row)) →
      ExceptT QueryError m α) : ExceptT Failure m α := do
  let registry ← host.registry q.schema
  let c ← host.connected connection
  let query ← settled ((EntityQuery.ofName { registry } q.entity).mapError (.query ∘ .compile))
  (question query c.query).adapt .query

/-- The statement of a filter, or of its count. -/
def statement (q : Query) (dialect : Dialect) (count : Bool) : ExceptT Failure m Sql.Statement := do
  let document ← host.filterDocument q.filter
  let registry ← host.registry q.schema
  let compiler : Compiler := { registry, dialect }
  if count then settled ((compiler.count q.entity (some document)).mapError .compile)
  else
    let filter ← settled (filterOf document)
    settled ((compiler.select q.entity filter).mapError .compile)

/-- The rows that pass a filter. -/
def rows (q : Query) (connection : String) (one : Bool) : ExceptT Failure m (List Row) := do
  let document ← host.filterDocument q.filter
  let filter ← settled (filterOf document)
  host.ask q connection fun query run =>
    if one then Option.toList <$> query.findOne run filter else query.find run filter

/-- The number of rows that pass a tree of conditions. -/
def countRows (q : Query) (connection : String) : ExceptT Failure m Nat := do
  let document ← host.filterDocument q.filter
  host.ask q connection fun query run => query.count run (some document)

/-- Runs a command, which gives its output. -/
def execute : Command → ExceptT Failure m String
  | .compile q dialect count => do
    return documentText (statementJson (← host.statement q dialect count))
  | .find q connection one => return documentText (rowsJson (← host.rows q connection one))
  | .count q connection => return documentText (.int (← host.countRows q connection))
  | .schema path => return documentText (← host.registry path).toJson

/-- The report of what a command gave. -/
def reportOf : Except Failure String → Report
  | .ok output => ⟨0, output, none⟩
  | .error e => ⟨1, "", some e⟩

/-- Runs a command line. -/
def run (args : List String) : m Report :=
  match Invocation.ofArgs host.connection args with
  | .run c => reportOf <$> (host.execute c).run
  | .display text => return ⟨0, text, none⟩
  | .misuse => return ⟨2, "", none⟩

end Host

end FilterSql.Cli
