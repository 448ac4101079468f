import FilterSql.Binary.Format
import FilterSql.Calendar.Date
import FilterSql.Calendar.Text
import FilterSql.Catalog
import FilterSql.Cli.Args
import FilterSql.Cli.Help
import FilterSql.Cli.Run
import FilterSql.Cli.Verb
import FilterSql.Compiler
import FilterSql.Decimal
import FilterSql.Double.Basic
import FilterSql.Double.Digits
import FilterSql.Double.Text
import FilterSql.EntityQuery
import FilterSql.Error
import FilterSql.Filter.Basic
import FilterSql.Filter.Document
import FilterSql.Json.Basic
import FilterSql.Json.Printer
import FilterSql.Json.Reader
import FilterSql.Json.Tree
import FilterSql.Main
import FilterSql.Order
import FilterSql.Path.Chain
import FilterSql.Path.Key
import FilterSql.Plan.Keys
import FilterSql.Plan.Planner
import FilterSql.Plan.Session
import FilterSql.Postgres.Address
import FilterSql.Postgres.ConnectionString
import FilterSql.Postgres.Executor
import FilterSql.Postgres.Numeric
import FilterSql.Postgres.Param
import FilterSql.Postgres.Wire
import FilterSql.Power
import FilterSql.Projection
import FilterSql.Proofs.Compiler.Counting
import FilterSql.Proofs.Compiler.Parts
import FilterSql.Proofs.Compiler.Placeholders
import FilterSql.Proofs.Compiler.Quoting
import FilterSql.Proofs.Outcome
import FilterSql.Proofs.Sql.Atoms
import FilterSql.Proofs.Sql.Lexing
import FilterSql.Proofs.Sql.Reading
import FilterSql.Proofs.Sql.Rendering
import FilterSql.Proofs.Where.Shape
import FilterSql.Row
import FilterSql.Schema.Document
import FilterSql.Schema.Entity
import FilterSql.Schema.Registry
import FilterSql.Schema.Relation
import FilterSql.Sql.Dialect
import FilterSql.Sql.Expr
import FilterSql.Sql.Select
import FilterSql.Sql.Storage
import FilterSql.Text.Blank
import FilterSql.Text.CaseTables
import FilterSql.Text.LowerCase
import FilterSql.Text.Numeral
import FilterSql.Uuid
import FilterSql.Value.Basic
import FilterSql.Value.Compare
import FilterSql.Value.Document
import FilterSql.Where.Clause
import FilterSql.Where.Compile
import FilterSql.Where.Operator
import FilterSql.Proofs.Plan.Steps
import FilterSql.Proofs.Compiler.Scope
import FilterSql.Proofs.Plan.Arrivals
import FilterSql.Proofs.Plan.Atomic
import FilterSql.Proofs.Plan.Exact
import FilterSql.Proofs.Sql.Truth
import FilterSql.Proofs.Where.Meaning
import FilterSql.Proofs.Sql.Words
import FilterSql.Proofs.Sql.Precedence
import FilterSql.Proofs.Sql.Grouping
import FilterSql.Proofs.Where.Grouping
import FilterSql.Proofs.Where.Lookups
import FilterSql.Proofs.Plan.Coverage
import FilterSql.Proofs.Plan.Numbers
import FilterSql.Proofs.Compiler.Tables
import FilterSql.Proofs.Compiler.Independence
import FilterSql.Proofs.Sql.Shapes
import FilterSql.Proofs.Where.Scalars
import FilterSql.Proofs.Compiler.Refusals
import FilterSql.Proofs.Plan.Replay
import FilterSql.Proofs.Compiler.Extension
import FilterSql.Proofs.Schema.Roundtrip
import FilterSql.Proofs.Compiler.Columns
import FilterSql.Proofs.Compiler.Ordering
import FilterSql.Proofs.Sql.Keywords
import FilterSql.Proofs.Compiler.Paging
import FilterSql.Proofs.Where.Blank
import FilterSql.Proofs.Compiler.Blank
import FilterSql.Proofs.Double.Exact
import FilterSql.Proofs.Double.Equality
import FilterSql.Proofs.Postgres.Words
import FilterSql.Proofs.Value.Numbers
import FilterSql.Proofs.Postgres.Integers
import FilterSql.Proofs.Value.Hashing
import FilterSql.Proofs.Compiler.Tags
import FilterSql.Proofs.Compiler.Grouped
import FilterSql.Proofs.Path.Resolution
import FilterSql.Proofs.Plan.Groups
import FilterSql.Proofs.Compiler.Names
import FilterSql.Proofs.Text.Pieces
import FilterSql.Proofs.Sql.Paths
import FilterSql.Proofs.Sql.Escapes
import FilterSql.Proofs.Order.Entries
import FilterSql.Proofs.Where.Members
import FilterSql.Proofs.Where.Spellings
import FilterSql.Proofs.Compiler.Spellings
import FilterSql.Proofs.Where.Recursion
import FilterSql.Proofs.Double.Arithmetic
import FilterSql.Proofs.Postgres.Cells
import FilterSql.Proofs.Double.Errors
import FilterSql.Proofs.Decimal.Accuracy
import FilterSql.Proofs.Postgres.Amounts
import FilterSql.Proofs.Double.Integers
import FilterSql.Proofs.Compiler.Bounds
import FilterSql.Proofs.Path.Grammar
import FilterSql.Proofs.Projection.Selection
import FilterSql.Proofs.Projection.Rows
import FilterSql.Proofs.Text.Digits
import FilterSql.Proofs.Calendar.Civil
import FilterSql.Proofs.Calendar.Text
import FilterSql.Proofs.Uuid
import FilterSql.Proofs.Double.Order
import FilterSql.Proofs.Value.Order
import FilterSql.Proofs.Json.Distinct
import FilterSql.Proofs.Value.Documents
import FilterSql.Proofs.Filter.Documents
import FilterSql.Proofs.Schema.Registering
import FilterSql.Proofs.Schema.Inverses
import FilterSql.Proofs.Plan.Obstacles
import FilterSql.Proofs.Plan.Mentions
