import FilterSql.Postgres.Param

/-!
# Running statements

A `Connection` prepares statements and executes them with parameters in binary form.
`Connection.query` runs a statement with bound values and reads the cells of its rows; a cell that
does not fit the type of its column is null.
-/

namespace FilterSql.Postgres

/-- A prepared statement: the types of its placeholders, and the columns of its rows. -/
structure Prepared where
  params : List PgType
  columns : List (String × PgType)

/-- A connection to a database. -/
structure Connection (m : Type → Type) where
  prepare : String → ExceptT QueryError m Prepared
  execute : List (Option Bytes) → ExceptT QueryError m (List (List (Option Bytes)))

/-- The value of the bytes of a cell. -/
def cell? (t : PgType) (bs : Bytes) : Option Value :=
  match t with
  | .int2 => (signed? 2 bs).map fun n => .int (Int64.ofInt n)
  | .int4 => (signed? 4 bs).map fun n => .int (Int64.ofInt n)
  | .int8 => (signed? 8 bs).map fun n => .int (Int64.ofInt n)
  | .oid => (unsigned? 4 bs).map fun n => .uint (UInt64.ofNat n)
  | .float4 => (single? bs).map .float
  | .float8 => (double? bs).map .float
  | .numeric => (decimal? bs).map fun d => .float d.toDouble
  | .bool => (bool? bs).map .bool
  | .json => (document? false bs).map .json
  | .jsonb => (document? true bs).map .json
  | .uuid => (uuid? bs).map .uuid
  | .timestamptz => (moment? bs).map .timestamp
  | .timestamp => (moment? bs).map .localTime
  | .date => (date? bs).map .date
  | .bytea => some (.bytes bs)
  | .text | .varchar | .bpchar | .name | .unknown => (text? bs).map .string
  | .other _ => none

/-- The value of a cell; null if there are no bytes or they do not fit. -/
def cellValue (t : PgType) (cell : Option Bytes) : Value := (cell >>= cell? t).getD .null

/-- The row of cells. -/
def rowOf (columns : List (String × PgType)) (cells : List (Option Bytes)) : Row :=
  ⟨"", (columns.zip cells).map fun ((name, t), cell) => ⟨name, cellValue t cell⟩⟩

/-- The binary forms of parameters, as many as there are types. -/
def encodeAll? (params : List Param) (types : List PgType) : Option (List (Option Bytes)) :=
  if params.length = types.length then (params.zip types).mapM fun (p, t) => p.encode? t else none

/-- Runs a statement with its bound values. -/
def Connection.query {m : Type → Type} [Monad m] (c : Connection m) (s : Sql.Statement) :
    ExceptT QueryError m (List Row) := do
  let prepared ← c.prepare s.text
  let params ← ExceptT.mk (pure (Param.coerceAll 1 s.bindings prepared.params))
  match encodeAll? params prepared.params with
  | some cells => return (← c.execute cells).map (rowOf prepared.columns)
  | none => throw .sql

end FilterSql.Postgres
