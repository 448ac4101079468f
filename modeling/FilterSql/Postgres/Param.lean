import FilterSql.EntityQuery
import FilterSql.Postgres.Numeric

/-!
# Parameters

A statement that the database has prepared says which type each placeholder has.  `Param.coerce?`
turns a bound value into a parameter of that type, and `Param.encode?` gives its binary form, which
fails if the parameter is not of a kind that the type takes.
-/

namespace FilterSql.Postgres

/-- A type of the database. -/
inductive PgType where
  | int2 | int4 | int8
  | oid
  | float4 | float8
  | numeric
  | bool
  | text | varchar | bpchar | name | unknown
  | json | jsonb
  | uuid
  | timestamptz | timestamp | date
  | bytea
  /-- Any other type, by its name. -/
  | other (name : String)
  deriving DecidableEq, Repr

namespace PgType

/-- The types other than `other`. -/
def known : List (String × PgType) := [
  ("int2", int2), ("int4", int4), ("int8", int8), ("oid", oid), ("float4", float4),
  ("float8", float8), ("numeric", numeric), ("bool", bool), ("text", text),
  ("varchar", varchar), ("bpchar", bpchar), ("name", name), ("unknown", unknown),
  ("json", json), ("jsonb", jsonb), ("uuid", uuid), ("timestamptz", timestamptz),
  ("timestamp", timestamp), ("date", date), ("bytea", bytea)]

/-- The type of a name. -/
def ofName (s : String) : PgType := (known.lookup s).getD (other s)

/-- The name of a type. -/
def label (t : PgType) : String :=
  match t with
  | other s => s
  | t => ((known.find? fun p => p.2 == t).map Prod.fst).getD ""

end PgType

/-- A kind of parameter. -/
inductive Kind where
  | int2 | int4 | int8
  | float4 | float8
  | numeric
  | bool
  | text
  | json
  | uuid
  | timestamptz | timestamp | date
  | bytea
  deriving DecidableEq, Repr

/-- Does a type take parameters of a kind? -/
def PgType.takes : PgType → Kind → Bool
  | int2, .int2 | int4, .int4 | int8, .int8 | float4, .float4 | float8, .float8 => true
  | numeric, .numeric | bool, .bool | uuid, .uuid | bytea, .bytea => true
  | text, .text | varchar, .text | bpchar, .text | name, .text | unknown, .text => true
  | json, .json | jsonb, .json => true
  | timestamptz, .timestamptz | timestamp, .timestamp | date, .date => true
  | _, _ => false

/-- A parameter. -/
inductive Param where
  | int2 (n : Int16)
  | int4 (n : Int32)
  | int8 (n : Int64)
  /-- A double that is sent as a 32-bit number. -/
  | float4 (x : Double)
  | float8 (x : Double)
  | numeric (d : Decimal)
  | bool (b : Bool)
  | text (s : String)
  | json (j : Json)
  | uuid (u : Uuid)
  | timestamptz (t : Moment)
  | timestamp (t : Moment)
  | date (d : Date)
  | bytea (bs : Bytes)
  /-- Null, which has a kind as well. -/
  | null (kind : Kind)
  deriving Repr

namespace Param

/-- The kind of a parameter. -/
def kind : Param → Kind
  | int2 _ => .int2
  | int4 _ => .int4
  | int8 _ => .int8
  | float4 _ => .float4
  | float8 _ => .float8
  | numeric _ => .numeric
  | bool _ => .bool
  | text _ => .text
  | json _ => .json
  | uuid _ => .uuid
  | timestamptz _ => .timestamptz
  | timestamp _ => .timestamp
  | date _ => .date
  | bytea _ => .bytea
  | null kind => kind

/-- The binary form of a parameter of a type; nothing for null. -/
def bytes (t : PgType) : Param → Option Bytes
  | int2 n => some (signedBytes 2 n.toInt)
  | int4 n => some (signedBytes 4 n.toInt)
  | int8 n => some (signedBytes 8 n.toInt)
  | float4 x => some (singleBytes x)
  | float8 x => some (doubleBytes x)
  | numeric d => some (decimalBytes d)
  | bool b => some (boolBytes b)
  | text s => some (textBytes s)
  | json j => some (documentBytes (t == .jsonb) j)
  | uuid u => some (uuidBytes u)
  | timestamptz t => some (momentBytes t)
  | timestamp t => some (momentBytes t)
  | date d => some (dateBytes d)
  | bytea bs => some bs
  | null _ => none

/-- The binary form of a parameter, if the type takes its kind. -/
def encode? (p : Param) (t : PgType) : Option (Option Bytes) :=
  if t.takes p.kind then some (p.bytes t) else none

/-! ## Values as parameters -/

/-- A value as a parameter of its own kind.  Large unsigned numbers wrap. -/
def ofValue : Value → Param
  | .int n => int8 n
  | .uint n => int8 n.toInt64
  | .float x => float8 x
  | .string s => text s
  | .bool b => bool b
  | .json j => json j
  | .uuid u => uuid u
  | .bytes bs => bytea bs
  | .date d => date d
  | .timestamp t => timestamptz t
  | .localTime t => timestamp t
  | .null => null .text

/-- The integer of a value between bounds. -/
def integerWithin? (bits : Nat) (v : Value) : Option Int :=
  v.integer? >>= fun n =>
    if -2 ^ (bits - 1) ≤ n.toInt ∧ n.toInt < 2 ^ (bits - 1) then some n.toInt else none

/-- The decimal of a value. -/
def decimal? : Value → Option Decimal
  | .float x => Decimal.ofDouble? x
  | v => v.text? >>= Decimal.ofText?

/-- The identifier of a value. -/
def uuid? : Value → Option Uuid
  | .uuid u => some u
  | v => v.text? >>= Uuid.ofText?

/-- The moment of a value, first as one of universal time. -/
def timestamptz? : Value → Option Moment
  | .timestamp t => some t
  | .localTime t => some t
  | .string s => Moment.ofStrict? s <|> Moment.ofLocal? s
  | _ => none

/-- The moment of a value, first as one without a zone. -/
def timestamp? : Value → Option Moment
  | .timestamp t => some t
  | .localTime t => some t
  | .string s => Moment.ofLocal? s <|> Moment.ofStrict? s
  | _ => none

/-- The day of a value. -/
def date? : Value → Option Date
  | .date d => some d
  | .timestamp t => some t.date
  | .localTime t => some t.date
  | .string s => Date.ofText? s <|> (timestamp? (.string s)).map Moment.date
  | _ => none

/-- The kind of null that a type takes. -/
def nullKind : PgType → Kind
  | .int2 => .int2
  | .int4 => .int4
  | .int8 => .int8
  | .float4 => .float4
  | .float8 => .float8
  | .numeric => .numeric
  | .bool => .bool
  | .json | .jsonb => .json
  | .uuid => .uuid
  | .timestamptz => .timestamptz
  | .timestamp => .timestamp
  | .date => .date
  | .bytea => .bytea
  | _ => .text

/-- A value that is not null as a parameter of a type. -/
def coerceValue? (v : Value) (t : PgType) : Option Param :=
  match t with
  | .int2 => (integerWithin? 16 v).map fun n => int2 (Int16.ofInt n)
  | .int4 => (integerWithin? 32 v).map fun n => int4 (Int32.ofInt n)
  | .int8 => v.integer?.map int8
  | .float4 => v.double?.map float4
  | .float8 => v.double?.map float8
  | .numeric => (decimal? v).map numeric
  | .bool => v.bool?.map bool
  | .text | .varchar | .bpchar | .name => v.text?.map text
  | .json | .jsonb => some (json v.toJson)
  | .uuid => (uuid? v).map uuid
  | .timestamptz => (timestamptz? v).map timestamptz
  | .timestamp => (timestamp? v).map timestamp
  | .date => (date? v).map date
  | .bytea =>
    match v with
    | .bytes bs => some (bytea bs)
    | v => v.text?.map fun s => bytea (textBytes s)
  | _ => some (ofValue v)

/-- A value as a parameter of a type, if it has a reading as such. -/
def coerce? (v : Value) (t : PgType) : Option Param :=
  if v.isNull then some (null (nullKind t)) else coerceValue? v t

/-- Values as parameters of the types of a statement, the first of which has the number `index`.
Values past the types keep their own kind. -/
def coerceAll (index : Nat) : List Value → List PgType → Except QueryError (List Param)
  | [], _ => .ok []
  | v :: vs, [] => do return ofValue v :: (← coerceAll (index + 1) vs [])
  | v :: vs, t :: ts =>
    match coerce? v t with
    | some p => do return p :: (← coerceAll (index + 1) vs ts)
    | none => .error (.coercion index t.label v.display)

end Param

end FilterSql.Postgres
