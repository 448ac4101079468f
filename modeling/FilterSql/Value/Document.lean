import FilterSql.Json.Tree
import FilterSql.Value.Basic

/-!
# Values as documents

The document form of a value names its kind: `{"Int": 5}`, `{"Date": "2020-02-29"}`, and `"Null"`
alone.
-/

namespace FilterSql.Value

/-! ## Writing -/

/-- A kind and what it holds. -/
def tagged (kind : String) (content : Json) : Json := .obj [(kind, content)]

/-- The document of a value. -/
def toDocument (v : Value) : Json :=
  match v with
  | .int _ => tagged "Int" v.toJson
  | .uint _ => tagged "Uint" v.toJson
  | .float _ => tagged "Float" v.toJson
  | .string _ => tagged "String" v.toJson
  | .bool _ => tagged "Boolean" v.toJson
  | .json _ => tagged "Json" v.toJson
  | .uuid _ => tagged "Uuid" v.toJson
  | .bytes _ => tagged "Bytes" v.toJson
  | .date _ => tagged "Date" v.toJson
  | .timestamp t => tagged "Timestamp" (.str (t.write 'T' "Z"))
  | .localTime t => tagged "TimestampNaive" (.str (t.write 'T' ""))
  | .null => .str "Null"

/-! ## Reading -/

/-- Reads an integer between bounds. -/
def integerBetween? (least most : Int) : Tree → Option Int
  | .number (some (.int n)) => if least ≤ n ∧ n ≤ most then some n else none
  | _ => none

/-- Reads any number as a double. -/
def number? : Tree → Option Double
  | .number (some (.int n)) => some (.ofInt n)
  | .number (some (.float x)) => some x
  | _ => none

/-- Reads what a kind holds. -/
def ofContent? (b : Budget) (kind : String) (t : Tree) : Option Value :=
  match kind with
  | "Int" => (integerBetween? (-2 ^ 63) (2 ^ 63 - 1) t).map fun n => .int (Int64.ofInt n)
  | "Uint" => (integerBetween? 0 (2 ^ 64 - 1) t).map fun n => .uint (UInt64.ofNat n.toNat)
  | "Float" => (number? t).map .float
  | "String" => t.asText?.map .string
  | "Boolean" => t.asBool?.map .bool
  | "Json" => (t.json? b).map .json
  | "Uuid" => (t.asText? >>= Uuid.ofText?).map .uuid
  | "Bytes" =>
    (t.asList? b fun _ e => (integerBetween? 0 255 e).map fun n => UInt8.ofNat n.toNat).map .bytes
  | "Date" => (t.asText? >>= Date.ofLoose?).map .date
  | "Timestamp" => (t.asText? >>= Moment.ofLoose?).map .timestamp
  | "TimestampNaive" => (t.asText? >>= Moment.ofLocal?).map .localTime
  | "Null" =>
    match t with
    | .null => some .null
    | _ => none
  | _ => none

/-- Reads the document of a value. -/
def ofTree? (b : Budget) : Tree → Option Value
  | .text (some "Null") => some .null
  | .record [(some kind, t)] => b.enter >>= fun inner => ofContent? inner kind t
  | _ => none

end FilterSql.Value
