import FilterSql.Postgres.Address
import FilterSql.Postgres.Wire

/-!
# Connection strings

A connection string names a database and how to reach it.  It is either a list of assignments such
as `host=localhost user=postgres`, or a locator such as
`postgres://user@localhost:5432/database?sslmode=disable`.  Both come to a list of parameters, each
with a value that its name allows.
-/

namespace FilterSql.Postgres

/-- A parameter of a connection; its value is a text unless it is a password or a path. -/
structure Parameter where
  name : String
  value : Bytes
  deriving DecidableEq, Repr

/-- The parameters of a connection in their order. -/
structure ConnectionString where
  parameters : List Parameter
  deriving DecidableEq, Repr

/-! ## Values of parameters -/

/-- Is the text a number of at most `bits` bits? -/
def isUnsignedWord (bits : Nat) (value : String) : Bool :=
  let n? :=
    match value.toList with
    | '+' :: ds => Text.natural? ds
    | ds => Text.natural? ds
  match n? with
  | some n => n < 2 ^ bits
  | none => false

/-- Is the text a signed number of 64 bits? -/
def isSignedWord (value : String) : Bool :=
  match Text.integer? value.toList with
  | some n => -2 ^ 63 ≤ n && n < 2 ^ 63
  | none => false

namespace Parameter

/-- May the parameter have the value?  No value is allowed for names that are not known. -/
def allows (name value : String) : Bool :=
  match name with
  | "user" | "password" | "dbname" | "options" | "application_name" | "host" => true
  | "sslmode" | "channel_binding" => ["disable", "prefer", "require"].contains value
  | "sslnegotiation" => ["postgres", "direct"].contains value
  | "hostaddr" => (Text.split (· == ',') value).all fun a => (Address.ofText? a).isSome
  | "port" => (Text.split (· == ',') value).all fun p => p.isEmpty || isUnsignedWord 16 p
  | "connect_timeout" | "tcp_user_timeout" | "keepalives_idle" | "keepalives_interval" =>
    isSignedWord value
  | "keepalives" => isUnsignedWord 64 value
  | "keepalives_retries" => isUnsignedWord 32 value
  | "target_session_attrs" => ["any", "read-write", "read-only"].contains value
  | "load_balance_hosts" => ["disable", "random"].contains value
  | _ => false

/-- A parameter with a text as its value. -/
def ofText? (name value : String) : Option Parameter :=
  if allows name value then some ⟨name, textBytes value⟩ else none

end Parameter

/-! ## Assignments -/

/-- A value in quotes, after the first quote, and what follows it. -/
def quotedValue? : List Char → Option (List Char × List Char)
  | [] => none
  | ['\\'] => none
  | '\\' :: c :: rest => (quotedValue? rest).map fun (value, after) => (c :: value, after)
  | c :: rest =>
    if c = '\'' then some ([], rest)
    else (quotedValue? rest).map fun (value, after) => (c :: value, after)

/-- A value up to a blank, and what follows it. -/
def plainValue : List Char → List Char × List Char
  | [] => ([], [])
  | ['\\'] => ([], [])
  | '\\' :: c :: rest =>
    let (value, after) := plainValue rest
    (c :: value, after)
  | c :: rest =>
    if Text.isBlank c then ([], c :: rest)
    else
      let (value, after) := plainValue rest
      (c :: value, after)

/-- A value of an assignment, and what follows it. -/
def assignedValue? (cs : List Char) : Option (List Char × List Char) :=
  match cs with
  | '\'' :: rest => quotedValue? rest
  | _ =>
    let (value, after) := plainValue cs
    if value.isEmpty then none else some (value, after)

/-- Is the character part of a name? -/
def isNameChar (c : Char) : Bool := !(Text.isBlank c || c == '=')

/-- Drops the blanks in front. -/
def skipBlanks (cs : List Char) : List Char := cs.dropWhile Text.isBlank

/-- The parameters of assignments; they end where there is no name. -/
def assignments? : (fuel : Nat) → List Char → Option (List Parameter)
  | 0, _ => none
  | fuel + 1, cs =>
    match (skipBlanks cs).span isNameChar with
    | ([], _) => some []
    | (name, rest) =>
      match skipBlanks rest with
      | '=' :: rest => do
        let (value, rest) ← assignedValue? (skipBlanks rest)
        let p ← Parameter.ofText? (String.ofList name) (String.ofList value)
        return p :: (← assignments? fuel rest)
      | _ => none

/-! ## Locators -/

/-- The bytes of a text in which `%` and two hexadecimal digits stand for a byte. -/
def percentDecoded : List Char → Bytes
  | [] => []
  | c :: rest =>
    match c, rest with
    | '%', a :: b :: after =>
      match Json.hexValue? a, Json.hexValue? b with
      | some x, some y => UInt8.ofNat (16 * x + y) :: percentDecoded after
      | _, _ => textBytes "%" ++ percentDecoded (a :: b :: after)
    | c, rest => textBytes c.toString ++ percentDecoded rest

/-- The text behind `%` and digits. -/
def decodedText? (cs : List Char) : Option String := text? (percentDecoded cs)

/-- What follows the scheme of a locator. -/
def afterScheme? (cs : List Char) : Option (List Char) :=
  ["postgres://", "postgresql://"].findSome? fun scheme =>
    if scheme.toList.isPrefixOf cs then some (cs.drop scheme.length) else none

/-- The parameters of a name and a password. -/
def credentials? (cs : List Char) : Option (List Parameter) :=
  match Text.cut ':' cs with
  | none => do return [⟨"user", textBytes (← decodedText? cs)⟩]
  | some (user, password) => do
    return [⟨"user", textBytes (← decodedText? user)⟩, ⟨"password", percentDecoded password⟩]

/-- The parameter of a host: a name, or a path, which begins with a slash. -/
def host? (cs : List Char) : Option Parameter :=
  let bytes := percentDecoded cs
  let isPath := bytes.head? = some (UInt8.ofNat '/'.toNat)
  if isPath ∨ (text? bytes).isSome then some ⟨"host", bytes⟩ else none

/-- The port of a host without one. -/
def defaultPort : List Char := "5432".toList

/-- A host and its port; a host with colons stands in brackets. -/
def hostAndPort? (cs : List Char) : Option (List Char × List Char) :=
  match cs with
  | '[' :: rest =>
    match Text.cut ']' rest with
    | some (host, []) => some (host, defaultPort)
    | some (host, ':' :: port) => some (host, port)
    | _ => none
  | _ =>
    match Text.cut ':' cs with
    | some hostAndPort => some hostAndPort
    | none => some (cs, defaultPort)

/-- The parameters of hosts between commas. -/
def hosts? (cs : List Char) : Option (List Parameter) :=
  if cs.isEmpty then some []
  else do
    let parameters ← (cs.splitOn ',').mapM fun piece => do
      let (host, port) ← hostAndPort? piece
      return [← host? host, ← Parameter.ofText? "port" (← decodedText? port)]
    return parameters.flatten

/-- The parameter of the name of a database, if it is not empty. -/
def database? (cs : List Char) : Option (List Parameter) :=
  if cs.isEmpty then some [] else do return [⟨"dbname", textBytes (← decodedText? cs)⟩]

/-- The parameters of a query; it may end with a separator. -/
def queryParameters? : List (List Char) → Option (List Parameter)
  | [] => some []
  | [[]] => some []
  | piece :: rest => do
    let (name, value) ← Text.cut '=' piece
    let name ← decodedText? name
    let p ← if name = "host" then host? value else Parameter.ofText? name (← decodedText? value)
    return p :: (← queryParameters? rest)

/-- The parameters of what follows the scheme of a locator. -/
def locator? (cs : List Char) : Option (List Parameter) := do
  let (credentials, cs) ←
    match Text.cut '@' cs with
    | some (credentials, rest) => do pure (← credentials? credentials, rest)
    | none => pure ([], cs)
  let (hosts, cs) := cs.span fun c => !(c == '/' || c == '?')
  let (path, query) := cs.span (· != '?')
  return credentials ++ (← hosts? hosts) ++ (← database? (path.drop 1)) ++
    (← queryParameters? ((query.drop 1).splitOn '&'))

/-- Reads a connection string. -/
def ConnectionString.ofText? (s : String) : Option ConnectionString :=
  let cs := s.toList
  let parameters :=
    match afterScheme? cs with
    | some rest => locator? rest
    | none => assignments? (cs.length + 1) cs
  parameters.map .mk

end FilterSql.Postgres
