import FilterSql.Cli.Verb
import FilterSql.Sql.Dialect
import FilterSql.Text.Blank

/-!
# Reading a command line

The arguments of the program are read from left to right and the first that is wrong, or that asks
for help, settles the answer.  Only when all of them have been read it matters which options are
missing.
-/

namespace FilterSql.Cli

/-! ## Commands with their options -/

/-- Where a filter comes from. -/
inductive FilterSource where
  | absent
  | text (s : String)
  | file (path : String)
  deriving DecidableEq, Repr

/-- What is queried: the path of a schema, the name of an entity, and a filter. -/
structure Query where
  schema : String
  entity : String
  filter : FilterSource
  deriving DecidableEq, Repr

/-- A command with what it was told. -/
inductive Command where
  | compile (query : Query) (dialect : Dialect) (count : Bool)
  | find (query : Query) (connection : String) (one : Bool)
  | count (query : Query) (connection : String)
  | schema (path : String)
  deriving DecidableEq, Repr

/-- What a command line asks for. -/
inductive Invocation where
  | run (c : Command)
  /-- A text is to be shown. -/
  | display (text : String)
  /-- The command line is wrong. -/
  | misuse
  deriving DecidableEq, Repr

/-! ## Arguments -/

/-- An argument of a command. -/
inductive Argument where
  | shortHelp
  /-- A name after two dashes, and what follows its sign of equality. -/
  | named (name : String) (value : Option String)
  /-- Two dashes alone, after which no options come. -/
  | stop
  | other
  deriving DecidableEq, Repr

/-- The kind of an argument. -/
def Argument.ofText (s : String) : Argument :=
  match s.toList with
  | ['-', '-'] => .stop
  | '-' :: '-' :: cs =>
    match Text.cut '=' cs with
    | some (name, value) => .named (String.ofList name) (some (String.ofList value))
    | none => .named (String.ofList cs) none
  | '-' :: 'h' :: _ => .shortHelp
  | _ => .other

/-- May the argument be the value of the option before it?  A dash alone may. -/
def mayBeValue (s : String) : Bool :=
  match s.toList with
  | '-' :: _ :: _ => false
  | _ => true

/-- Options that were given, with their values; a switch has the empty value. -/
abbrev Given := List (OptionName × String)

namespace Given

/-- The value of an option. -/
def value? (g : Given) (o : OptionName) : Option String :=
  (g.find? fun entry => entry.1 == o).map Prod.snd

/-- Was the option given? -/
def has (g : Given) (o : OptionName) : Bool := (g.value? o).isSome

/-- Is the value one that the option may have? -/
def isGood (o : OptionName) (value : String) : Bool :=
  match o with
  | .dialect => (Dialect.ofName value).isOk
  | _ => true

/-- Adds an option; it may be given only once. -/
def add? (g : Given) (o : OptionName) (value : String) : Option Given :=
  if g.has o || !isGood o value then none else some (g ++ [(o, value)])

end Given

/-- What the arguments of a command come to. -/
inductive Reading where
  | given (g : Given)
  | help
  | misuse

/-- Goes on with one more option. -/
def Reading.andThen (g : Option Given) (next : Given → Reading) : Reading :=
  match g with
  | some g => next g
  | none => .misuse

/-- Reads the arguments of a command. -/
def Verb.read (v : Verb) : Given → List String → Reading
  | g, [] => .given g
  | g, s :: rest =>
    match Argument.ofText s with
    | .shortHelp => .help
    | .stop => if rest.isEmpty then .given g else .misuse
    | .other => .misuse
    | .named name value =>
      if name = "help" then if value.isNone then .help else .misuse
      else
        match v.option? name with
        | none => .misuse
        | some o =>
          match o.kind, value, rest with
          | .switch, none, rest => .andThen (g.add? o "") fun g => v.read g rest
          | .switch, some _, _ => .misuse
          | _, some value, rest => .andThen (g.add? o value) fun g => v.read g rest
          | _, none, value :: rest =>
            if mayBeValue value then .andThen (g.add? o value) fun g => v.read g rest else .misuse
          | _, none, [] => .misuse

/-! ## Command lines -/

namespace Given

/-- Where the filter comes from, which may be said in one way only. -/
def filterSource? (g : Given) : Option FilterSource :=
  match g.value? .filter, g.value? .filterFile with
  | none, none => some .absent
  | some s, none => some (.text s)
  | none, some path => some (.file path)
  | some _, some _ => none

/-- What is queried. -/
def query? (g : Given) : Option Query := do
  return ⟨← g.value? .schema, ← g.value? .entity, ← g.filterSource?⟩

/-- The dialect that was given, or the default. -/
def dialect (g : Given) : Dialect :=
  match (g.value? .dialect).map Dialect.ofName with
  | some (.ok d) => d
  | _ => .postgres

/-- The command that options make, if none is missing; `connection` is the connection string of the
environment. -/
def command? (g : Given) (connection : Option String) : Verb → Option Command
  | .compile => do return .compile (← g.query?) g.dialect (g.has .count)
  | .find => do return .find (← g.query?) (← g.value? .connection <|> connection) (g.has .one)
  | .count => do return .count (← g.query?) (← g.value? .connection <|> connection)
  | .schema => do return .schema (← g.value? .schema)

end Given

namespace Invocation

/-- What the arguments after the name of a command ask for. -/
def ofVerb (connection : Option String) (v : Verb) (args : List String) : Invocation :=
  match v.read [] args with
  | .help => display (v.page connection).text
  | .misuse => misuse
  | .given g =>
    match g.command? connection v with
    | some c => run c
    | none => misuse

/-- What the names after the command for help ask for. -/
def ofHelp (connection : Option String) : List String → Invocation
  | [] => display programPage.text
  | [name] =>
    match Verb.ofName? name with
    | some v => display (v.page connection).text
    | none => if name = "help" then display helpPage.text else misuse
  | _ => misuse

/-- What the first argument asks for if it names no command. -/
def ofOption (s : String) : Invocation :=
  match s.toList with
  | '-' :: 'h' :: _ => display programPage.text
  | '-' :: 'V' :: _ => display versionText
  | _ =>
    if s = "--help" then display programPage.text
    else if s = "--version" then display versionText
    else misuse

/-- What a command line asks for. -/
def ofArgs (connection : Option String) : List String → Invocation
  | [] => misuse
  | s :: rest =>
    match Verb.ofName? s with
    | some v => ofVerb connection v rest
    | none => if s = "help" then ofHelp connection rest else ofOption s

end Invocation

end FilterSql.Cli
