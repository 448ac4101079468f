import FilterSql.Cli.Help

/-!
# Commands and their options

The commands of the program, the options that each of them takes, and their pages of help.  Reading
a command line and writing help go by the same lists of options.
-/

namespace FilterSql.Cli

/-- The name of the program. -/
def programName : String := "relq"

/-- The name of the program and its version. -/
def versionText : String := programName ++ " 0.1.0\n"

/-- What the program may be told to do. -/
inductive Verb where
  | compile
  | find
  | count
  | schema
  deriving DecidableEq, Repr

/-- What may be said to a command. -/
inductive OptionName where
  | schema
  | entity
  | filter
  | filterFile
  | dialect
  | count
  | connection
  | one
  deriving DecidableEq, Repr

/-- Does an option have a value, and must it be given? -/
inductive OptionKind where
  | required
  | optional
  | switch
  deriving DecidableEq, Repr

/-! ## Options -/

namespace OptionName

/-- The name of an option on the command line, without its dashes. -/
def text : OptionName → String
  | schema => "schema"
  | entity => "entity"
  | filter => "filter"
  | filterFile => "filter-file"
  | dialect => "dialect"
  | count => "count"
  | connection => "conn-str"
  | one => "one"

/-- Whether an option has a value and must be given. -/
def kind : OptionName → OptionKind
  | schema | entity | connection => .required
  | filter | filterFile | dialect => .optional
  | count | one => .switch

/-- The name of the value of an option in help. -/
def valueName (o : OptionName) : String :=
  String.ofList (o.text.toList.map fun c => if c = '-' then '_' else c.toUpper)

/-- An option as it is written. -/
def shape (o : OptionName) : String :=
  match o.kind with
  | .switch => "--" ++ o.text
  | _ => "--" ++ o.text ++ " <" ++ o.valueName ++ ">"

/-- What an option means; `connection` is the connection string of the environment. -/
def note (connection : Option String) : OptionName → String
  | schema => "Schema document path"
  | entity => "Root entity name"
  | filter => "Inline JSON filter; for `count` this is the bare where tree"
  | filterFile => "Read the filter from a JSON file"
  | dialect => "SQL dialect: postgres, mysql or sqlite [default: postgres]"
  | count => "Compile the count statement instead of the select"
  | .connection => "Postgres connection string [env: RELQ_CONN_STR=" ++ connection.getD "" ++ "]"
  | one => "Return at most one row"

end OptionName

/-! ## Commands -/

namespace Verb

/-- All commands in their order. -/
def all : List Verb := [compile, find, count, schema]

/-- The name of a command. -/
def name : Verb → String
  | compile => "compile"
  | find => "find"
  | count => "count"
  | schema => "schema"

/-- The command of a name. -/
def ofName? (s : String) : Option Verb := all.find? fun v => v.name == s

/-- What a command does. -/
def about : Verb → String
  | compile => "Print the SQL and bindings a filter compiles to"
  | find => "Run a filter against Postgres and print the matching rows as JSON"
  | count => "Count the rows matching a where tree"
  | schema => "Validate a schema document and print it normalized"

/-- The options that say what to query. -/
def queryOptions : List OptionName := [.schema, .entity, .filter, .filterFile]

/-- The options of a command in their order. -/
def options : Verb → List OptionName
  | compile => queryOptions ++ [.dialect, .count]
  | find => queryOptions ++ [.connection, .one]
  | count => queryOptions ++ [.connection]
  | schema => [.schema]

/-- The option of a name. -/
def option? (v : Verb) (s : String) : Option OptionName := v.options.find? fun o => o.text == s

/-- The required options of a command. -/
def required (v : Verb) : List OptionName := v.options.filter fun o => o.kind == .required

/-- How a command is called. -/
def usage (v : Verb) : String :=
  let parts :=
    if v.options.all fun o => o.kind == .required then v.required.map OptionName.shape
    else "[OPTIONS]" :: v.required.map OptionName.shape
  " ".intercalate (programName :: v.name :: parts)

end Verb

/-! ## Pages -/

/-- The entry of the option for help. -/
def helpEntry : HelpEntry := ⟨"-h, --help", "Print help"⟩

/-- The page of a command. -/
def Verb.page (connection : Option String) (v : Verb) : HelpPage :=
  let entries := v.options.map fun o => HelpEntry.mk ("    " ++ o.shape) (o.note connection)
  ⟨v.about, v.usage, [⟨"Options", entries ++ [helpEntry]⟩]⟩

/-- What the command for help does. -/
def helpAbout : String := "Print this message or the help of the given subcommand(s)"

/-- The page of the program. -/
def programPage : HelpPage :=
  let commands := Verb.all.map fun v => HelpEntry.mk v.name v.about
  ⟨"Compile JSON filters into parameterized SQL", programName ++ " <COMMAND>",
    [⟨"Commands", commands ++ [⟨"help", helpAbout⟩]⟩,
      ⟨"Options", [helpEntry, ⟨"-V, --version", "Print version"⟩]⟩]⟩

/-- The page of the command for help. -/
def helpPage : HelpPage :=
  ⟨helpAbout, programName ++ " help [COMMAND]...",
    [⟨"Arguments", [⟨"[COMMAND]...", "Print help for the subcommand(s)"⟩]⟩]⟩

end FilterSql.Cli
