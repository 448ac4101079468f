/-!
# Help

A page of help says what a command does, how it is called, and which parts its call has, in columns.
-/

namespace FilterSql.Cli

/-- A part of a call and what it means. -/
structure HelpEntry where
  part : String
  note : String

/-- Entries under a title. -/
structure HelpSection where
  title : String
  entries : List HelpEntry

/-- A page of help. -/
structure HelpPage where
  about : String
  usage : String
  sections : List HelpSection

/-- The number of characters of the widest part. -/
def HelpSection.width (s : HelpSection) : Nat := (s.entries.map fun e => e.part.length).foldl max 0

/-- The line of an entry, with its note two places after the column of parts. -/
def HelpEntry.line (width : Nat) (e : HelpEntry) : String :=
  "  " ++ e.part ++ String.ofList (List.replicate (width - e.part.length + 2) ' ') ++ e.note ++ "\n"

/-- The lines of a section. -/
def HelpSection.text (s : HelpSection) : String :=
  "\n" ++ s.title ++ ":\n" ++ String.join (s.entries.map (HelpEntry.line s.width))

/-- The text of a page. -/
def HelpPage.text (p : HelpPage) : String :=
  p.about ++ "\n\nUsage: " ++ p.usage ++ "\n" ++ String.join (p.sections.map HelpSection.text)

end FilterSql.Cli
