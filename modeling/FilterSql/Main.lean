import FilterSql.Cli.Run

/-!
# The program

Runs the command line with the files of the system.  There is no way to a database here: every
connection fails.
-/

namespace FilterSql.Cli

/-- The text of a file, if it can be read. -/
def readTextFile (path : String) : IO (Option String) := do
  try
    return some (← IO.FS.readFile path)
  catch _ => return none

/-- What the system offers to a command. -/
def systemHost (connection : Option String) : Host IO :=
  { connection
    fileText := readTextFile
    connect := fun _ => return none }

/-- Runs the command line and gives the code of its report. -/
def runSystem (args : List String) : IO UInt32 := do
  let host := systemHost (← IO.getEnv "RELQ_CONN_STR")
  let report ← host.run args
  IO.print report.output
  match report.failure with
  | some e => IO.eprintln ("Error: " ++ e.message)
  | none => pure ()
  return UInt32.ofNat report.code

end FilterSql.Cli

/-- Runs the command line. -/
def main (args : List String) : IO UInt32 := FilterSql.Cli.runSystem args
