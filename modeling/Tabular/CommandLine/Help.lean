import Tabular.CommandLine.Arguments

/-!
# Help

The texts that explain the commands.
-/

namespace Tabular.CommandLine

/-- A column of words with an explanation beside each. -/
def table (rows : List (String × String)) : String :=
  let width := (rows.map (·.1.length)).foldl max 0
  String.join (rows.map fun (word, about) =>
    "  " ++ word ++ String.ofList (List.replicate (width - word.length) ' ') ++ "  " ++ about ++ "\n")

/-- The lines that explain the option for help and the ones before it. -/
def optionsHelp (rows : List (String × String)) : String :=
  "Options:\n" ++ table (rows.map (fun (word, about) => ("    " ++ word, about)) ++ [("-h, --help", "Print help")])

def commandsHelp (rows : List (String × String)) : String :=
  "Commands:\n" ++
    table (rows ++ [("help", "Print this message or the help of the given subcommand(s)")])

/-- A text of help: what a command is for, how it is used, and the words it takes. -/
def page (about usage : String) (parts : List String) : String :=
  about ++ "\n\nUsage: rowmap " ++ usage ++ "\n\n" ++ "\n".intercalate parts

def catalogOption : String × String :=
  ("--catalog <CATALOG>", "Catalog file (.yaml, .yml, .json) or directory of catalog files")

def Operation.about : Operation → String
  | up => "Create entity tables and record the catalog fingerprint"
  | down => "Drop entity tables"
  | refresh => "Drop and recreate entity tables"
  | status => "Show table existence, row counts, and fingerprint match"

def Operation.name : Operation → String
  | up => "up"
  | down => "down"
  | refresh => "refresh"
  | status => "status"

def checkAbout : String :=
  "Load and validate a catalog, then print a summary and its fingerprint"

def ddlAbout : String :=
  "Print CREATE TABLE and CREATE INDEX statements for a catalog"

def migrateAbout : String :=
  "SQLite table lifecycle operations"

def helpPage (usage : String) : String :=
  page "Print this message or the help of the given subcommand(s)" usage
    ["Arguments:\n" ++ table [("[COMMAND]...", "Print help for the subcommand(s)")]]

def Topic.text : Topic → String
  | all =>
    page "Entity catalog checks, DDL generation, and SQLite table management" "<COMMAND>"
      [commandsHelp [("check", checkAbout), ("ddl", ddlAbout), ("migrate", migrateAbout)], optionsHelp []]
  | check =>
    page checkAbout "check [OPTIONS] --catalog <CATALOG>"
      [optionsHelp [catalogOption, ("--json", "Print the summary as JSON")]]
  | ddl => page ddlAbout "ddl --catalog <CATALOG>" [optionsHelp [catalogOption]]
  | migrate =>
    page migrateAbout "migrate <COMMAND>"
      [commandsHelp ([Operation.up, .down, .refresh, .status].map fun o => (o.name, o.about)),
        optionsHelp []]
  | operation o =>
    page o.about ("migrate " ++ o.name ++ " --db <DB> --catalog <CATALOG>")
      [optionsHelp [("--db <DB>", "Database file path"), catalogOption]]
  | help => helpPage "help [COMMAND]..."
  | migrateHelp => helpPage "migrate help [COMMAND]..."

end Tabular.CommandLine
