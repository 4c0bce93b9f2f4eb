/-!
# Arguments

What the words of a command line ask for. Words are read from left to right, and the first one that asks
for help or does not fit decides.
-/

namespace Tabular.CommandLine

inductive Operation where
  | up
  | down
  | refresh
  | status
deriving DecidableEq

inductive Command where
  | check (catalog : String) (json : Bool)
  | ddl (catalog : String)
  | migrate (operation : Operation) (db catalog : String)
deriving DecidableEq

inductive Topic where
  | all
  | check
  | ddl
  | migrate
  | operation (o : Operation)
  | help
  | migrateHelp
deriving DecidableEq

/-- What the words of a command line come to. -/
inductive Request where
  | run (c : Command)
  | help (t : Topic)
  | unusable
deriving DecidableEq

def Operation.ofName? : String → Option Operation
  | "up" => some up
  | "down" => some down
  | "refresh" => some refresh
  | "status" => some status
  | _ => none

inductive Options where
  | given (values : List (String × String))
  | help
  | unusable
deriving DecidableEq

def asksHelp (word : String) : Bool :=
  word == "--help" || word.startsWith "-h"

/-- The name and the value of an option that is written with an equals sign. -/
def splitOption (word : String) : String × Option String :=
  match word.splitOn "=" with
  | name :: part :: parts => (name, some ("=".intercalate (part :: parts)))
  | _ => (word, none)

/-- Whether a word can be the value of the option before it. -/
def isValue (word : String) : Bool :=
  word != "" && (word == "-" || !word.startsWith "-")

/-- Reads options, of which those in `named` take a value and those in `flags` do not, and no one is given
twice. `pending` is an option that waits for its value. -/
def readOptions (named flags : List String) (seen : List (String × String)) (pending : Option String) :
    List String → Options
  | [] => if pending.isSome then .unusable else .given seen
  | word :: rest =>
    match pending with
    | some name =>
      if isValue word then readOptions named flags ((name, word) :: seen) none rest else .unusable
    | none =>
      if asksHelp word then .help
      else if word = "--" then (if rest.isEmpty then .given seen else .unusable)
      else
        match splitOption word with
        | (name, value) =>
          if (seen.lookup name).isSome then .unusable
          else if flags.contains name then
            if value.isSome then .unusable else readOptions named flags ((name, "") :: seen) none rest
          else if named.contains name then
            match value with
            | none => readOptions named flags seen (some name) rest
            | some "" => .unusable
            | some v => readOptions named flags ((name, v) :: seen) none rest
          else .unusable

def withOptions (t : Topic) (o : Options) (make : List (String × String) → Option Command) : Request :=
  match o with
  | .given values => (make values).elim .unusable .run
  | .help => .help t
  | .unusable => .unusable

def topicOf : List String → Request
  | [] => .help .all
  | ["check"] => .help .check
  | ["ddl"] => .help .ddl
  | ["migrate"] => .help .migrate
  | ["migrate", "help"] => .help .migrateHelp
  | ["migrate", name] => (Operation.ofName? name).elim .unusable fun o => .help (.operation o)
  | ["help"] => .help .help
  | _ => .unusable

def readMigrate : List String → Request
  | [] => .unusable
  | word :: rest =>
    if asksHelp word then .help .migrate
    else if word = "help" then topicOf ("migrate" :: rest)
    else
      match Operation.ofName? word with
      | none => .unusable
      | some o =>
        withOptions (.operation o) (readOptions ["--db", "--catalog"] [] [] none rest) fun values => do
          return .migrate o (← values.lookup "--db") (← values.lookup "--catalog")

def Request.ofWords : List String → Request
  | [] => .unusable
  | word :: rest =>
    if asksHelp word then .help .all
    else
      match word with
      | "check" =>
        withOptions .check (readOptions ["--catalog"] ["--json"] [] none rest) fun values => do
          return .check (← values.lookup "--catalog") (values.lookup "--json").isSome
      | "ddl" =>
        withOptions .ddl (readOptions ["--catalog"] [] [] none rest) fun values => do
          return .ddl (← values.lookup "--catalog")
      | "migrate" => readMigrate rest
      | "help" => topicOf rest
      | _ => .unusable

end Tabular.CommandLine
