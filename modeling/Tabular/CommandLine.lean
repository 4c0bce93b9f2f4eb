import Tabular.Catalog.Files
import Tabular.CommandLine.Help
import Tabular.Database.Json
import Tabular.Migration

/-!
# The command line

What each command prints, the code it ends with, and the files it leaves behind.
-/

namespace Tabular.CommandLine

open Text

structure Outcome where
  code : Nat
  stdout : String
  stderr : String
  files : Files

/-- The outcome of a command that prints to the standard output only. -/
def success (files : Files) (stdout : String) : Outcome :=
  ⟨0, stdout, "", files⟩

def failure (files : Files) (reason : String) : Outcome :=
  ⟨1, "", "error: " ++ reason ++ "\n", files⟩

def counted (n : Nat) (singular plural : String) : String :=
  if n = 1 then "1 " ++ singular else s!"{n} {plural}"

def loadCatalog (files : Files) (path : String) : Except String Catalog :=
  let loaded :=
    if files.open? path = some .directory then Catalog.loadAll files path else Catalog.load files path
  loaded.mapError fun f => s!"Failed to load catalog '{path}': {f.message}"

def loadSchema (c : Catalog) : Except String Schema :=
  c.schema.mapError fun f => s!"Catalog rejected: {f.message}"

/-! ## Checking -/

def violationLines (c : Catalog) : String :=
  String.join (c.entities.flatMap fun e => e.violations.map fun v => s!"  {e.name}: {v.message}\n")

/-- A column in the summary of a catalog; the fields come in the order of their names. -/
def columnSummary (c : Column) : Json :=
  .object [
    Json.field "name" (Json.text c.name),
    Json.field "nullable" (.bool c.nullable),
    Json.field "primary_key" (.bool c.isKey),
    Json.field "references" (c.references.elim .null Json.text),
    Json.field "storage" (Json.text c.kind.storage.word),
    Json.field "type" (Json.text c.kind.name)]

def entitySummary (e : Entity) : Json :=
  .object [
    Json.field "autoincrement" (.bool e.autoincrement),
    Json.field "columns" (.array (e.columns.map columnSummary)),
    Json.field "name" (Json.text e.name),
    Json.field "table" (Json.text e.tableName)]

def summary (c : Catalog) (s : Schema) : Json :=
  .object [
    Json.field "entities" (.array (s.entities.map entitySummary)),
    Json.field "fingerprint" (Json.text c.fingerprint),
    Json.field "version" (Json.text c.version)]

def entityLine (e : Entity) : String :=
  s!"  {e.name} -> {e.tableName} (" ++ counted e.columns.length "column" "columns" ++
    ", key '" ++ (e.key?.map (·.name)).getD "-" ++ "'" ++
    (if e.autoincrement then ", autoincrement" else "") ++ ")\n"

def report (path : String) (c : Catalog) (s : Schema) : String :=
  s!"Catalog '{path}' (version {c.version}) is valid: " ++
    counted s.entities.length "entity" "entities" ++ ".\n" ++
    String.join (s.entities.map entityLine) ++ s!"Fingerprint: {c.fingerprint}\n"

/-- Checks a catalog: the entities one by one, then all of them together. -/
def check (files : Files) (path : String) (json : Bool) : Outcome :=
  match loadCatalog files path with
  | .error reason => failure files reason
  | .ok c =>
    match c.entities.countP fun e => !e.violations.isEmpty with
    | 0 =>
      match loadSchema c with
      | .error reason => failure files reason
      | .ok s => success files (if json then (summary c s).pretty ++ "\n" else report path c s)
    | n =>
      ⟨1, "", violationLines c ++ "error: " ++ counted n "invalid entity" "invalid entities" ++
        " in catalog\n", files⟩

/-- Prints the statements that create the tables and the indexes of entities, after what is printed already.
Every entity is checked again, and the first one that is refused ends the command. -/
def printDefinitions (files : Files) (printed : String) : List Entity → Outcome
  | [] => success files printed
  | e :: rest =>
    match e.creation with
    | .error f => ⟨1, printed, "error: " ++ f.message ++ "\n", files⟩
    | .ok table =>
      let printed := printed ++ Migration.script [table]
      match e.indexing with
      | .error f => ⟨1, printed, "error: " ++ f.message ++ "\n", files⟩
      | .ok indexes => printDefinitions files (printed ++ Migration.script indexes) rest

def ddl (files : Files) (path : String) : Outcome :=
  match loadCatalog files path >>= loadSchema with
  | .error reason => failure files reason
  | .ok s => printDefinitions files "" s.entities

/-! ## Migrating -/

def Operation.failed : Operation → String
  | up => "Migration up failed: "
  | down => "Migration down failed: "
  | refresh => "Refresh failed: "
  | status => "Failed to get migration status: "

/-- The fault of an operation on a file that holds no database. -/
def Operation.fault : Operation → StoreFault
  | up => .creation .notADatabase
  | down => .removal .notADatabase
  | refresh => .removal .notADatabase
  | status => .database .notADatabase

def tableLine (t : Migration.TableStatus) : String :=
  s!"  {t.entity} ({t.table}): " ++ (if t.present then counted t.rows "row" "rows" else "missing") ++ "\n"

def fingerprintWord (s : Migration.Status) : String :=
  if s.stored.isNone then "not recorded"
  else if s.matching then "matches catalog"
  else "differs from catalog"

def statusReport (s : Migration.Status) : String :=
  "Migration Status:\n" ++ "  Tables exist: " ++ (if s.allExist then "yes" else "no") ++ "\n" ++
    String.join (s.tables.map tableLine) ++ "  Fingerprint: " ++ fingerprintWord s ++ "\n"

/-- Carries out an operation on a database; the answer is what is printed. -/
def operate (m : Migration) (path : String) : Operation → Session String
  | .up => do
    m.up
    return "Migration up complete. " ++ counted m.schema.entities.length "table" "tables" ++
      s!" created in '{path}'.\n"
  | .down => do
    m.down
    return "Migration down complete. " ++ counted m.schema.entities.length "table" "tables" ++
      s!" dropped from '{path}'.\n"
  | .refresh => do
    m.refresh
    return s!"Refresh complete (tables dropped and recreated in '{path}').\n"
  | .status => do
    return statusReport (← m.status)

def inMemory : String := ":memory:"

/-- The place of the file that a database is kept in, which is made if it does not exist. -/
def openDatabase (files : Files) (path : String) : Option (Place × Files) :=
  let p := files.placeByName path
  match files.at? p with
  | some (.file _) => some (p, files)
  | some .directory => none
  | none => if files.isDirectory p.dropLast then some (p, files.put p (.file [])) else none

def contentAt (files : Files) (p : Place) : Content :=
  match files.at? p with
  | some (.file content) => content
  | _ => []

/-- Carries out an operation on the database in a file. -/
def migrateIn (files : Files) (m : Migration) (o : Operation) (path : String) (p : Place) : Outcome :=
  match Database.ofContent? (contentAt files p) with
  | none => failure files (o.failed ++ o.fault.message)
  | some db =>
    let (answer, after) := (operate m path o).run.run db
    let files := if after = db then files else files.put p (.file after.toContent)
    match answer with
    | .ok text => success files text
    | .error f => failure files (o.failed ++ f.message)

def migrate (files : Files) (o : Operation) (db catalog : String) : Outcome :=
  match loadCatalog files catalog with
  | .error reason => failure files reason
  | .ok c =>
    if db = inMemory then
      match Migration.ofCatalog c with
      | .error f => failure files s!"Failed to initialize migration: {f.message}"
      | .ok m =>
        match ((operate m db o).run.run {}).1 with
        | .ok text => success files text
        | .error f => failure files (o.failed ++ f.message)
    else
      match openDatabase files db with
      | none => failure files s!"Failed to open database '{db}': unable to open database file: {db}"
      | some (p, files) =>
        match Migration.ofCatalog c with
        | .error f => failure files s!"Failed to initialize migration: {f.message}"
        | .ok m => migrateIn files m o db p

def execute (files : Files) : Command → Outcome
  | .check catalog json => check files catalog json
  | .ddl catalog => ddl files catalog
  | .migrate o db catalog => migrate files o db catalog

/-- Carries out what the words of a command line ask for. -/
def run (files : Files) (words : List String) : Outcome :=
  match Request.ofWords words with
  | .run c => execute files c
  | .help t => success files t.text
  | .unusable => ⟨2, "", "error: the arguments cannot be used; try '--help'\n", files⟩

end Tabular.CommandLine
