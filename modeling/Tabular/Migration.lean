import Tabular.Sql.Request
import Tabular.Store.Session

/-!
# Migrations

The tables of a catalog are created and dropped together. A table of its own remembers the fingerprint
of the catalog that the database was last made for.
-/

namespace Tabular

open Sql

/-- The tables of a catalog, with its fingerprint. -/
structure Migration where
  schema : Schema
  fingerprint : String

namespace Migration

def ofCatalog (c : Catalog) : Except StoreFault Migration := do
  return ⟨← c.schema.mapError .catalog, c.fingerprint⟩

/-- The name of the table that remembers the fingerprint. -/
def metaName : String := "_rowmap_meta"

def fingerprintKey : String := "catalog_fingerprint"

def metaDefinition : TableDefinition where
  name := metaName
  columns := [
    { name := "key", storage := .text, isKey := true, notNull := true },
    { name := "value", storage := .text, notNull := true }]

/-- Creates the table and the indexes of an entity. -/
def entityDefinitions (e : Entity) : List Definition :=
  .createTable e.tableDefinition :: e.indexDefinitions.map .createIndex

def definitions (m : Migration) : List Definition :=
  m.schema.entities.flatMap entityDefinitions

/-- What a creation carries out once the table that remembers the fingerprint exists. Every entity is checked
again, for its table and for its indexes. -/
def batch (m : Migration) : Except Fault (List Definition) := do
  let parts ← m.schema.entities.mapM fun e => do return (← e.creation) :: (← e.indexing)
  return parts.flatten

/-- Drops the tables of all entities, the last one first, and the table that remembers the
fingerprint. -/
def removals (m : Migration) : List Definition :=
  m.schema.entities.reverse.map Entity.dropping ++ [.dropTable metaName]

def script (ds : List Definition) : String :=
  String.join (ds.map fun d => d.sql ++ ";\n")

/-- Creates all tables and indexes that do not exist, and remembers the fingerprint. -/
def up (m : Migration) : Session Unit := do
  let ds ← Session.mapped m.batch
  -- One transaction: what was created before a fault is not kept.
  match (← get).defineAll (.createTable metaDefinition :: ds) with
  | .error f => throw (.creation f)
  | .ok db =>
    match db.insert .replace metaName [("key", .text fingerprintKey), ("value", .text m.fingerprint)] with
    | .error f => throw (.database f)
    | .ok (_, db) => set db

def down (m : Migration) : Session Unit := do
  match (← get).defineAll m.removals with
  | .error f => throw (.removal f)
  | .ok db => set db

def refresh (m : Migration) : Session Unit := do
  m.down
  m.up

/-- Whether the table of an entity exists, and how many rows it has. -/
structure TableStatus where
  entity : String
  table : String
  present : Bool
  rows : Nat
deriving DecidableEq

structure Status where
  tables : List TableStatus
  stored : Option String
  fingerprint : String
deriving DecidableEq

namespace Status

def allExist (s : Status) : Bool :=
  s.tables.all (·.present)

/-- Whether the database was last made for the same entities. -/
def matching (s : Status) : Bool :=
  s.stored == some s.fingerprint

def totalRows (s : Status) : Nat :=
  s.tables.foldr (fun t n => t.rows + n) 0

end Status

def hasTable (db : Database) (name : String) : Bool :=
  -- The directory is searched for the name as it is written, not for any spelling of it.
  db.tables.any (·.name = name)

def tableStatus (e : Entity) : Session TableStatus := do
  if hasTable (← get) e.tableName then
    return ⟨e.name, e.tableName, true, ← Session.ask (·.count e.tallyAll)⟩
  else return ⟨e.name, e.tableName, false, 0⟩

def stored : Session (Option String) := do
  if hasTable (← get) metaName then
    let rows ← Session.ask (·.select
      ⟨metaName, ["value"], [⟨"key", .compare .equal (.text fingerprintKey)⟩], [], {}⟩)
    match rows with
    | [] => return none
    | [.text s] :: _ => return some s
    | _ => throw (.database .notText)
  else return none

def status (m : Migration) : Session Status := do
  let tables ← m.schema.entities.mapM tableStatus
  return ⟨tables, ← stored, m.fingerprint⟩

end Migration

end Tabular
