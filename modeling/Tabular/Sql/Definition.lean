import Tabular.Fault
import Tabular.Sql.Quoted

/-!
# Definitions of tables and indexes

What a database is told about the tables of entities, as data and as text. A definition may be given
again: a table or an index that exists is kept as it is.
-/

namespace Tabular.Sql

inductive Storage where
  | integer
  | text
deriving DecidableEq

def Storage.word : Storage → String
  | integer => "INTEGER"
  | text => "TEXT"

structure ColumnDefinition where
  name : String
  storage : Storage
  isKey : Bool := false
  /-- Whether the database chooses keys that were never used before. -/
  autoincrement : Bool := false
  unique : Bool := false
  notNull : Bool := false
  /-- The table whose key the column must hold. -/
  references : Option String := none
deriving DecidableEq

def ColumnDefinition.sql (c : ColumnDefinition) : String :=
  Quoted.quote c.name ++ " " ++ c.storage.word ++
    (if c.isKey then " PRIMARY KEY" else "") ++
    (if c.autoincrement then " AUTOINCREMENT" else "") ++
    (if c.unique then " UNIQUE" else "") ++
    (if c.notNull then " NOT NULL" else "") ++
    (c.references.elim "" fun table => " REFERENCES " ++ Quoted.quote table)

structure TableDefinition where
  name : String
  columns : List ColumnDefinition
deriving DecidableEq

/-- A declared index on one column of a table. -/
structure IndexDefinition where
  name : String
  table : String
  column : String
deriving DecidableEq

/-- A statement that changes which tables and indexes there are. -/
inductive Definition where
  | createTable (d : TableDefinition)
  | createIndex (d : IndexDefinition)
  | dropTable (name : String)
deriving DecidableEq

def Definition.sql : Definition → String
  | createTable d =>
    "CREATE TABLE IF NOT EXISTS " ++ Quoted.quote d.name ++
      " (" ++ ", ".intercalate (d.columns.map ColumnDefinition.sql) ++ ")"
  | createIndex d =>
    "CREATE INDEX IF NOT EXISTS " ++ Quoted.quote d.name ++ " ON " ++ Quoted.quote d.table ++
      " (" ++ Quoted.quote d.column ++ ")"
  | dropTable name => "DROP TABLE IF EXISTS " ++ Quoted.quote name

end Tabular.Sql

namespace Tabular

open Sql

/-- The column type for a kind: a point in time is stored as its milliseconds. -/
def Kind.storage : Kind → Storage
  | integer => .integer
  | text => .text
  | timestamp => .integer

namespace Entity

/-- How a column is declared. A key needs no further constraint. -/
def columnDefinition (e : Entity) (c : Column) : ColumnDefinition :=
  if c.isKey then
    { name := c.name, storage := c.kind.storage, isKey := true, autoincrement := e.autoincrement }
  else
    { name := c.name, storage := c.kind.storage, unique := c.unique, notNull := !c.nullable,
      references := c.references }

def tableDefinition (e : Entity) : TableDefinition :=
  ⟨e.tableName, e.columns.map e.columnDefinition⟩

/-- The name of the index on a column. -/
def indexName (e : Entity) (c : Column) : String :=
  "index_" ++ c.name ++ "_on_" ++ e.tableName

/-- The indexes on the columns that ask for one; the key has an index anyway. -/
def indexDefinitions (e : Entity) : List IndexDefinition :=
  (e.columns.filter fun c => c.indexed && !c.isKey).map fun c => ⟨e.indexName c, e.tableName, c.name⟩

def creation (e : Entity) : Except Fault Definition := do
  e.requireValid
  return .createTable e.tableDefinition

def indexing (e : Entity) : Except Fault (List Definition) := do
  e.requireValid
  return e.indexDefinitions.map .createIndex

def dropping (e : Entity) : Definition :=
  .dropTable e.tableName

end Entity

end Tabular
