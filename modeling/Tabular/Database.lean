import Tabular.Database.Limits
import Tabular.Database.Table

/-!
# Databases

Tables and indexes. Every reference that a row holds leads to a row of the table that it refers to; a
statement after which one would not has no effect.
-/

namespace Tabular

open Sql Text

/-- The tables and the indexes, in the order in which they were created. -/
@[ext]
structure Database where
  tables : List Table := []
  indexes : List IndexDefinition := []
  /-- Whether a table that never uses ids again was ever created: what it needs for that stays. -/
  sequence : Bool := false
deriving DecidableEq

namespace Database

def table? (db : Database) (name : String) : Option Table :=
  db.tables.find? (sameName ·.name name)

def require (db : Database) (name : String) : Except DatabaseFault Table :=
  match db.table? name with
  | some t => .ok t
  | none => .error (.noTable name)

/-- The database with a table in place of the one of the same name. -/
def setTable (db : Database) (t : Table) : Database :=
  { db with tables := db.tables.map fun u => if sameName u.name t.name then t else u }

/-! ## References -/

/-- Whether a cell is the key of a row. The cell is compared as the key column would hold it. -/
def isKeyOf (t : Table) (v : Cell) : Bool :=
  match t.columns.findIdx? (·.isKey) with
  | some i =>
    let storage := ((t.columns[i]?).map (·.storage)).getD .text
    t.rows.any fun r => (v.convert storage).same (r.cells.getD i .null)
  | none => false

/-- Whether a cell refers to nothing, or to a row of the table with the given name. -/
def leads (db : Database) (table : String) (v : Cell) : Bool :=
  v == .null || (db.table? table).any (isKeyOf · v)

def rowLeads (db : Database) (t : Table) (r : Record) : Bool :=
  (t.columns.zip r.cells).all fun (c, v) => c.references.all fun table => db.leads table v

def isConsistent (db : Database) : Bool :=
  db.tables.all fun t => t.rows.all (db.rowLeads t)

def requireConsistent (db : Database) : Except DatabaseFault Database :=
  if db.isConsistent then .ok db else .error .danglingReference

def requireParents (db : Database) (cs : List ColumnDefinition) : Except DatabaseFault Unit :=
  match (cs.filterMap (·.references)).find? fun table => (db.table? table).isNone with
  | some table => .error (.noParent table)
  | none => .ok ()

/-- The names of the directory, in which a database lists its tables and indexes. -/
def isDirectory (name : String) : Bool :=
  ["sqlite_master", "sqlite_schema"].any (sameName name)

/-- The columns of the directory: what an entry is, its name, the table it belongs to and the text it was
created with. -/
def directoryDefinition : TableDefinition where
  name := "sqlite_master"
  columns := ["type", "name", "tbl_name", "sql"].map fun name => { name := name, storage := .text }

/-- The entries of a table: the table, and an index without text for each column that tells rows
apart. -/
def tableEntries (t : Table) : List (List Cell) :=
  [.text "table", .text t.name, .text t.name, .text (Definition.createTable t.definition).sql] ::
    t.distinguishing.zipIdx.map fun (_, i) =>
      [.text "index", .text s!"sqlite_autoindex_{t.name}_{i + 1}", .text t.name, .null]

def indexEntry (d : IndexDefinition) : List Cell :=
  [.text "index", .text d.name, .text d.table, .text (Definition.createIndex d).sql]

def directory (db : Database) : Table where
  definition := directoryDefinition
  rows := (db.tables.flatMap tableEntries ++ db.indexes.map indexEntry).zipIdx.map fun (cells, i) =>
    ⟨Int64.ofNat (i + 1), cells⟩

/-- The table that is read under a name. The directory can be read and nothing else be done with it. -/
def readable (db : Database) (name : String) : Except DatabaseFault Table :=
  match db.table? name with
  | some t => .ok t
  | none => if isDirectory name then .ok db.directory else .error (.noTable name)

/-! ## Statements -/

/-- The rows of a result that a page shows. -/
def cut {α : Type} (p : Page) (rows : List α) : List α :=
  let rows := rows.drop (p.offset.elim 0 (·.toNat))
  p.limit.elim rows fun n => rows.take n.toNat

def select (db : Database) (s : Selection) : Except DatabaseFault (List (List Cell)) := do
  requireSize (.select s)
  let t ← db.readable s.table
  let rows := cut s.page (t.sort s.order (t.rows.filter (t.satisfies s.conditions)))
  return rows.map fun r => s.columns.map (t.cell · r)

def count (db : Database) (q : Tally) : Except DatabaseFault Nat := do
  requireSize (.count q)
  let t ← db.readable q.table
  return t.rows.countP (t.satisfies q.conditions)

def requireTarget (t : Table) (name : String) : Except DatabaseFault Table.Target :=
  match t.target? name with
  | some target => .ok target
  | none => .error (.noColumn t.name name)

def isId (t : Table) : Table.Target → Bool
  | .rowId => true
  | .column i _ => t.idIndex? == some i

/-- The cells of a new row: what is not given is absent, and of what is given twice the first counts. -/
def newCells (t : Table) (given : List (Table.Target × Cell)) : List Cell :=
  t.columns.zipIdx.map fun (c, i) => ((given.lookup (.column i c.storage)).getD .null).convert c.storage

/-- The id of a new row: the one given, or else a new one. -/
def newId (t : Table) (given : List (Table.Target × Cell)) : Except DatabaseFault Int64 :=
  match (given.filter fun (target, _) => isId t target).getLast? with
  | none | some (_, .null) => t.nextId
  | some (_, v) =>
    match v.rowId? with
    | some id => .ok id
    | none => .error (.noRowId t.name)

def noteId (t : Table) (id : Int64) : Table :=
  if t.neverReuses then { t with lastId := max t.lastId id } else t

/-- Adds a row to a table. A row that breaks a constraint is dropped or takes the place of the rows it
clashes with, if the mode says so. The answer is the id of the row, unless it was dropped. -/
def insertRow (t : Table) (mode : Conflict) (r : Record) : Except DatabaseFault (Option Int64 × Table) :=
  -- An id is used up by a row that is dropped, too.
  let t := noteId t r.id
  match t.missing? r with
  | some c => if mode = .ignore then .ok (none, t) else .error (.required t.name c.name)
  | none =>
    match t.shared? r t.rows with
    | none => .ok (some r.id, { t with rows := Table.place r t.rows })
    | some column =>
      match mode with
      | .ignore => .ok (none, t)
      | .replace =>
        .ok (some r.id, { t with rows := Table.place r (t.rows.filter fun s => !t.clashes r s) })
      | _ => .error (.notUnique t.name column)

def insert (db : Database) (mode : Conflict) (table : String) (values : List (String × Cell)) :
    Except DatabaseFault (Option Int64 × Database) := do
  requireParameters values.length
  let t ← db.require table
  let given ← values.mapM fun (name, v) => do return (← requireTarget t name, v)
  db.requireParents t.columns
  let id ← newId t given
  let (done, t) ← insertRow t mode (t.withId id (newCells t given))
  return (done, ← (db.setTable t).requireConsistent)

/-- A row with the given assignments, of which the last one to a column counts. -/
def assign (t : Table) (given : List (Table.Target × Cell)) (r : Record) : Except DatabaseFault Record := do
  let cells := t.columns.zipIdx.map fun (c, i) =>
    match given.reverse.lookup (.column i c.storage) with
    | some v => v.convert c.storage
    | none => r.cells.getD i .null
  match (given.filter fun (target, _) => isId t target).getLast? with
  | none => return t.withId r.id cells
  | some (_, v) =>
    match v.rowId? with
    | some id => return t.withId id cells
    | none => throw (.noRowId t.name)

/-- Puts a changed row in the place of the row with the given id. -/
def reviseRow (t : Table) (id : Int64) (r : Record) : Except DatabaseFault Table :=
  let others := t.rows.filter (·.id != id)
  match t.missing? r with
  | some c => .error (.required t.name c.name)
  | none =>
    match t.shared? r others with
    | some column => .error (.notUnique t.name column)
    | none => .ok { t with rows := Table.place r others }

/-- Sets columns of the rows that meet all conditions, row by row in the order of their ids. The answer
is the number of these rows. -/
def update (db : Database) (q : Revision) : Except DatabaseFault (Nat × Database) := do
  requireSize (.update q)
  let t ← db.require q.table
  let given ← q.values.mapM fun (name, v) => do return (← requireTarget t name, v.cell)
  -- Only the references of columns that are set are looked at.
  db.requireParents (t.columns.zipIdx.filterMap fun (c, i) =>
    if given.any (·.1 = .column i c.storage) then some c else none)
  let matching := t.rows.filter (t.satisfies q.conditions)
  let t ← matching.foldlM (fun t r => do reviseRow t r.id (← assign t given r)) t
  return (matching.length, ← (db.setTable t).requireConsistent)

def delete (db : Database) (q : Removal) : Except DatabaseFault (Nat × Database) := do
  requireSize (.delete q)
  let t ← db.require q.table
  db.requireParents t.columns
  let kept := t.rows.filter fun r => !t.satisfies q.conditions r
  return (t.rows.length - kept.length, ← (db.setTable { t with rows := kept }).requireConsistent)

/-! ## Tables and indexes -/

/-- Whether a name is reserved for the tables of the database itself. -/
def isReserved (name : String) : Bool :=
  "sqlite_".toList.isPrefixOf (foldCase name)

/-- The first column whose name an earlier column bears. -/
def repeated? : List ColumnDefinition → Option ColumnDefinition
  | [] => none
  | c :: rest => (rest.find? (sameName ·.name c.name)).or (repeated? rest)

def addTable (db : Database) (d : TableDefinition) : Database :=
  { db with
    tables := db.tables ++ [{ definition := d }]
    sequence := db.sequence || d.columns.any (·.autoincrement) }

def createTable (db : Database) (d : TableDefinition) : Except DatabaseFault Database :=
  if isReserved d.name then .error (.reservedName d.name)
  -- A table of the name is kept whatever its columns are, so that these are not looked at.
  else if (db.table? d.name).isSome then .ok db
  else if db.indexes.any (sameName ·.name d.name) then .error (.indexNamed d.name)
  else
    match repeated? d.columns with
    | some c => .error (.repeatedColumn c.name)
    | none =>
      if maxColumns < d.columns.length then .error (.tooManyColumns d.name)
      else .ok (db.addTable d)

def createIndex (db : Database) (d : IndexDefinition) : Except DatabaseFault Database := do
  let _ ← db.require d.table
  if (db.table? d.name).isSome then throw (.tableNamed d.name)
  else if db.indexes.any (sameName ·.name d.name) then return db
  else return { db with indexes := db.indexes ++ [d] }

/-- The settings of a database, each of which can be read as a table of its own. -/
def settings : List String :=
  ["analysis_limit", "application_id", "auto_vacuum", "automatic_index", "busy_timeout", "cache_size",
    "cache_spill", "cell_size_check", "checkpoint_fullfsync", "collation_list", "compile_options",
    "count_changes", "data_version", "database_list", "default_cache_size", "defer_foreign_keys",
    "empty_result_callbacks", "encoding", "foreign_key_check", "foreign_key_list", "foreign_keys",
    "freelist_count", "full_column_names", "fullfsync", "function_list", "hard_heap_limit",
    "ignore_check_constraints", "index_info", "index_list", "index_xinfo", "integrity_check", "journal_mode",
    "journal_size_limit", "legacy_alter_table", "locking_mode", "max_page_count", "module_list", "optimize",
    "page_count", "page_size", "pragma_list", "query_only", "quick_check", "read_uncommitted",
    "recursive_triggers", "reverse_unordered_selects", "schema_version", "secure_delete",
    "short_column_names", "soft_heap_limit", "synchronous", "table_info", "table_list", "table_xinfo",
    "temp_store", "threads", "trusted_schema", "user_version", "writable_schema"]

/-- Whether a name stands for a table that every database has without its being created. -/
def isBuiltIn (name : String) : Bool :=
  ["sqlite_master", "sqlite_schema", "sqlite_temp_master", "sqlite_temp_schema", "json_each", "json_tree",
    "fts3tokenize", "dbstat"].any (sameName name) ||
    ("pragma_".toList.isPrefixOf (foldCase name) && settings.any fun s => sameName name ("pragma_" ++ s))

/-- Whether a name that no created table bears is that of a table which cannot be dropped. -/
def keeps (db : Database) (name : String) : Bool :=
  isBuiltIn name || (db.sequence && sameName name "sqlite_sequence")

/-- Drops a table with its rows and its indexes, if it exists. -/
def dropTable (db : Database) (name : String) : Except DatabaseFault Database :=
  if (db.table? name).isNone then
    if db.keeps name then .error (.keptTable name) else .ok db
  else
    requireConsistent { db with
      tables := db.tables.filter (!sameName ·.name name)
      indexes := db.indexes.filter (!sameName ·.table name) }

def define (db : Database) : Definition → Except DatabaseFault Database
  | .createTable d => db.createTable d
  | .createIndex d => db.createIndex d
  | .dropTable name => db.dropTable name

/-- Carries out definitions one after the other; if one is refused, none has any effect. -/
def defineAll (db : Database) (ds : List Definition) : Except DatabaseFault Database :=
  ds.foldlM define db

end Database

end Tabular
