import Tabular.Database
import Tabular.Digest.Sha256
import Tabular.Json.Reading

/-!
# Databases as files

The JSON form in which a database is kept in a file. An empty file holds an empty database.
-/

namespace Tabular

open Json Sql Text

/-- The whole number that a JSON value is. -/
def wholeOf? : Json → Option Int
  | .number literal => literal.toInt?
  | _ => none

def whole (n : Int) : Json :=
  .number (toString n)

def idOf? (j : Json) : Option Int64 :=
  (wholeOf? j).bind int64?

def textOf? : Json → Option String
  | .string s => s
  | _ => none

def flagOf? : Json → Option Bool
  | .bool b => some b
  | _ => none

def listOf? : Json → Option (List Json)
  | .array items => some items
  | _ => none

namespace Cell

/-- The bytes that pairs of hexadecimal digits stand for. -/
def bytesOf? : List Char → Option (List UInt8)
  | [] => some []
  | [_] => none
  | a :: b :: rest => do return UInt8.ofNat (← number? 16 [a, b]) :: (← bytesOf? rest)

def toJson : Cell → Json
  | null => .null
  | integer n => whole n.toInt
  | real r => .array [whole r.mantissa, whole r.exponent]
  | text s => Json.text s
  | blob bytes => .object [field "bytes" (Json.text (Digest.hexText bytes))]

def ofJson? : Json → Option Cell
  | .null => some null
  | .number literal => (idOf? (.number literal)).map integer
  | .array [m, e] => do return real ⟨← wholeOf? m, ← wholeOf? e⟩
  | .string s => s.map text
  | .object [(_, digits)] => do return blob (← bytesOf? (← textOf? digits).toList)
  | _ => none

end Cell

def columnToJson (c : ColumnDefinition) : Json :=
  .array [Json.text c.name, .bool (c.storage = .integer), .bool c.isKey, .bool c.autoincrement,
    .bool c.unique, .bool c.notNull, c.references.elim .null Json.text]

/-- The declared column that a JSON value describes. -/
def columnOfJson? : Json → Option ColumnDefinition
  | .array [name, isInteger, isKey, autoincrement, unique, notNull, references] => do
    return {
      name := ← textOf? name
      storage := if ← flagOf? isInteger then .integer else .text
      isKey := ← flagOf? isKey
      autoincrement := ← flagOf? autoincrement
      unique := ← flagOf? unique
      notNull := ← flagOf? notNull
      references := textOf? references }
  | _ => none

def Record.toJson (r : Record) : Json :=
  .array (whole r.id.toInt :: r.cells.map Cell.toJson)

def Record.ofJson? : Json → Option Record
  | .array (id :: cells) => do return ⟨← idOf? id, ← cells.mapM Cell.ofJson?⟩
  | _ => none

def Table.toJson (t : Table) : Json :=
  .array [Json.text t.name, .array (t.columns.map columnToJson), .array (t.rows.map Record.toJson),
    whole t.lastId.toInt]

def Table.ofJson? : Json → Option Table
  | .array [name, columns, rows, lastId] => do
    return {
      definition := ⟨← textOf? name, ← (← listOf? columns).mapM columnOfJson?⟩
      rows := ← (← listOf? rows).mapM Record.ofJson?
      lastId := ← idOf? lastId }
  | _ => none

namespace Database

def toJson (db : Database) : Json :=
  .object [
    field "tables" (.array (db.tables.map Table.toJson)),
    field "indexes" (.array (db.indexes.map fun d =>
      .array [Json.text d.name, Json.text d.table, Json.text d.column])),
    field "sequence" (.bool db.sequence)]

def indexOfJson? : Json → Option IndexDefinition
  | .array [name, table, column] => do return ⟨← textOf? name, ← textOf? table, ← textOf? column⟩
  | _ => none

def ofJson? : Json → Option Database
  | .object [(some "tables", tables), (some "indexes", indexes), (some "sequence", sequence)] => do
    return ⟨← (← listOf? tables).mapM Table.ofJson?, ← (← listOf? indexes).mapM indexOfJson?, ← flagOf? sequence⟩
  | _ => none

/-- The content of the file that a database is kept in. -/
def toContent (db : Database) : Content :=
  if db = {} then [] else Content.ofString db.toJson.compact

def ofContent? (c : Content) : Option Database :=
  if c = [] then some {} else (Json.parse c).bind ofJson?

end Database

end Tabular
