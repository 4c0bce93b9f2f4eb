import Tabular.Entity
import Tabular.Text.Blank
import Tabular.Text.Identifier

/-!
# Entities that can be stored

`Entity.Valid` says which entities a table can store. `Entity.violations` lists every rule that an
entity breaks, in the order in which the rules are read: the name, the columns as a whole, the table,
the columns one by one, and the key.
-/

namespace Tabular

/-- A rule that an entity breaks, by itself or beside the entities registered before it. -/
inductive Violation where
  | blankName
  | noColumns
  | badIdentifier (name : String)
  | duplicateColumn (name : String)
  | missingKey
  | severalKeys (names : List String)
  | nullableKey (name : String)
  | keyNotInteger (name : String)
  | tableTaken (table : String)
  | badReference (column table : String)
deriving DecidableEq

def Violation.message : Violation → String
  | blankName => "entity name cannot be empty"
  | noColumns => "entity must declare at least one column"
  | badIdentifier name => s!"invalid identifier '{name}': must match [A-Za-z_][A-Za-z0-9_]*"
  | duplicateColumn name => s!"duplicate column: {name}"
  | missingKey => "no column is marked as primary key"
  | severalKeys names => "multiple primary key columns: " ++ ", ".intercalate names
  | nullableKey name => s!"primary key column '{name}' cannot be nullable"
  | keyNotInteger name => s!"autoincrement requires an integer primary key, '{name}' is not"
  | tableTaken table => s!"table '{table}' is already mapped by another entity"
  | badReference column table => s!"column '{column}' references unknown or incompatible table '{table}'"

namespace Entity

open Text

structure Valid (e : Entity) : Prop where
  name : isBlank e.name = false
  columns : e.columns ≠ []
  table : isIdentifier e.tableName = true
  identifiers : ∀ c ∈ e.columns, isIdentifier c.name = true
  targets : ∀ c ∈ e.columns, ∀ t, c.references = some t → isIdentifier t = true
  distinct : (e.columns.map (·.name)).Nodup
  /-- Exactly one column is a key; it always has a value, an integer one if storage chooses it. -/
  key : ∃ k, e.columns.filter (·.isKey) = [k] ∧ k.nullable = false ∧
    (e.autoincrement = true → k.kind = .integer)

def nameViolations (name : String) : List Violation :=
  if isIdentifier name then [] else [.badIdentifier name]

/-- The faults of columns that stand after columns with the names `seen`. -/
def columnViolations (seen : List String) : List Column → List Violation
  | [] => []
  | c :: rest =>
    nameViolations c.name ++ (if c.name ∈ seen then [.duplicateColumn c.name] else []) ++
      (c.references.elim [] nameViolations) ++ columnViolations (c.name :: seen) rest

def keyViolations (autoincrement : Bool) : List Column → List Violation
  | [] => [.missingKey]
  | [k] =>
    (if k.nullable then [.nullableKey k.name] else []) ++
      (if autoincrement && k.kind ≠ .integer then [.keyNotInteger k.name] else [])
  | many => [.severalKeys (many.map (·.name))]

/-- Every rule that an entity breaks. An entity without a name or without columns is not looked at
any further. -/
def violations (e : Entity) : List Violation :=
  if isBlank e.name then [.blankName]
  else if e.columns = [] then [.noColumns]
  else
    nameViolations e.tableName ++ columnViolations [] e.columns ++
      keyViolations e.autoincrement (e.columns.filter (·.isKey))

end Entity

end Tabular
