import Tabular.Entity
import Tabular.Json.Reading

/-!
# Entities as JSON

The JSON form of entities. What has its default value is left out when an entity is written and may be
left out when one is read.
-/

namespace Tabular

open Json

/-- A flag that is written only when it is set. -/
def flagField (name : String) (b : Bool) : List (Option String × Json) :=
  if b then [field name (.bool true)] else []

/-- A text that is written only when there is one. -/
def textField (name : String) : Option String → List (Option String × Json)
  | some s => [field name (text s)]
  | none => []

def requiredText : Option Json → Option String
  | some (.string s) => s
  | _ => none

/-- The flag that a field holds; without the field it is not set. -/
def optionalFlag : Option Json → Option Bool
  | none => some false
  | some (.bool b) => some b
  | _ => none

/-- The text that a field holds, if it holds one. -/
def optionalText : Option Json → Option (Option String)
  | none => some none
  | some .null => some none
  | some (.string (some s)) => some (some s)
  | _ => none

def requiredItems : Option Json → Option (List Json)
  | some (.array items) => some items
  | _ => none

/-- The kind that a value names: by a string, or by the name of a member without a value. -/
def Kind.ofJson? : Option Json → Option Kind
  | some (.string s) => s.bind Kind.ofName?
  | some (.object [(some name, .null)]) => Kind.ofName? name
  | _ => none

namespace Column

def fieldNames : List String :=
  ["name", "type", "nullable", "primary_key", "unique", "indexed", "references"]

def toJson (c : Column) : Json :=
  .object ([field "name" (text c.name), field "type" (text c.kind.name)] ++
    flagField "nullable" c.nullable ++ flagField "primary_key" c.isKey ++
    flagField "unique" c.unique ++ flagField "indexed" c.indexed ++
    textField "references" c.references)

def ofJson? (j : Json) : Option Column := do
  match ← fields? fieldNames j with
  | [name, kind, nullable, isKey, unique, indexed, references] =>
    return {
      name := ← requiredText name
      kind := ← Kind.ofJson? kind
      nullable := ← optionalFlag nullable
      isKey := ← optionalFlag isKey
      unique := ← optionalFlag unique
      indexed := ← optionalFlag indexed
      references := ← optionalText references }
  | _ => none

end Column

namespace Entity

def fieldNames : List String :=
  ["name", "table", "autoincrement", "columns"]

def toJson (e : Entity) : Json :=
  .object ([field "name" (text e.name)] ++ textField "table" e.table ++
    flagField "autoincrement" e.autoincrement ++
    [field "columns" (.array (e.columns.map Column.toJson))])

def ofJson? (j : Json) : Option Entity := do
  match ← fields? fieldNames j with
  | [name, table, autoincrement, columns] =>
    return {
      name := ← requiredText name
      table := ← optionalText table
      autoincrement := ← optionalFlag autoincrement
      columns := ← (← requiredItems columns).mapM Column.ofJson? }
  | _ => none

/-- The text by which two entities are told apart. -/
def canonical (e : Entity) : String :=
  e.toJson.compact

end Entity

end Tabular
