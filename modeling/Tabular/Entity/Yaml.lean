import Tabular.Entity.Json
import Tabular.Yaml.Record

/-!
# Entities from YAML

The entities that the nodes of a YAML document describe. Fields with a default value may be left out.
-/

namespace Tabular

open Yaml

/-- What a field stands for, or what it stands for when it is left out. -/
def fieldOr {α : Type} (absent : Option α) (read : Node → Option α) : Option Node → Option α
  | none => absent
  | some n => read n

def Kind.ofYaml? (r : Reader) (n : Node) : Option Kind :=
  (r.word? n).bind Kind.ofName?

def Column.ofYaml? (r : Reader) (n : Node) : Option Column := do
  match ← r.fields? fieldNames n with
  | [name, kind, nullable, isKey, unique, indexed, references] =>
    return {
      name := ← fieldOr none r.text? name
      kind := ← fieldOr none (Kind.ofYaml? r) kind
      nullable := ← fieldOr (some false) r.flag? nullable
      isKey := ← fieldOr (some false) r.flag? isKey
      unique := ← fieldOr (some false) r.flag? unique
      indexed := ← fieldOr (some false) r.flag? indexed
      references := ← fieldOr (some none) r.optionalText? references }
  | _ => none

def Entity.ofYaml? (r : Reader) (n : Node) : Option Entity := do
  match ← r.fields? fieldNames n with
  | [name, table, autoincrement, columns] =>
    return {
      name := ← fieldOr none r.text? name
      table := ← fieldOr (some none) r.optionalText? table
      autoincrement := ← fieldOr (some false) r.flag? autoincrement
      columns := ← (← fieldOr none r.items? columns).mapM (Column.ofYaml? r) }
  | _ => none

end Tabular
