import Tabular.Schema
import Tabular.Entity.Json
import Tabular.Entity.Yaml
import Tabular.Digest.Sha256
import Tabular.Yaml.Writing

/-!
# Catalogs

A catalog is a list of entities with a version, kept as a text in one of two formats. Its fingerprint
depends on the entities only.
-/

namespace Tabular

open Text

/-- A list of entities with the version that its author gave it. -/
structure Catalog where
  version : String
  entities : List Entity := []
deriving DecidableEq

/-- Why a catalog cannot be loaded, saved or used. -/
inductive CatalogFault where
  | unreadable
  | badJson
  | badYaml
  | mapping (f : Fault)
  | unknownFormat (path : String)
  | blankVersion
  | otherVersion (expected found : String)
  | noFiles (directory : String)
deriving DecidableEq

def CatalogFault.message : CatalogFault → String
  | unreadable => "I/O error: the file cannot be accessed"
  | badJson => "JSON error: the text is no catalog"
  | badYaml => "YAML error: the text is no catalog"
  | mapping f => s!"mapping error: {f.message}"
  | unknownFormat path => s!"unsupported catalog format: {path}"
  | blankVersion => "catalog version cannot be empty"
  | otherVersion expected found => s!"catalog version mismatch: expected '{expected}', found '{found}'"
  | noFiles directory => s!"no catalog files found in {directory}"

inductive Format where
  | yaml
  | json
deriving DecidableEq

namespace Catalog

def schema (c : Catalog) : Except CatalogFault Schema :=
  (Schema.ofEntities c.entities).mapError .mapping

/-- The text that the fingerprint is made of. -/
def canonical (entities : List Entity) : String :=
  (Json.array (entities.map Entity.toJson)).compact

def fingerprint (c : Catalog) : String :=
  Digest.hexText (Digest.sha256 (canonical c.entities).toUTF8.toList)

def fieldNames : List String :=
  ["version", "entities"]

def toJson (c : Catalog) : Json :=
  .object [Json.field "version" (Json.text c.version),
    Json.field "entities" (.array (c.entities.map Entity.toJson))]

def ofJson? (j : Json) : Option Catalog := do
  match ← Json.fields? fieldNames j with
  | [version, entities] =>
    let items ← match entities with
      | none => some []
      | some j => requiredItems (some j)
    return ⟨← requiredText version, ← items.mapM Entity.ofJson?⟩
  | _ => none

/-- The catalog that the root of a YAML document describes. -/
def ofYaml? (root : Yaml.Node) : Option Catalog := do
  let r : Yaml.Reader := ⟨root⟩
  match ← r.fields? fieldNames root with
  | [version, entities] =>
    let items ← fieldOr (some []) r.items? entities
    return ⟨← fieldOr none r.text? version, ← items.mapM (Entity.ofYaml? r)⟩
  | _ => none

def requireVersion (c : Catalog) : Except CatalogFault Catalog :=
  if isBlank c.version then .error .blankVersion else .ok c

/-- The catalog in a text of the given format. The version is looked at last. -/
def read (f : Format) (content : Content) : Except CatalogFault Catalog :=
  match f with
  | .yaml =>
    match (content.text?.bind Yaml.parse).bind ofYaml? with
    | some c => c.requireVersion
    | none => .error .badYaml
  | .json =>
    match (Json.parse content).bind ofJson? with
    | some c => c.requireVersion
    | none => .error .badJson

def write (c : Catalog) : Format → String
  | .yaml => Yaml.write c.toJson
  | .json => c.toJson.pretty

end Catalog

end Tabular
