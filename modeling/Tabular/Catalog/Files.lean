import Tabular.Catalog
import Tabular.Files

/-!
# Catalogs in files

A catalog is loaded from one file, whose format its extension tells, or from all the catalog files
of a directory, which are taken in the order of their names.
-/

namespace Tabular

open Text

namespace Format

def fileName? (path : String) : Option String :=
  match ((path.splitOn "/").filter fun name => name ≠ "" && name ≠ ".").getLast? with
  | some ".." => none
  | name => name

/-- What follows the last dot of a name. A dot at the front is a part of the name. -/
def extension? (name : String) : Option String :=
  match (name.splitOn ".").reverse with
  | last :: others => if others = [] ∨ others = [""] then none else some last
  | [] => none

def ofName? (name : String) : Option Format :=
  match extension? name with
  | some "yaml" => some .yaml
  | some "yml" => some .yaml
  | some "json" => some .json
  | _ => none

def ofPath (path : String) : Except CatalogFault Format :=
  match (fileName? path).bind ofName? with
  | some f => .ok f
  | none => .error (.unknownFormat path)

end Format

namespace Catalog

def badText : Format → CatalogFault
  | .yaml => .badYaml
  | .json => .badJson

/-- The catalog in a file. A directory can be opened but not read. -/
def load (files : Files) (path : String) : Except CatalogFault Catalog := do
  let format ← Format.ofPath path
  match files.open? path with
  | none => throw .unreadable
  | some .directory => throw (badText format)
  | some (.file content) => read format content

/-- Adds the entities of another catalog, which has to have the same version. -/
def merge (c d : Catalog) : Except CatalogFault Catalog :=
  if c.version = d.version then .ok { c with entities := c.entities ++ d.entities }
  else .error (.otherVersion c.version d.version)

/-- The catalog files among the files of a directory, in the order of their names. -/
def filesOf (files : Files) (p : Place) : List (Format × Content) :=
  (files.filesIn p).filterMap fun (name, content) => (Format.ofName? name).map fun f => (f, content)

def loadAll (files : Files) (directory : String) : Except CatalogFault Catalog :=
  match files.place? directory with
  | none => .error .unreadable
  | some p =>
    if !files.isDirectory p then .error .unreadable
    else
      match filesOf files p with
      | [] => .error (.noFiles directory)
      | (f, content) :: rest => do
        rest.foldlM (fun c (f, content) => read f content >>= c.merge) (← read f content)

/-- Writes a catalog to a file; the answer is the text and the files with it. -/
def save (c : Catalog) (files : Files) (path : String) : Except CatalogFault (String × Files) := do
  let text := c.write (← Format.ofPath path)
  match files.write? path (Content.ofString text) with
  | some files => return (text, files)
  | none => throw .unreadable

end Catalog

end Tabular
