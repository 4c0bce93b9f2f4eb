import Tabular.Fault

/-!
# Schemas

A schema is a list of entities that can be stored side by side: names and tables are distinct, and
a column that stands for an instance of another entity points to an earlier one, or to its own.
-/

namespace Tabular

/-- Entities in the order in which they were registered. -/
structure Schema where
  entities : List Entity := []
  /-- The position of every entity, under its name. -/
  index : List (String × Nat) := []
deriving DecidableEq

namespace Schema

def find? (s : Schema) (name : String) : Option Entity :=
  (s.index.lookup name).bind (s.entities[·]?)

def contains (s : Schema) (name : String) : Bool :=
  (s.index.lookup name).isSome

def describe (s : Schema) (name : String) : Except Fault Entity :=
  match s.find? name with
  | some e => .ok e
  | none => .error (.unknownEntity name)

/-- The entity that the table of the given name stores, seen from a new entity. -/
def target? (s : Schema) (e : Entity) (table : String) : Option Entity :=
  if table = e.tableName then some e else s.entities.find? (·.tableName = table)

/-- Whether a column refers to nothing, or to a table whose keys are of the column's kind. -/
def resolves (s : Schema) (e : Entity) (c : Column) : Bool :=
  match c.references with
  | none => true
  | some table => ((s.target? e table).bind (·.key?)).map (·.kind) = some c.kind

/-- Adds an entity. The name is looked at first, then the entity alone, then its table, and last what
its columns refer to. -/
def register (s : Schema) (e : Entity) : Except Fault Schema := do
  if s.contains e.name then throw (.duplicateEntity e.name)
  e.requireValid
  if s.entities.any (·.tableName = e.tableName) then
    throw (.invalidEntity e.name (.tableTaken e.tableName))
  match e.columns.find? (fun c => !s.resolves e c) with
  | some c => throw (.invalidEntity e.name (.badReference c.name (c.references.getD "")))
  | none => return ⟨s.entities ++ [e], (e.name, s.entities.length) :: s.index⟩

def ofEntities (es : List Entity) : Except Fault Schema :=
  es.foldlM register {}

end Schema

end Tabular
