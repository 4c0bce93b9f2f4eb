import Tabular.Value

/-!
# Entities and their columns

An entity is a kind of object with a name, the table that stores its instances and an ordered list of
columns. Nothing here asks an entity to make sense: `Tabular.Entity.Validity` says which ones do.
-/

namespace Tabular

structure Column where
  /-- Told apart from the other columns by this name. -/
  name : String
  kind : Kind
  nullable : Bool := false
  /-- Whether the column identifies the instances. -/
  isKey : Bool := false
  /-- Whether no two rows share a value. -/
  unique : Bool := false
  /-- Whether the table keeps an index of the column. -/
  indexed : Bool := false
  /-- The table whose keys the column holds, when it stands for another instance. -/
  references : Option String := none
deriving DecidableEq

/-- A kind of object that a table stores. -/
structure Entity where
  name : String
  /-- The table, when it is not named like the entity. -/
  table : Option String := none
  /-- Whether storage chooses the keys of new instances. -/
  autoincrement : Bool := false
  columns : List Column := []
deriving DecidableEq

namespace Entity

def tableName (e : Entity) : String :=
  e.table.getD e.name

def keyIndex? (e : Entity) : Option Nat :=
  e.columns.findIdx? (·.isKey)

def key? (e : Entity) : Option Column :=
  e.columns.find? (·.isKey)

def columnIndex? (e : Entity) (name : String) : Option Nat :=
  e.columns.findIdx? (·.name = name)

def column? (e : Entity) (name : String) : Option Column :=
  e.columns.find? (·.name = name)

theorem getElem?_of_keyIndex? {e : Entity} {i : Nat} (h : e.keyIndex? = some i) :
    e.columns[i]? = e.key? := by
  obtain ⟨hi, hk, before⟩ := List.findIdx?_eq_some_iff_getElem.1 h
  rw [key?, List.getElem?_eq_getElem hi, eq_comm, List.find?_eq_some_iff_getElem]
  exact ⟨hk, i, hi, rfl, fun j hj => by simpa using before j hj⟩

end Entity

end Tabular
