import Tabular.Schema
import Tabular.Sql.Request
import Tabular.Store.Session

/-!
# Stores

The operations on the instances of the entities of a schema. Each looks the entity up, checks its
request against it and only then turns to the database.
-/

namespace Tabular.Store

open Sql Session

variable {α : Type} (s : Schema) (m : Mapping α)

def entity : Session Entity :=
  mapped (s.describe m.name)

/-- Adds the row of an insertion. The answer is its id, unless it was dropped. -/
def addRow (i : Insertion) : Session (Option Int64) :=
  execute fun db => db.insert i.mode i.table (i.values.map fun (column, v) => (column, v.cell))

def loadAll (e : Entity) (q : Selection) : Session (List α) := do
  let rows ← ask (·.select q)
  match rows.mapM (e.load m) with
  | .ok instances => return instances
  | .error f => throw f

/-- Adds an instance. A row that breaks a constraint is dealt with as the mode says; the answer is
the row id, unless the row was dropped. -/
def insertWith (a : α) (mode : Conflict) : Session (Option Int64) := do
  let e ← entity s m
  let row ← mapped (e.encode (m.field a))
  addRow (← mapped (e.insertion mode row))

/-- Adds an instance; the answer is its row id. -/
def insert (a : α) : Session Int64 := do
  return (← insertWith s m a .unspecified).getD 0

/-- Adds an instance; the answer is the instance with the key that it was stored under. -/
def persist (a : α) : Session α := do
  let e ← entity s m
  let row ← mapped (e.encode (m.field a))
  let id ← addRow (← mapped (e.insertion .unspecified row))
  let (_, row) ← mapped (e.assignKey row (id.getD 0))
  mapped (e.decode m row)

def find (key : Value) : Session (Option α) := do
  let e ← entity s m
  let rows ← ask (·.select (← mapped (e.lookup key)))
  match rows.getLast? with
  | none => return none
  | some cells =>
    match e.load m cells with
    | .ok a => return some a
    | .error f => throw f

/-- The instance that a column of another instance stands for. -/
def findReferenced {β : Type} (a : α) (column : String) (target : Mapping β) : Session (Option β) := do
  let e ← entity s m
  let parent ← entity s target
  let c ← mapped (e.requireColumn column)
  if c.references ≠ some parent.tableName then
    throw (.mapping (.badQuery e.name (.notReferencing column parent.tableName)))
  match m.field a column with
  | some .null => return none
  | some key => find s target key
  | none => throw (.mapping (.missingField e.name column))

def all : Session (List α) := do
  let e ← entity s m
  loadAll m e (← mapped e.listing)

def select (q : Query) : Session (List α) := do
  let e ← entity s m
  loadAll m e (← mapped (e.selection q))

def first (q : Query) : Session (Option α) := do
  return (← select s m q.first).head?

def count : Session Nat := do
  let e ← entity s m
  ask (·.count e.tallyAll)

def countWhere (cs : List Condition) : Session Nat := do
  let e ← entity s m
  ask (·.count (← mapped (e.tally cs)))

/-- Stores an instance in the row with its key; the answer is the number of such rows. -/
def update (a : α) : Session Nat := do
  let e ← entity s m
  let row ← mapped (e.encode (m.field a))
  execute (·.update (← mapped (e.revision row)))

def updateWhere (values : List (String × Value)) (cs : List Condition) : Session Nat := do
  let e ← entity s m
  execute (·.update (← mapped (e.revisionWhere values cs)))

/-- Deletes the instance with the given key; the answer is the number of instances deleted. -/
def delete (key : Value) : Session Nat := do
  let e ← entity s m
  execute (·.delete (← mapped (e.removal key)))

def deleteWhere (cs : List Condition) : Session Nat := do
  let e ← entity s m
  execute (·.delete (← mapped (e.removalWhere cs)))

end Tabular.Store
