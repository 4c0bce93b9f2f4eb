import Tabular.Fault

/-!
# Rows of an entity

A row has one value per column of its entity. `encode` makes the row of an instance, which is known by
its fields only, and `fields` opens a row again. An autoincrement key that storage has not chosen yet
is the integer 0 in an instance and absent in a row.
-/

namespace Tabular

/-- The values of an instance, one per column in the order of the columns. -/
abbrev Row := List Value

/-- The key of an instance that has not been stored. -/
def unsetKey : Int64 := 0

/-- The opened row of an entity, whose values are read by column name. -/
structure Fields where
  entity : Entity
  values : Row
deriving DecidableEq

namespace Fields

def get (f : Fields) (column : String) : Except Fault Value :=
  match (f.entity.columnIndex? column).bind (f.values[·]?) with
  | some v => .ok v
  | none => .error (.missingField f.entity.name column)

def read (α : Type) [Reading α] (f : Fields) (column : String) : Except Fault α := do
  let v ← f.get column
  match Reading.read v with
  | some a => return a
  | none =>
    throw (.wrongKind f.entity.name column (((f.entity.column? column).map (·.kind)).getD .text) v)

end Fields

/-- How the instances of an entity are held in a type: which fields an instance has, and how one is
built from an opened row. -/
structure Mapping (α : Type) where
  name : String
  field : α → String → Option Value
  build : Fields → Except Fault α

namespace Entity

/-- Whether storage fills in the column at this position when it has no value. -/
def fillsKey (e : Entity) (key index : Nat) : Bool :=
  e.autoincrement && index == key

/-- Whether a column may hold a value. Only a nullable column and a key to be filled in hold nothing. -/
def accepts (e : Entity) (key index : Nat) (c : Column) (v : Value) : Bool :=
  match v.kind? with
  | none => c.nullable || e.fillsKey key index
  | some k => k = c.kind

def requireAccepted (e : Entity) (key index : Nat) (c : Column) (v : Value) : Except Fault Value :=
  if e.accepts key index c v then .ok v else .error (.wrongKind e.name c.name c.kind v)

def requireLength (e : Entity) (row : Row) : Except Fault Unit :=
  if row.length = e.columns.length then .ok ()
  else .error (.rowLength e.name e.columns.length row.length)

/-- A field as it stands in a row: an unset key becomes absent, and a negative key is refused. -/
def encodeKey (e : Entity) (key index : Nat) (c : Column) : Value → Except Fault Value
  | .integer n =>
    if e.fillsKey key index then
      if n = unsetKey then .ok .null
      else if n < 0 then .error (.badKey e.name c.kind .negative)
      else .ok (.integer n)
    else .ok (.integer n)
  | v => .ok v

def encodeField (e : Entity) (key : Nat) (field : String → Option Value) :
    Column × Nat → Except Fault Value
  | (c, index) =>
    match field c.name with
    | none => .error (.missingField e.name c.name)
    | some v => e.encodeKey key index c v >>= e.requireAccepted key index c

def encode (e : Entity) (field : String → Option Value) : Except Fault Row := do
  let key ← e.requireKey
  e.columns.zipIdx.mapM (e.encodeField key field)

/-- Opens a row: every value is checked against its column, and an absent key to be filled in is read
as unset. -/
def fields (e : Entity) (row : Row) : Except Fault Fields := do
  e.requireLength row
  let key ← e.requireKey
  let values ← (e.columns.zipIdx.zip row).mapM fun ((c, index), v) => e.requireAccepted key index c v
  if e.autoincrement && values[key]? = some .null then
    return ⟨e, values.set key (.integer unsetKey)⟩
  else
    return ⟨e, values⟩

def decode {α : Type} (e : Entity) (m : Mapping α) (row : Row) : Except Fault α :=
  e.fields row >>= m.build

/-- Puts the key that storage chose into a row whose key is absent. The answer tells whether the row
took it. -/
def assignKey (e : Entity) (row : Row) (key : Int64) : Except Fault (Bool × Row) := do
  e.requireLength row
  let index ← e.requireKey
  if e.autoincrement && row[index]? = some .null then
    return (true, row.set index (.integer key))
  else
    return (false, row)

end Entity

end Tabular
