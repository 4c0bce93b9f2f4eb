import Tabular.Row

/-!
# Items

The entity that comes with the library: a text with the time at which it was created. An item keeps
its time to the millisecond, which is what storage keeps.
-/

namespace Tabular

@[ext]
structure Item where
  id : Int64
  content : String
  createdTime : Timestamp
deriving DecidableEq

namespace Item

/-- An item created at the given time, of which the part below a millisecond is dropped. -/
def new (id : Int64) (content : String) (createdTime : Timestamp) : Item :=
  ⟨id, content, createdTime.truncate⟩

def isStored (item : Item) : Bool :=
  item.id ≠ unsetKey

def entity : Entity where
  name := "Item"
  autoincrement := true
  columns := [
    { name := "id", kind := .integer, isKey := true },
    { name := "content", kind := .text },
    { name := "created_time", kind := .timestamp }]

def field (item : Item) : String → Option Value
  | "id" => some (.integer item.id)
  | "content" => some (.text item.content)
  | "created_time" => some (.timestamp item.createdTime)
  | _ => none

def build (f : Fields) : Except Fault Item := do
  let id ← f.read Int64 "id"
  let content ← f.read String "content"
  let createdTime ← f.read Timestamp "created_time"
  return new id content createdTime

def mapping : Mapping Item := ⟨"Item", field, build⟩

end Item

end Tabular
