import Tabular.Timestamp

/-!
# Values and their kinds

What a column of an entity may hold: nothing, a 64-bit integer, a text or a point in time. `Reading`
collects the types that a value may be read as.
-/

namespace Tabular

inductive Kind where
  | integer
  | text
  | timestamp
deriving DecidableEq, Repr

namespace Kind

/-- The name of a kind in catalogs and in messages. -/
def name : Kind → String
  | integer => "integer"
  | text => "text"
  | timestamp => "timestamp"

def ofName? : String → Option Kind
  | "integer" => some integer
  | "text" => some text
  | "timestamp" => some timestamp
  | _ => none

@[simp]
theorem ofName?_name (k : Kind) : ofName? k.name = some k := by
  cases k <;> rfl

end Kind

inductive Value where
  | null
  | integer (n : Int64)
  | text (s : String)
  | timestamp (t : Timestamp)
deriving DecidableEq

namespace Value

/-- The kind of a value; nothing has none. -/
def kind? : Value → Option Kind
  | null => none
  | integer _ => some .integer
  | text _ => some .text
  | timestamp _ => some .timestamp

def kindName (v : Value) : String :=
  (v.kind?.map Kind.name).getD "null"

def isNull : Value → Bool
  | null => true
  | _ => false

def integer? : Value → Option Int64
  | integer n => some n
  | _ => none

def text? : Value → Option String
  | text s => some s
  | _ => none

def timestamp? : Value → Option Timestamp
  | timestamp t => some t
  | _ => none

@[simp]
theorem isNull_iff {v : Value} : v.isNull = true ↔ v = null := by
  cases v <;> simp [isNull]

theorem kind?_eq_none {v : Value} : v.kind? = none ↔ v = null := by
  cases v <;> simp [kind?]

end Value

/-- A type whose members may be read from values and written as values. -/
class Reading (α : Type) where
  /-- The member a value stands for, if it is of the right kind. -/
  read : Value → Option α
  /-- The value that stands for a member. -/
  value : α → Value

instance : Reading Int64 := ⟨Value.integer?, .integer⟩

instance : Reading String := ⟨Value.text?, .text⟩

instance : Reading Timestamp := ⟨Value.timestamp?, .timestamp⟩

instance : Reading Value := ⟨some, id⟩

/-- An absent value is read as `none`, and any other as its member. -/
instance {α : Type} [Reading α] : Reading (Option α) where
  read
    | .null => some none
    | v => (Reading.read v).map some
  value
    | none => .null
    | some a => Reading.value a

end Tabular
