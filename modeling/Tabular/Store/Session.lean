import Tabular.Database
import Tabular.Row
import Tabular.Store.Fault

/-!
# Sessions

A session is what is done with a database in a sequence of statements: each leaves a database behind,
also when the sequence stops with a fault.
-/

namespace Tabular

/-- What is done with a database, with an answer of type `α` or a fault. -/
abbrev Session (α : Type) := ExceptT StoreFault (StateM Database) α

namespace Session

/-- The answer of the mapping between entities and rows, which needs no database. -/
def mapped {α : Type} : Except Fault α → Session α
  | .ok a => pure a
  | .error f => throw (.mapping f)

def ask {α : Type} (question : Database → Except DatabaseFault α) : Session α := do
  match question (← get) with
  | .ok a => return a
  | .error f => throw (.database f)

/-- The answer of a statement, which changes the database unless it fails. -/
def execute {α : Type} (statement : Database → Except DatabaseFault (α × Database)) : Session α := do
  match statement (← get) with
  | .ok (a, db) =>
    set db
    return a
  | .error f => throw (.database f)

end Session

namespace Entity

def readCell (e : Entity) (c : Column) (v : Cell) : Except CellFault Value :=
  match c.kind, v with
  | _, .null => .ok .null
  | .integer, .integer n => .ok (.integer n)
  | .text, .text s => .ok (.text s)
  | .timestamp, .integer n =>
    match Timestamp.ofMillis? n.toInt with
    | some t => .ok (.timestamp t)
    | none => .error (.outOfRange e.name c.name n)
  | kind, v => .error (.wrongClass e.name c.name kind v)

def readCells (e : Entity) (cells : List Cell) : Except CellFault Row :=
  if cells.length = e.columns.length then (e.columns.zip cells).mapM fun (c, v) => e.readCell c v
  else .error (.wrongCount e.name e.columns.length cells.length)

/-- The instance that the cells of a row stand for. -/
def load {α : Type} (e : Entity) (m : Mapping α) (cells : List Cell) : Except StoreFault α := do
  let row ← (e.readCells cells).mapError .cell
  (e.decode m row).mapError .mapping

end Entity

end Tabular
