import Tabular.Sql.Statement
import Tabular.Database.Cell
import Tabular.Database.Fault
import Tabular.Text.Identifier

/-!
# Tables

A table is a list of rows in the order of their row ids. An integer key is the row id itself; a table with
another key gives its rows ids that no column shows. Names that differ in case only are the same name.
-/

namespace Tabular

open Sql Text

/-- A row with its id; an integer key has the id in its cell too. -/
structure Record where
  id : Int64
  cells : List Cell
deriving DecidableEq

structure Table where
  definition : TableDefinition
  /-- The rows in the order of their ids. -/
  rows : List Record := []
  /-- The largest id ever used, when ids are never used again. -/
  lastId : Int64 := 0
deriving DecidableEq

namespace Table

def name (t : Table) : String :=
  t.definition.name

def columns (t : Table) : List ColumnDefinition :=
  t.definition.columns

/-- The position of the column that is the row id. -/
def idIndex? (t : Table) : Option Nat :=
  t.columns.findIdx? fun c => c.isKey && c.storage = .integer

/-- Whether row ids are never used again. -/
def neverReuses (t : Table) : Bool :=
  t.columns.any (·.autoincrement)

def idName (t : Table) : String :=
  ((t.idIndex?.bind (t.columns[·]?)).map (·.name)).getD "rowid"

inductive Target where
  | column (index : Nat) (storage : Storage)
  | rowId
deriving DecidableEq

/-- The names of the row id, unless a column has the name. -/
def isRowIdName (name : String) : Bool :=
  ["rowid", "_rowid_", "oid"].any (sameName name)

def target? (t : Table) (name : String) : Option Target :=
  match t.columns.findIdx? (sameName ·.name name) with
  | some i => (t.columns[i]?).map fun c => .column i c.storage
  | none => if isRowIdName name then some .rowId else none

/-- The cell that a name stands for in a row. A name of nothing stands for its own text. -/
def cell (t : Table) (name : String) (r : Record) : Cell :=
  match t.target? name with
  | some (.column i _) => r.cells.getD i .null
  | some .rowId => .integer r.id
  | none => .text name

def operand (t : Table) (name : String) (v : Value) : Cell :=
  match t.target? name with
  | some (.column _ s) => v.cell.convert s
  | some .rowId => v.cell.convert .integer
  | none => v.cell

/-! ## Conditions -/

def meets (op : Comparison) (o : Ordering) : Bool :=
  match op with
  | .equal => o == .eq
  | .notEqual => o != .eq
  | .less => o == .lt
  | .atMost => o != .gt
  | .greater => o == .gt
  | .atLeast => o != .lt

/-- Whether a comparison holds; none holds of an absent value. -/
def holdsOf (op : Comparison) (a b : Cell) : Bool :=
  a != .null && b != .null && meets op (a.order b)

/-- Whether a row passes a test. Nothing is among no values, and everything is outside of them. -/
def passes (t : Table) (c : Condition) (r : Record) : Bool :=
  let a := t.cell c.column r
  let operand := t.operand c.column
  match c.test with
  | .compare op v => holdsOf op a (operand v)
  | .among vs => vs.any fun v => holdsOf .equal a (operand v)
  | .notAmong vs => vs.all fun v => holdsOf .notEqual a (operand v)
  | .between low high => holdsOf .atLeast a (operand low) && holdsOf .atMost a (operand high)
  | .isNull => a == .null
  | .isNotNull => a != .null

def satisfies (t : Table) (cs : List Condition) (r : Record) : Bool :=
  cs.all fun c => t.passes c r

def orderBy (t : Table) (k : SortKey) (r s : Record) : Ordering :=
  let o := (t.cell k.column r).order (t.cell k.column s)
  if k.direction = some .descending then o.swap else o

def orderByAll (t : Table) : List SortKey → Record → Record → Ordering
  | [], _, _ => .eq
  | k :: ks, r, s => (t.orderBy k r s).then (t.orderByAll ks r s)

/-- Rows in the order of the sort keys; rows that no key tells apart keep their order. -/
def sort (t : Table) (ks : List SortKey) (rows : List Record) : List Record :=
  rows.mergeSort fun r s => t.orderByAll ks r s != .gt

/-! ## Constraints -/

/-- The positions and the definitions of the columns whose cells tell rows apart, the last declared
column first. -/
def distinguishing (t : Table) : List (Nat × ColumnDefinition) :=
  ((t.columns.zipIdx.filter fun (c, i) => (c.isKey || c.unique) && t.idIndex? != some i).map
    fun (c, i) => (i, c)).reverse

def sharesAt (i : Nat) (r s : Record) : Bool :=
  (r.cells.getD i .null).same (s.cells.getD i .null)

def missing? (t : Table) (r : Record) : Option ColumnDefinition :=
  ((t.columns.zip r.cells).find? fun (c, v) => c.notNull && v == .null).map (·.1)

/-- What a new row shares with one of the given rows: the row id before any column. -/
def shared? (t : Table) (r : Record) (rows : List Record) : Option String :=
  if rows.any (·.id == r.id) then some t.idName
  else (t.distinguishing.find? fun (i, _) => rows.any (sharesAt i r)).map (·.2.name)

def clashes (t : Table) (r s : Record) : Bool :=
  s.id == r.id || t.distinguishing.any fun (i, _) => sharesAt i r s

def place (r : Record) : List Record → List Record
  | [] => [r]
  | s :: rest => if r.id < s.id then r :: s :: rest else s :: place r rest

def largestId? (t : Table) : Option Int64 :=
  t.rows.getLast?.map (·.id)

/-- An id that no row has, out of the way of small ones. -/
def unusedId (t : Table) : Int64 :=
  -- The rows stand in the order of their ids, so that one pass is enough.
  t.rows.foldl (fun id r => if r.id = id then id + 1 else id) (Int64.maxValue / 4)

/-- The id that a new row is given: the one after the largest, and after the largest ever used if ids are
never used again. When there is none after the largest, ids that may be used again are. -/
def nextId (t : Table) : Except DatabaseFault Int64 :=
  let largest := t.largestId?
  let next := (largest.map (· + 1)).getD 1
  if t.neverReuses then
    if largest = some Int64.maxValue ∨ t.lastId = Int64.maxValue then .error .outOfRowIds
    else .ok (max next (t.lastId + 1))
  else .ok (if largest = some Int64.maxValue then t.unusedId else next)

/-- The cells of a row with the id in the cell of an integer key. -/
def withId (t : Table) (id : Int64) (cells : List Cell) : Record :=
  match t.idIndex? with
  | some i => ⟨id, cells.set i (.integer id)⟩
  | none => ⟨id, cells⟩

end Table

end Tabular
