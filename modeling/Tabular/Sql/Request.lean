import Tabular.Row
import Tabular.Sql.Statement

/-!
# The statements about an entity

Every request about the rows of an entity is a statement on its table, made here after the request has
been checked against the entity. A request that does not fit is refused, so that no value is ever bound
where a column of another kind stands.
-/

namespace Tabular

namespace Sql

/-- What can be asked about the rows of an entity. -/
inductive Request where
  | insert (mode : Conflict) (row : Row)
  | lookup (key : Value)
  | list
  | tallyAll
  | revise (row : Row)
  | remove (key : Value)
  | select (q : Query)
  | tally (conds : List Condition)
  | reviseWhere (values : List (String × Value)) (conds : List Condition)
  | removeWhere (conds : List Condition)
deriving DecidableEq

end Sql

namespace Entity

open Sql

/-- Refuses a key that is not of the kind of the key column; the answer is the key column. -/
def requireKeyValue (e : Entity) (key : Value) : Except Fault Column := do
  let index ← e.requireKey
  match e.columns[index]? with
  | none => throw (.invalidEntity e.name .missingKey)
  | some c =>
    if key.kind? = some c.kind then return c
    else throw (.badKey e.name c.kind (.wrongKind key))

/-- The columns and values of a row, less the one at the given position. -/
def valuesExcept (e : Entity) (index : Nat) (row : Row) : List (String × Value) :=
  ((e.columns.map (·.name)).zip row).eraseIdx index

/-- Adds a row. A key that storage is to choose is left out. -/
def insertion (e : Entity) (mode : Conflict) (row : Row) : Except Fault Insertion := do
  e.requireLength row
  let key ← e.requireKey
  if e.autoincrement && row[key]? = some .null then
    return ⟨mode, e.tableName, e.valuesExcept key row⟩
  else
    return ⟨mode, e.tableName, (e.columns.map (·.name)).zip row⟩

def lookup (e : Entity) (key : Value) : Except Fault Selection := do
  let c ← e.requireKeyValue key
  return ⟨e.tableName, e.columns.map (·.name), [⟨c.name, .compare .equal key⟩], [], {}⟩

/-- The order that rows come in when no other is asked for: the order of their keys. -/
def keyOrder (e : Entity) : Except Fault (List SortKey) := do
  let index ← e.requireKey
  return (e.columns[index]?.toList).map fun c => ⟨c.name, none⟩

def listing (e : Entity) : Except Fault Selection := do
  return ⟨e.tableName, e.columns.map (·.name), [], ← e.keyOrder, {}⟩

def tallyAll (e : Entity) : Tally :=
  ⟨e.tableName, []⟩

/-- Sets every column but the key in the row with the same key. An entity that consists of its key has
the key set to itself. -/
def revision (e : Entity) (row : Row) : Except Fault Revision := do
  e.requireLength row
  let index ← e.requireKey
  let key := (row[index]?).getD .null
  let c ← e.requireKeyValue key
  let values := match e.valuesExcept index row with
    | [] => [(c.name, key)]
    | values => values
  return ⟨e.tableName, values, [⟨c.name, .compare .equal key⟩]⟩

def removal (e : Entity) (key : Value) : Except Fault Removal := do
  let c ← e.requireKeyValue key
  return ⟨e.tableName, [⟨c.name, .compare .equal key⟩]⟩

def requireOperand (e : Entity) (c : Column) (v : Value) : Except Fault Unit :=
  if v.kind? = some c.kind then .ok () else .error (.wrongKind e.name c.name c.kind v)

/-- Refuses a condition on an unknown column or with a value of another kind. -/
def requireCondition (e : Entity) (cond : Condition) : Except Fault Condition := do
  let c ← e.requireColumn cond.column
  cond.test.operands.forM (e.requireOperand c)
  return cond

def requireConditions (e : Entity) (conds : List Condition) : Except Fault (List Condition) :=
  conds.mapM e.requireCondition

def sortKey (e : Entity) : String × Direction → Except Fault SortKey
  | (column, d) => do
    let c ← e.requireColumn column
    return ⟨c.name, some d⟩

def sortKeys (e : Entity) : List (String × Direction) → Except Fault (List SortKey)
  | [] => e.keyOrder
  | order => order.mapM e.sortKey

def selection (e : Entity) (q : Query) : Except Fault Selection := do
  let conds ← e.requireConditions q.conditions
  let order ← e.sortKeys q.order
  return ⟨e.tableName, e.columns.map (·.name), conds, order, q.page⟩

def tally (e : Entity) (conds : List Condition) : Except Fault Tally := do
  return ⟨e.tableName, ← e.requireConditions conds⟩

/-- Refuses an assignment to an unknown column, to the key, or of a value that the column may not hold. -/
def requireAssignment (e : Entity) (key : Nat) : String × Value → Except Fault (String × Value)
  | (column, v) => do
    let c ← e.requireColumn column
    if (e.columns[key]?).map (·.name) = some c.name then throw (.badQuery e.name (.keyAssigned c.name))
    unless v.isNull && c.nullable do e.requireOperand c v
    return (c.name, v)

def revisionWhere (e : Entity) (values : List (String × Value)) (conds : List Condition) :
    Except Fault Revision := do
  if values.isEmpty then throw (.badQuery e.name .nothingToAssign)
  let key ← e.requireKey
  let values ← values.mapM (e.requireAssignment key)
  return ⟨e.tableName, values, ← e.requireConditions conds⟩

def removalWhere (e : Entity) (conds : List Condition) : Except Fault Removal := do
  return ⟨e.tableName, ← e.requireConditions conds⟩

def statement (e : Entity) : Request → Except Fault Statement
  | .insert mode row => .insert <$> e.insertion mode row
  | .lookup key => .select <$> e.lookup key
  | .list => .select <$> e.listing
  | .tallyAll => .ok (.count e.tallyAll)
  | .revise row => .update <$> e.revision row
  | .remove key => .delete <$> e.removal key
  | .select q => .select <$> e.selection q
  | .tally conds => .count <$> e.tally conds
  | .reviseWhere values conds => .update <$> e.revisionWhere values conds
  | .removeWhere conds => .delete <$> e.removalWhere conds

def prepare (e : Entity) (r : Request) : Except Fault Prepared :=
  Statement.prepare <$> e.statement r

end Entity

end Tabular
