import Tabular.Condition
import Tabular.Sql.Quoted

/-!
# Statements

What the store asks of a database: five forms of statement on one table. Each is written as a text
in which values never occur: a value is bound to a numbered placeholder, and the values are handed over
beside the text in the order of their placeholders.
-/

namespace Tabular.Sql

inductive Conflict where
  | unspecified
  | abort
  | fail
  | ignore
  | replace
  | rollback
deriving DecidableEq

def Conflict.clause : Conflict → String
  | unspecified => ""
  | abort => " OR ABORT"
  | fail => " OR FAIL"
  | ignore => " OR IGNORE"
  | replace => " OR REPLACE"
  | rollback => " OR ROLLBACK"

/-- Adds one row that holds the given values, and nothing in the columns not named. -/
structure Insertion where
  mode : Conflict
  table : String
  values : List (String × Value)
deriving DecidableEq

/-- A column to sort by; no direction is written for the order that needs none. -/
structure SortKey where
  column : String
  direction : Option Direction
deriving DecidableEq

structure Selection where
  table : String
  columns : List String
  conditions : List Condition
  order : List SortKey
  page : Page
deriving DecidableEq

structure Tally where
  table : String
  conditions : List Condition
deriving DecidableEq

structure Revision where
  table : String
  values : List (String × Value)
  conditions : List Condition
deriving DecidableEq

structure Removal where
  table : String
  conditions : List Condition
deriving DecidableEq

/-- A statement on the rows of one table. -/
inductive Statement where
  | insert (i : Insertion)
  | select (s : Selection)
  | count (t : Tally)
  | update (r : Revision)
  | delete (r : Removal)
deriving DecidableEq

/-- A text with numbered placeholders, and the values that are bound to them in their order. -/
structure Prepared where
  sql : String
  params : List Value
deriving DecidableEq

def placeholder (n : Nat) : String :=
  "?" ++ toString n

/-- Placeholders for `count` values, of which the first has the number `start`. -/
def placeholders (start count : Nat) : String :=
  ", ".intercalate ((List.range' start count).map placeholder)

def nameList (names : List String) : String :=
  ", ".intercalate (names.map Quoted.quote)

/-- The text of a condition whose first value has the placeholder with the number `next`. -/
def Condition.sql (next : Nat) (c : Condition) : String :=
  let subject := Quoted.quote c.column ++ " " ++ c.test.operator
  match c.test with
  | .compare _ _ => subject ++ " " ++ placeholder next
  | .among vs => subject ++ " (" ++ placeholders next vs.length ++ ")"
  | .notAmong vs => subject ++ " (" ++ placeholders next vs.length ++ ")"
  | .between _ _ => subject ++ " " ++ placeholder next ++ " AND " ++ placeholder (next + 1)
  | .isNull => subject
  | .isNotNull => subject

/-- The texts of conditions whose values are bound after `params`, and all values that are bound then. -/
def predicates (params : List Value) : List Condition → List String × List Value
  | [] => ([], params)
  | c :: rest =>
    let later := predicates (params ++ c.test.operands) rest
    (Condition.sql (params.length + 1) c :: later.1, later.2)

/-- The clause that restricts a statement to some rows; without conditions there is none. -/
def whereClause (params : List Value) (cs : List Condition) : Prepared :=
  let tests := predicates params cs
  ⟨if tests.1.isEmpty then "" else " WHERE " ++ " AND ".intercalate tests.1, tests.2⟩

/-- The texts of assignments whose values are bound after `params`, and all values that are bound then. -/
def assignments (params : List Value) : List (String × Value) → List String × List Value
  | [] => ([], params)
  | (column, v) :: rest =>
    let params := params ++ [v]
    let later := assignments params rest
    ((Quoted.quote column ++ " = " ++ placeholder params.length) :: later.1, later.2)

def SortKey.sql (k : SortKey) : String :=
  match k.direction with
  | none => Quoted.quote k.column
  | some d => Quoted.quote k.column ++ " " ++ d.word

def orderClause (keys : List SortKey) : String :=
  if keys.isEmpty then "" else " ORDER BY " ++ ", ".intercalate (keys.map SortKey.sql)

def rowCount (n : UInt32) : Value :=
  .integer (Int64.ofNat n.toNat)

/-- The clause that cuts a page out of a result, whose numbers are bound after `params`. An offset is
written with the limit that cuts nothing off when no limit is given. -/
def pageClause (params : List Value) (p : Page) : Prepared :=
  match p.limit, p.offset with
  | none, none => ⟨"", params⟩
  | some l, none =>
    let params := params ++ [rowCount l]
    ⟨" LIMIT " ++ placeholder params.length, params⟩
  | some l, some o =>
    let limited := params ++ [rowCount l]
    let params := limited ++ [rowCount o]
    ⟨" LIMIT " ++ placeholder limited.length ++ " OFFSET " ++ placeholder params.length, params⟩
  | none, some o =>
    let params := params ++ [rowCount o]
    ⟨" LIMIT -1 OFFSET " ++ placeholder params.length, params⟩

def rowClause (values : List (String × Value)) : Prepared :=
  let params := values.map (·.2)
  if values.isEmpty then ⟨" DEFAULT VALUES", params⟩
  else
    ⟨" (" ++ nameList (values.map (·.1)) ++ ") VALUES (" ++ placeholders 1 params.length ++ ")", params⟩

def Insertion.prepare (i : Insertion) : Prepared :=
  let row := rowClause i.values
  ⟨"INSERT" ++ i.mode.clause ++ " INTO " ++ Quoted.quote i.table ++ row.sql, row.params⟩

def Selection.prepare (s : Selection) : Prepared :=
  let filter := whereClause [] s.conditions
  let page := pageClause filter.params s.page
  ⟨"SELECT " ++ nameList s.columns ++ " FROM " ++ Quoted.quote s.table ++ filter.sql ++
    orderClause s.order ++ page.sql, page.params⟩

def Tally.prepare (t : Tally) : Prepared :=
  let filter := whereClause [] t.conditions
  ⟨"SELECT COUNT(*) FROM " ++ Quoted.quote t.table ++ filter.sql, filter.params⟩

/-- An update as it is handed to a database. The assigned values are bound first. -/
def Revision.prepare (r : Revision) : Prepared :=
  let sets := assignments [] r.values
  let filter := whereClause sets.2 r.conditions
  ⟨"UPDATE " ++ Quoted.quote r.table ++ " SET " ++ ", ".intercalate sets.1 ++ filter.sql, filter.params⟩

def Removal.prepare (r : Removal) : Prepared :=
  let filter := whereClause [] r.conditions
  ⟨"DELETE FROM " ++ Quoted.quote r.table ++ filter.sql, filter.params⟩

namespace Statement

def prepare : Statement → Prepared
  | insert i => i.prepare
  | select s => s.prepare
  | count t => t.prepare
  | update r => r.prepare
  | delete r => r.prepare

def sql (s : Statement) : String :=
  s.prepare.sql

/-- The values that are bound to the placeholders of a statement. -/
def params (s : Statement) : List Value :=
  s.prepare.params

def conditions : Statement → List Condition
  | insert _ => []
  | select s => s.conditions
  | count t => t.conditions
  | update r => r.conditions
  | delete r => r.conditions

end Statement

end Tabular.Sql
