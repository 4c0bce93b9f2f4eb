import Tabular.Value

/-!
# Conditions and queries

What rows are asked for: tests on single columns, all of which must hold, an order, and a page of the
result.
-/

namespace Tabular

inductive Comparison where
  | equal
  | notEqual
  | less
  | atMost
  | greater
  | atLeast
deriving DecidableEq

def Comparison.sign : Comparison → String
  | equal => "="
  | notEqual => "<>"
  | less => "<"
  | atMost => "<="
  | greater => ">"
  | atLeast => ">="

/-- What is asked of the value in a column. -/
inductive Test where
  | compare (op : Comparison) (v : Value)
  | among (vs : List Value)
  | notAmong (vs : List Value)
  | between (low high : Value)
  | isNull
  | isNotNull
deriving DecidableEq

namespace Test

def operator : Test → String
  | compare op _ => op.sign
  | among _ => "IN"
  | notAmong _ => "NOT IN"
  | between _ _ => "BETWEEN"
  | isNull => "IS NULL"
  | isNotNull => "IS NOT NULL"

/-- The values that a test compares with, in the order in which they are bound. -/
def operands : Test → List Value
  | compare _ v => [v]
  | among vs => vs
  | notAmong vs => vs
  | between low high => [low, high]
  | isNull => []
  | isNotNull => []

end Test

structure Condition where
  column : String
  test : Test
deriving DecidableEq

inductive Direction where
  | ascending
  | descending
deriving DecidableEq

def Direction.word : Direction → String
  | ascending => "ASC"
  | descending => "DESC"

/-- The part of a result that is wanted: at most `limit` rows after the first `offset`. -/
structure Page where
  limit : Option UInt32 := none
  offset : Option UInt32 := none
deriving DecidableEq

/-- A request for rows. Without an order, rows come in the order of their keys. -/
structure Query where
  conditions : List Condition := []
  order : List (String × Direction) := []
  page : Page := {}
deriving DecidableEq

/-- The same request for the first row only. -/
def Query.first (q : Query) : Query :=
  { q with page := { q.page with limit := some 1 } }

end Tabular
