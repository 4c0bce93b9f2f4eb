import Tabular.Sql.Statement
import Tabular.Database.Fault

/-!
# Limits of a database

A statement is refused, before anything else is looked at, when it binds too many parameters, when it names too many
columns, or when its conditions are nested too deeply once they are put together. A text of more than 10^9 bytes is
refused by an actual database too, and is not here.
-/

namespace Tabular

open Sql

/-- The depth of the expression that a test becomes. A list of one value is compared with this value, and an empty
list makes a constant. -/
def Test.depth : Test → Nat
  | .among [] | .notAmong [] => 1
  | .among [_] => 3
  | .notAmong [_] => 4
  | .notAmong _ => 3
  | _ => 2

/-- The lists of columns in a statement, each by what it is called and with its length. -/
def Sql.Statement.lists : Statement → List (String × Nat)
  | .select s => [("columns in result set", s.columns.length), ("terms in ORDER BY clause", s.order.length)]
  | .update r => [("columns in set list", r.values.length)]
  | _ => []

namespace Database

def maxParameters : Nat := 32766

/-- The largest number of columns of a table, and in a list of columns. -/
def maxColumns : Nat := 2000

def maxDepth : Nat := 1000

/-- The depth of conditions put together from the left. A test that no row passes is a constant that swallows
the others, so that only what stands before the first such test counts. -/
def depth (cs : List Condition) : Nat :=
  match cs.takeWhile (·.test != .among []) with
  | [] => 1
  | c :: rest => rest.foldl (fun d c => max d c.test.depth + 1) c.test.depth

def requireParameters (n : Nat) : Except DatabaseFault Unit :=
  if maxParameters < n then .error .tooManyParameters else .ok ()

def requireSize (st : Statement) : Except DatabaseFault Unit := do
  requireParameters st.params.length
  match st.lists.find? (maxColumns < ·.2) with
  | some (list, _) => throw (.tooManyTerms list)
  | none => if maxDepth < depth st.conditions then throw .tooDeep

end Database

end Tabular
