import Tabular.Sql.Statement
import Tabular.Sql.Token

/-!
# Reading statements

The statement that a text with bound parameters stands for. Each part of a statement is read from the
front of a list of tokens and hands on the tokens after it; a placeholder is read as the parameter that
its number points to.
-/

namespace Tabular.Sql.Reading

/-- What reads a part of a statement at the front of some tokens. -/
abbrev Reader (α : Type) := List Token → Option (α × List Token)

/-- The token that has to come next. -/
def expect (t : Token) : Reader Unit
  | [] => none
  | u :: rest => if u = t then some ((), rest) else none

def name : Reader String
  | .name s :: rest => some (s, rest)
  | _ => none

/-- As many items as there are, with a separator between any two. -/
def items {α : Type} (item : Reader α) (separator : Token) (ts : List Token) : List α × List Token :=
  match item ts with
  | none => ([], ts)
  | some (a, []) => ([a], [])
  | some (a, t :: rest) =>
    if t = separator ∧ rest.length < ts.length then
      let (as, after) := items item separator rest
      (a :: as, after)
    else ([a], t :: rest)
termination_by ts.length
decreasing_by omega

def enclosed {α : Type} (item : Reader α) : Reader (List α) := fun ts => do
  let (_, ts) ← expect (.mark '(') ts
  let (as, ts) := items item (.mark ',') ts
  let (_, ts) ← expect (.mark ')') ts
  return (as, ts)

def number (digits : String) : Nat :=
  Nat.ofDigitChars 10 digits.toList 0

def comparison? : String → Option Comparison
  | "=" => some .equal
  | "<>" => some .notEqual
  | "<" => some .less
  | "<=" => some .atMost
  | ">" => some .greater
  | ">=" => some .atLeast
  | _ => none

def conflict? : String → Option Conflict
  | "ABORT" => some .abort
  | "FAIL" => some .fail
  | "IGNORE" => some .ignore
  | "REPLACE" => some .replace
  | "ROLLBACK" => some .rollback
  | _ => none

def sortKey : Reader SortKey := fun ts => do
  let (column, ts) ← name ts
  match ts with
  | .word "ASC" :: ts => return (⟨column, some .ascending⟩, ts)
  | .word "DESC" :: ts => return (⟨column, some .descending⟩, ts)
  | ts => return (⟨column, none⟩, ts)

def orderKeys : List Token → List SortKey × List Token
  | .word "ORDER" :: .word "BY" :: ts => items sortKey (.mark ',') ts
  | ts => ([], ts)

section
variable (params : List Value)

def parameter : Reader Value
  | .placeholder digits :: rest =>
    if number digits = 0 then none else (params[number digits - 1]?).map fun v => (v, rest)
  | _ => none

def test : Reader Test
  | .sign s :: ts => do
    let op ← comparison? s
    let (v, ts) ← parameter params ts
    return (.compare op v, ts)
  | .word "IN" :: ts => do
    let (vs, ts) ← enclosed (parameter params) ts
    return (.among vs, ts)
  | .word "NOT" :: .word "IN" :: ts => do
    let (vs, ts) ← enclosed (parameter params) ts
    return (.notAmong vs, ts)
  | .word "BETWEEN" :: ts => do
    let (low, ts) ← parameter params ts
    let (_, ts) ← expect (.word "AND") ts
    let (high, ts) ← parameter params ts
    return (.between low high, ts)
  | .word "IS" :: .word "NULL" :: ts => some (.isNull, ts)
  | .word "IS" :: .word "NOT" :: .word "NULL" :: ts => some (.isNotNull, ts)
  | _ => none

def condition : Reader Condition := fun ts => do
  let (column, ts) ← name ts
  let (t, ts) ← test params ts
  return (⟨column, t⟩, ts)

def conditions : List Token → List Condition × List Token
  | .word "WHERE" :: ts => items (condition params) (.word "AND") ts
  | ts => ([], ts)

def assignment : Reader (String × Value) := fun ts => do
  let (column, ts) ← name ts
  let (_, ts) ← expect (.sign "=") ts
  let (v, ts) ← parameter params ts
  return ((column, v), ts)

def rows : Reader UInt32 := fun ts => do
  match ← parameter params ts with
  | (.integer n, ts) => return (UInt32.ofNat n.toInt.toNat, ts)
  | _ => none

def page : Reader Page
  | .word "LIMIT" :: .mark '-' :: .word "1" :: .word "OFFSET" :: ts => do
    let (o, ts) ← rows params ts
    return ({ offset := some o }, ts)
  | .word "LIMIT" :: ts => do
    let (l, ts) ← rows params ts
    match ts with
    | .word "OFFSET" :: ts =>
      let (o, ts) ← rows params ts
      return (⟨some l, some o⟩, ts)
    | ts => return ({ limit := some l }, ts)
  | ts => some ({}, ts)

def mode : Reader Conflict
  | .word "OR" :: .word w :: ts => (conflict? w).map fun m => (m, ts)
  | ts => some (.unspecified, ts)

def row : Reader (List (String × Value))
  | .word "DEFAULT" :: .word "VALUES" :: ts => some ([], ts)
  | ts => do
    let (columns, ts) ← enclosed name ts
    let (_, ts) ← expect (.word "VALUES") ts
    let (vs, ts) ← enclosed (parameter params) ts
    return (columns.zip vs, ts)

/-- An insertion, after its first word. -/
def insertion : Reader Insertion := fun ts => do
  let (m, ts) ← mode ts
  let (_, ts) ← expect (.word "INTO") ts
  let (table, ts) ← name ts
  let (values, ts) ← row params ts
  return (⟨m, table, values⟩, ts)

/-- A selection, after its first word. -/
def selection : Reader Selection := fun ts => do
  let (columns, ts) := items name (.mark ',') ts
  let (_, ts) ← expect (.word "FROM") ts
  let (table, ts) ← name ts
  let (conds, ts) := conditions params ts
  let (order, ts) := orderKeys ts
  let (p, ts) ← page params ts
  return (⟨table, columns, conds, order, p⟩, ts)

/-- A count, after its first two words. -/
def tally : Reader Tally := fun ts => do
  let (_, ts) ← expect (.mark '(') ts
  let (_, ts) ← expect (.mark '*') ts
  let (_, ts) ← expect (.mark ')') ts
  let (_, ts) ← expect (.word "FROM") ts
  let (table, ts) ← name ts
  let (conds, ts) := conditions params ts
  return (⟨table, conds⟩, ts)

/-- An update, after its first word. -/
def revision : Reader Revision := fun ts => do
  let (table, ts) ← name ts
  let (_, ts) ← expect (.word "SET") ts
  let (values, ts) := items (assignment params) (.mark ',') ts
  let (conds, ts) := conditions params ts
  return (⟨table, values, conds⟩, ts)

/-- A deletion, after its first word. -/
def removal : Reader Removal := fun ts => do
  let (_, ts) ← expect (.word "FROM") ts
  let (table, ts) ← name ts
  let (conds, ts) := conditions params ts
  return (⟨table, conds⟩, ts)

def statement : Reader Statement
  | .word "INSERT" :: ts => (insertion params ts).map fun (i, ts) => (.insert i, ts)
  | .word "SELECT" :: .word "COUNT" :: ts => (tally params ts).map fun (t, ts) => (.count t, ts)
  | .word "SELECT" :: ts => (selection params ts).map fun (s, ts) => (.select s, ts)
  | .word "UPDATE" :: ts => (revision params ts).map fun (r, ts) => (.update r, ts)
  | .word "DELETE" :: ts => (removal params ts).map fun (r, ts) => (.delete r, ts)
  | _ => none

end

end Reading

/-- The statement that a prepared text stands for, unless it is the text of none. -/
def Prepared.read (p : Prepared) : Option Statement := do
  let ts ← Token.lex p.sql
  match ← Reading.statement p.params ts with
  | (s, []) => return s
  | _ => none

end Tabular.Sql
