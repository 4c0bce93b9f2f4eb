import Tabular.Database.Binary64
import Tabular.Sql.Definition
import Tabular.Value

/-!
# Cells

What a table holds in one column of one row. A cell may be of any class in any column; a column only
converts what can be converted to its type without loss.
-/

namespace Tabular

open Sql

def int64? (n : Int) : Option Int64 :=
  if Int64.minValue.toInt ≤ n ∧ n ≤ Int64.maxValue.toInt then some (Int64.ofInt n) else none

inductive Cell where
  | null
  | integer (n : Int64)
  | real (r : Binary64)
  | text (s : String)
  | blob (bytes : List UInt8)
deriving DecidableEq

namespace Cell

def className : Cell → String
  | null => "Null"
  | integer _ => "Integer"
  | real _ => "Real"
  | text _ => "Text"
  | blob _ => "Blob"

/-- The place of the class in the order of cells: nothing, numbers, texts, bytes. -/
def rank : Cell → Nat
  | null => 0
  | integer _ => 1
  | real _ => 1
  | text _ => 2
  | blob _ => 3

def compareBytes : List UInt8 → List UInt8 → Ordering
  | [], [] => .eq
  | [], _ => .lt
  | _, [] => .gt
  | a :: as, b :: bs => (compare a b).then (compareBytes as bs)

/-- The order of cells: by class, numbers by value, texts and bytes by their units. -/
def order : Cell → Cell → Ordering
  | integer m, integer n => compare m n
  | integer m, real s => (Binary64.ofInt m.toInt).compare s
  | real r, integer n => r.compare (Binary64.ofInt n.toInt)
  | real r, real s => r.compare s
  | text s, text t => compare s t
  | blob a, blob b => compareBytes a b
  | a, b => compare a.rank b.rank

/-- Whether two cells hold the same value; an absent value is the same as none. -/
def same (a b : Cell) : Bool :=
  a != null && b != null && order a b == .eq

def ofInt? (n : Int) : Option Cell :=
  (int64? n).map integer

/-- A real number, as an integer if it is one between the extreme integers. -/
def ofReal (r : Binary64) : Cell :=
  match r.int? with
  | some n => if Int64.minValue.toInt < n ∧ n < Int64.maxValue.toInt then integer (Int64.ofInt n) else real r
  | none => real r

def isNumberSpace (c : Char) : Bool :=
  c == ' ' || ('\t' ≤ c && c ≤ '\r')

/-- The number that a text spells with a sign or none, and with spaces around it. -/
def ofNumeral? (s : String) : Option Cell := do
  let cs := ((s.toList.dropWhile isNumberSpace).reverse.dropWhile isNumberSpace).reverse
  let (negative, cs) : Bool × List Char := match cs with
    | '-' :: rest => (true, rest)
    | '+' :: rest => (false, rest)
    | rest => (false, rest)
  let d ← Decimal.ofLiteral? cs
  if cs.all (·.isDigit) then
    let n : Int := if negative then -(d.digits : Int) else d.digits
    match ofInt? n with
    | some c => return c
    | none => return signed negative d
  else return signed negative d
where
  signed (negative : Bool) (d : Decimal) : Cell :=
    let r := Binary64.ofDecimal d
    ofReal (if negative then r.negate else r)

/-- The cell that a column of the given type keeps in place of another. -/
def convert : Storage → Cell → Cell
  | .integer, text s => (ofNumeral? s).getD (text s)
  | .integer, real r => ofReal r
  | .text, integer n => text (toString n.toInt)
  | .text, real r => text r.text
  | _, c => c

/-- The integer that a cell is, or can be converted to. -/
def rowId? (c : Cell) : Option Int64 :=
  match convert .integer c with
  | integer n => some n
  | _ => none

end Cell

/-- The cell that stands for a value: a point in time is stored as its milliseconds. -/
def Value.cell : Value → Cell
  | null => .null
  | integer n => .integer n
  | text s => .text s
  | timestamp t => .integer (Int64.ofInt t.millis)

end Tabular
