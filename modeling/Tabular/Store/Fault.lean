import Tabular.Catalog
import Tabular.Database.Cell
import Tabular.Database.Fault

/-!
# Faults of a store

What can go wrong between a program and its database.
-/

namespace Tabular

/-- Why cells stand for no row. -/
inductive CellFault where
  | wrongCount (entity : String) (expected found : Nat)
  | wrongClass (entity column : String) (expected : Kind) (found : Cell)
  | outOfRange (entity column : String) (millis : Int64)
deriving DecidableEq

def CellFault.message : CellFault → String
  | wrongCount entity expected found => s!"{entity}: expected {expected} columns, found {found}"
  | wrongClass entity column expected found =>
    s!"{entity}.{column}: expected {expected.name}, found {found.className}"
  | outOfRange entity column millis => s!"{entity}.{column}: timestamp {millis.toInt} is out of range"

inductive StoreFault where
  | mapping (f : Fault)
  | cell (f : CellFault)
  | catalog (f : CatalogFault)
  | database (f : DatabaseFault)
  | creation (f : DatabaseFault)
  | removal (f : DatabaseFault)
deriving DecidableEq

def StoreFault.message : StoreFault → String
  | mapping f => s!"mapping error: {f.message}"
  | cell f => s!"conversion error: {f.message}"
  | catalog f => s!"catalog error: {f.message}"
  | database f => s!"database error: {f.message}"
  | creation f => s!"migration error: failed to create tables: {f.message}"
  | removal f => s!"migration error: failed to drop tables: {f.message}"

end Tabular
