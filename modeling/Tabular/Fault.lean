import Tabular.Entity.Validity

/-!
# Faults of mapping

What can go wrong between entities and their rows, each fault with the facts that its message states.
-/

namespace Tabular

/-- Why a request about an entity cannot be carried out. -/
inductive QueryFault where
  | nothingToAssign
  | keyAssigned (column : String)
  | notReferencing (column table : String)
deriving DecidableEq

def QueryFault.message : QueryFault → String
  | nothingToAssign => "no columns to assign"
  | keyAssigned column => s!"primary key '{column}' cannot be assigned"
  | notReferencing column table => s!"column '{column}' does not reference '{table}'"

inductive KeyFault where
  | wrongKind (found : Value)
  | negative
deriving DecidableEq

def KeyFault.found : KeyFault → String
  | wrongKind v => v.kindName
  | negative => "negative integer"

/-- A disagreement between an entity and what it is used with. -/
inductive Fault where
  | unknownEntity (name : String)
  | duplicateEntity (name : String)
  | invalidEntity (entity : String) (reason : Violation)
  | missingField (entity column : String)
  | rowLength (entity : String) (expected found : Nat)
  | wrongKind (entity column : String) (expected : Kind) (found : Value)
  | badKey (entity : String) (expected : Kind) (reason : KeyFault)
  | unknownColumn (entity column : String)
  | badQuery (entity : String) (reason : QueryFault)
deriving DecidableEq

def Fault.message : Fault → String
  | unknownEntity name => s!"unknown entity: {name}"
  | duplicateEntity name => s!"entity already registered: {name}"
  | invalidEntity entity reason => s!"invalid descriptor for entity '{entity}': {reason.message}"
  | missingField entity column => s!"entity '{entity}' has no field for column '{column}'"
  | rowLength entity expected found =>
    s!"row for entity '{entity}' has {found} value(s), expected {expected}"
  | wrongKind entity column expected found =>
    s!"column '{column}' of entity '{entity}' expects {expected.name}, found {found.kindName}"
  | badKey entity expected reason =>
    s!"key for entity '{entity}' must be {expected.name}, found {reason.found}"
  | unknownColumn entity column => s!"entity '{entity}' has no column '{column}'"
  | badQuery entity reason => s!"invalid query on entity '{entity}': {reason.message}"

namespace Entity

/-- Refuses an entity that breaks a rule, with the first rule it breaks. -/
def requireValid (e : Entity) : Except Fault Unit :=
  match e.violations with
  | [] => .ok ()
  | reason :: _ => .error (.invalidEntity e.name reason)

/-- The position of the key, which every use of rows needs. -/
def requireKey (e : Entity) : Except Fault Nat :=
  match e.keyIndex? with
  | some i => .ok i
  | none => .error (.invalidEntity e.name .missingKey)

def requireColumn (e : Entity) (name : String) : Except Fault Column :=
  match e.column? name with
  | some c => .ok c
  | none => .error (.unknownColumn e.name name)

end Entity

end Tabular
