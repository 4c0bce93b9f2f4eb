/-!
# Faults of a database

Why a database refuses a statement.
-/

namespace Tabular

inductive DatabaseFault where
  | noTable (table : String)
  | noColumn (table column : String)
  | noParent (table : String)
  | noRowId (table : String)
  | outOfRowIds
  | required (table column : String)
  | notUnique (table column : String)
  | danglingReference
  | reservedName (name : String)
  | indexNamed (name : String)
  | tableNamed (name : String)
  | repeatedColumn (name : String)
  | tooManyColumns (table : String)
  | tooManyParameters
  | tooManyTerms (list : String)
  | tooDeep
  | keptTable (name : String)
  | notText
  | notADatabase
deriving DecidableEq

def DatabaseFault.message : DatabaseFault → String
  | noTable table => s!"no such table: {table}"
  | noColumn table column => s!"table {table} has no column named {column}"
  | noParent table => s!"no such table: {table}"
  | noRowId table => s!"datatype mismatch in the key of {table}"
  | outOfRowIds => "database or disk is full"
  | required table column => s!"NOT NULL constraint failed: {table}.{column}"
  | notUnique table column => s!"UNIQUE constraint failed: {table}.{column}"
  | danglingReference => "FOREIGN KEY constraint failed"
  | reservedName name => s!"object name reserved for internal use: {name}"
  | indexNamed name => s!"there is already an index named {name}"
  | tableNamed name => s!"there is already a table named {name}"
  | repeatedColumn name => s!"duplicate column name: {name}"
  | tooManyColumns table => s!"too many columns on {table}"
  | tooManyParameters => "variable number must be between ?1 and ?32766"
  | tooManyTerms list => s!"too many {list}"
  | tooDeep => "Expression tree is too large (maximum depth 1000)"
  | keptTable name => s!"table {name} may not be dropped"
  | notText => "Invalid column type"
  | notADatabase => "file is not a database"

end Tabular
