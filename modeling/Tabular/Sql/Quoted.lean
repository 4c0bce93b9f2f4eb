/-!
# Quoted names

A name in a statement stands between double quotes, and a double quote inside it is written twice, so
that a name may hold any characters. `scan` reads a quoted name at the front of a text: it ends at the
first quote that is not followed by another.
-/

namespace Tabular.Sql.Quoted

/-- The characters of a name with every quote doubled. -/
def double : List Char → List Char
  | [] => []
  | c :: rest => if c = '"' then '"' :: '"' :: double rest else c :: double rest

def quote (name : String) : String :=
  String.ofList ('"' :: double name.toList ++ ['"'])

/-- The name up to the closing quote, and what follows the quote. -/
def scanName : List Char → Option (List Char × List Char)
  | [] => none
  | '"' :: '"' :: rest => (scanName rest).map fun (name, after) => ('"' :: name, after)
  | '"' :: rest => some ([], rest)
  | c :: rest => (scanName rest).map fun (name, after) => (c :: name, after)

/-- The quoted name at the front of a text, and what follows it. -/
def scan : List Char → Option (String × List Char)
  | '"' :: rest => (scanName rest).map fun (name, after) => (String.ofList name, after)
  | _ => none

end Tabular.Sql.Quoted
