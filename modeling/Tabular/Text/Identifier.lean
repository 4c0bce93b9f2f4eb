/-!
# Identifiers

The names that tables and columns may bear: an ASCII letter or an underscore, then ASCII letters,
digits and underscores. The rule is ASCII by definition, so no accented letter is ever part of a name.
-/

namespace Tabular.Text

def isNameStart (c : Char) : Bool :=
  c.isAlpha || c = '_'

def isNameRest (c : Char) : Bool :=
  c.isAlphanum || c = '_'

/-- A name of the form `[A-Za-z_][A-Za-z0-9_]*`. -/
def isIdentifier (s : String) : Bool :=
  match s.toList with
  | [] => false
  | c :: rest => isNameStart c && rest.all isNameRest

/-- The letters of a name with ASCII case folded away. -/
def foldCase (s : String) : List Char :=
  s.toList.map Char.toLower

/-- Names that differ in ASCII case only. -/
def sameName (a b : String) : Bool :=
  foldCase a == foldCase b

@[simp]
theorem sameName_self (a : String) : sameName a a = true := by
  simp [sameName]

end Tabular.Text
