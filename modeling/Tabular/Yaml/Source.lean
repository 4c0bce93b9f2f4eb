/-!
# YAML source texts

The characters of a YAML text with their places, and the classes of characters that the reading of
tokens tells apart. A line ends at a line feed, a carriage return, both in this order, or a next-line
character, all of which are read as a line feed; the line and paragraph separators end a line as well
but stand for themselves.
-/

namespace Tabular.Yaml

def isAllowed (c : Char) : Bool :=
  let n := c.toNat
  n == 0x09 || n == 0x0A || n == 0x0D || (0x20 ≤ n && n ≤ 0x7E) || n == 0x85 ||
    (0xA0 ≤ n && n ≤ 0xD7FF) || (0xE000 ≤ n && n ≤ 0xFFFD) || 0x10000 ≤ n

/-- The byte order mark, which may stand at the start of a text only. -/
def byteOrderMark : Char := '\uFEFF'

/-- Writes every end of a line that stands for a line feed as one. -/
def unifyBreaks : List Char → List Char
  | [] => []
  | '\r' :: '\n' :: rest => '\n' :: unifyBreaks rest
  | c :: rest => (if c = '\r' ∨ c = '\u0085' then '\n' else c) :: unifyBreaks rest

def isBreak (c : Char) : Bool :=
  c == '\n' || c == '\u2028' || c == '\u2029'

def isGap (c : Char) : Bool :=
  c == ' ' || c == '\t'

def isWordChar (c : Char) : Bool :=
  c.isAlphanum || c == '_' || c == '-'

/-- A character at its place; lines and columns are counted from zero. -/
structure Spot where
  char : Char
  index : Nat
  line : Nat
  column : Nat
deriving DecidableEq

/-- The characters of a text with their places, the first of which is given. -/
def spotsFrom (index line column : Nat) : List Char → List Spot
  | [] => []
  | c :: rest =>
    ⟨c, index, line, column⟩ ::
      if isBreak c then spotsFrom (index + 1) (line + 1) 0 rest
      else spotsFrom (index + 1) line (column + 1) rest

def spots? (s : String) : Option (List Spot) :=
  if s.toList.all isAllowed then some (spotsFrom 0 0 0 (unifyBreaks s.toList)) else none

/-- Whether a word ends here: before a gap, at the end of a line or at the end of the text. -/
def endsWord : List Spot → Bool
  | [] => true
  | s :: _ => isGap s.char || isBreak s.char

/-- Whether a line begins here with the mark that starts or ends a document. -/
def isDocumentMark : List Spot → Bool
  | a :: b :: c :: rest =>
    a.column == 0 && (a.char == '-' || a.char == '.') && b.char == a.char && c.char == a.char &&
      endsWord rest
  | _ => false

theorem spotsFrom_map_char (cs : List Char) (index line column : Nat) :
    (spotsFrom index line column cs).map (·.char) = cs := by
  induction cs generalizing index line column with
  | nil => rfl
  | cons c rest ih =>
    simp only [spotsFrom, List.map_cons]
    split <;> simp [ih]

end Tabular.Yaml
