import Tabular.Json
import Tabular.Yaml.Style

/-!
# Writing YAML

`write` writes a value in block style: a member or an item takes a line of its own, what is inside stands
two columns deeper, and the items of a list stand in the column of its name.
-/

namespace Tabular.Yaml

def blanks (column : Nat) : List Char :=
  List.replicate column ' '

/-- The characters of a text between apostrophes, of which each one inside is written twice. After the
end of a line the next word is stepped in. -/
def singleBody (column : Nat) (atStart : Bool) : List Char → List Char
  | [] => if atStart then blanks column else []
  | c :: rest =>
    if isBreak c then c :: singleBody column true rest
    else
      (if atStart then blanks column else []) ++ (if c = '\'' then ['\'', '\''] else [c]) ++
        singleBody column false rest

def hexDigits (width n : Nat) : List Char :=
  let digits := (Nat.toDigits 16 n).map Char.toUpper
  List.replicate (width - digits.length) '0' ++ digits

def escape (c : Char) : List Char :=
  if c = '"' then ['\\', '"']
  else if c = '\\' then ['\\', '\\']
  else if !isSpecial c && !isBreak c then [c]
  else
    '\\' :: match c.toNat with
    | 0x00 => ['0']
    | 0x07 => ['a']
    | 0x08 => ['b']
    | 0x09 => ['t']
    | 0x0A => ['n']
    | 0x0B => ['v']
    | 0x0C => ['f']
    | 0x0D => ['r']
    | 0x1B => ['e']
    | 0x85 => ['N']
    | 0x2028 => ['L']
    | 0x2029 => ['P']
    | n => if n ≤ 0xFF then 'x' :: hexDigits 2 n else if n ≤ 0xFFFF then 'u' :: hexDigits 4 n
      else 'U' :: hexDigits 8 n

/-- What is written at the head of a block scalar: the indentation if the text begins with a gap, and how
many ends of lines end the text. -/
def blockHead (cs : List Char) : List Char :=
  (if cs.head?.any (fun c => c == ' ' || isBreak c) then ['2'] else []) ++
    match cs.reverse with
    | [] => ['-']
    | [c] => if isBreak c then ['+'] else ['-']
    | c :: d :: _ => if !isBreak c then ['-'] else if isBreak d then ['+'] else []

def blockBody (column : Nat) (atStart : Bool) : List Char → List Char
  | [] => []
  | c :: rest =>
    if isBreak c then c :: blockBody column true rest
    else (if atStart then blanks column else []) ++ c :: blockBody column false rest

def writeText (column : Nat) (s : String) : List Char :=
  let cs := s.toList
  match styleOf s with
  | .plain => cs
  | .singleQuoted => '\'' :: singleBody column false cs ++ ['\'']
  | .doubleQuoted => '"' :: cs.flatMap escape ++ ['"']
  | _ => '|' :: blockHead cs ++ '\n' :: blockBody column true cs

/-- Ends a line, unless its end has been written. -/
def endLine (cs : List Char) : List Char :=
  if cs.getLast?.any isBreak then cs else cs ++ ['\n']

mutual

/-- A value after the name of a member or the dash of an item, up to the end of its last line. The
value stands inside a collection at the given column. -/
def writeValue (column : Nat) : Json → List Char
  | .null => [' ', 'n', 'u', 'l', 'l', '\n']
  | .bool b => ' ' :: (if b then "true" else "false").toList ++ ['\n']
  | .number literal => ' ' :: literal.toList ++ ['\n']
  | .string s => ' ' :: endLine (writeText (column + 2) (s.getD ""))
  | .array [] => [' ', '[', ']', '\n']
  | .array items => '\n' :: writeItems column items
  | .object [] => [' ', '{', '}', '\n']
  | .object members => '\n' :: blanks (column + 2) ++ writeMembers (column + 2) members

def writeItems (column : Nat) : List Json → List Char
  | [] => []
  | .object (member :: members) :: rest =>
    blanks column ++ '-' :: ' ' :: writeMembers (column + 2) (member :: members) ++ writeItems column rest
  | item :: rest => blanks column ++ '-' :: writeValue column item ++ writeItems column rest

/-- Members at the given column; the blanks before the first one have been written. -/
def writeMembers (column : Nat) : List (Option String × Json) → List Char
  | [] => []
  | [(key, value)] => writeText column (key.getD "") ++ ':' :: writeValue column value
  | (key, value) :: rest =>
    writeText column (key.getD "") ++ ':' :: writeValue column value ++
      blanks column ++ writeMembers column rest

end

def write : Json → String
  | .object members => String.ofList (writeMembers 0 members)
  | j => String.ofList (writeItems 0 [j])

end Tabular.Yaml
