import Tabular.Text.Digits

/-!
# JSON values and their texts

`Json` is a value as it stands in a text: the members of an object keep their order and may repeat.
`compact` writes a value without any blanks, `pretty` over several lines.
-/

namespace Tabular

/-- A JSON value. A string that no Unicode text can express, because it holds half of a surrogate pair
or bytes that are not text, is kept as `none`. -/
inductive Json where
  | null
  | bool (b : Bool)
  | number (literal : String)
  | string (s : Option String)
  | array (items : List Json)
  | object (members : List (Option String × Json))
deriving Inhabited

namespace Json

def text (s : String) : Json :=
  .string (some s)

def field (name : String) (value : Json) : Option String × Json :=
  (some name, value)

/-- How a character stands inside a string: quotes, backslashes and controls are escaped. -/
def escape (c : Char) : List Char :=
  if c = '"' then ['\\', '"']
  else if c = '\\' then ['\\', '\\']
  else if c = '\x08' then ['\\', 'b']
  else if c = '\x0c' then ['\\', 'f']
  else if c = '\n' then ['\\', 'n']
  else if c = '\r' then ['\\', 'r']
  else if c = '\t' then ['\\', 't']
  else if c.toNat < 32 then ['\\', 'u', '0', '0', Text.digit (c.toNat / 16), Text.digit (c.toNat % 16)]
  else [c]

def quote (s : String) : String :=
  String.ofList ('"' :: s.toList.flatMap escape ++ ['"'])

mutual

def compact : Json → String
  | null => "null"
  | bool b => if b then "true" else "false"
  | number literal => literal
  | string s => quote (s.getD "")
  | array items => "[" ++ compactItems items ++ "]"
  | object members => "\x7b" ++ compactMembers members ++ "\x7d"

def compactItems : List Json → String
  | [] => ""
  | [item] => compact item
  | item :: rest => compact item ++ "," ++ compactItems rest

def compactMembers : List (Option String × Json) → String
  | [] => ""
  | [(key, value)] => quote (key.getD "") ++ ":" ++ compact value
  | (key, value) :: rest =>
    quote (key.getD "") ++ ":" ++ compact value ++ "," ++ compactMembers rest

end

/-- The start of a line at the given depth. -/
def newLine (depth : Nat) : String :=
  String.ofList ('\n' :: List.replicate (2 * depth) ' ')

mutual

/-- The text of a value at the given depth, one line for each item and member. -/
def prettyAt (depth : Nat) : Json → String
  | null => "null"
  | bool b => if b then "true" else "false"
  | number literal => literal
  | string s => quote (s.getD "")
  | array [] => "[]"
  | array items => "[" ++ prettyItems (depth + 1) items ++ newLine depth ++ "]"
  | object [] => "\x7b\x7d"
  | object members => "\x7b" ++ prettyMembers (depth + 1) members ++ newLine depth ++ "\x7d"

def prettyItems (depth : Nat) : List Json → String
  | [] => ""
  | [item] => newLine depth ++ prettyAt depth item
  | item :: rest => newLine depth ++ prettyAt depth item ++ "," ++ prettyItems depth rest

def prettyMembers (depth : Nat) : List (Option String × Json) → String
  | [] => ""
  | [(key, value)] => newLine depth ++ quote (key.getD "") ++ ": " ++ prettyAt depth value
  | (key, value) :: rest =>
    newLine depth ++ quote (key.getD "") ++ ": " ++ prettyAt depth value ++ "," ++ prettyMembers depth rest

end

/-- The text of a value over several lines, each step in by two blanks. -/
def pretty (j : Json) : String :=
  prettyAt 0 j

end Json

end Tabular
