import Tabular.Text.Identifier

/-!
# Tokens

The tokens that a text of SQL consists of, read from left to right. A quoted name is one token, and a
quote that stands twice inside it belongs to the name, so that nothing in a name is taken for a
placeholder or a keyword.
-/

namespace Tabular.Sql

inductive Token where
  /-- A quoted name, without its quotes. -/
  | name (s : String)
  /-- A question mark with the digits after it. -/
  | placeholder (digits : String)
  | word (s : String)
  | sign (s : String)
  | mark (c : Char)
deriving DecidableEq

namespace Token

def placeholder? : Token → Option String
  | placeholder digits => some digits
  | _ => none

/-- A token whose end has not been read yet, with the characters read of it. -/
inductive Partial where
  | nothing
  | name (cs : List Char)
  /-- A name up to a quote, which either ends the name or is the first of two. -/
  | quote (cs : List Char)
  | placeholder (cs : List Char)
  | word (cs : List Char)
  | sign (cs : List Char)
deriving DecidableEq

namespace Partial

def tokens : Partial → List Token
  | nothing => []
  | name _ => []
  | quote cs => [.name (String.ofList cs)]
  | placeholder cs => [.placeholder (String.ofList cs)]
  | word cs => [.word (String.ofList cs)]
  | sign cs => [.sign (String.ofList cs)]

def mayEnd : Partial → Bool
  | name _ => false
  | _ => true

def isSign (c : Char) : Bool :=
  c = '<' || c = '=' || c = '>'

/-- The token with one more character, unless the character does not belong to it. -/
def extend? : Partial → Char → Option Partial
  | nothing, _ => none
  | name cs, c => some (if c = '"' then quote cs else name (cs ++ [c]))
  | quote cs, c => if c = '"' then some (name (cs ++ [c])) else none
  | placeholder cs, c => if c.isDigit then some (placeholder (cs ++ [c])) else none
  | word cs, c => if Text.isNameRest c then some (word (cs ++ [c])) else none
  | sign cs, c => if isSign c then some (sign (cs ++ [c])) else none

/-- What a character begins after the end of a token. A mark is complete with its character. -/
def start (c : Char) : List Token × Partial :=
  if c.isWhitespace then ([], nothing)
  else if c = '"' then ([], name [])
  else if c = '?' then ([], placeholder [])
  else if Text.isNameRest c then ([], word [c])
  else if isSign c then ([], sign [c])
  else ([mark c], nothing)

def step (p : Partial) (c : Char) : List Token × Partial :=
  match p.extend? c with
  | some q => ([], q)
  | none => (p.tokens ++ (start c).1, (start c).2)

def feed (p : Partial) : List Char → List Token × Partial
  | [] => ([], p)
  | c :: rest =>
    let (ts, q) := p.step c
    let (us, r) := feed q rest
    (ts ++ us, r)

end Partial

/-- The tokens of a text, unless it ends inside a name. -/
def lex (text : String) : Option (List Token) :=
  let (ts, p) := Partial.nothing.feed text.toList
  if p.mayEnd then some (ts ++ p.tokens) else none

end Token

end Tabular.Sql
