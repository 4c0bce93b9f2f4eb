import Tabular.Text.Digits
import Tabular.Yaml.Source

/-!
# Scalars

How the text of a scalar is read, one function for each style. Gaps and ends of lines inside a scalar are
gathered until the next word is reached: a single end of a line becomes a space, of several the first
is dropped, and gaps beside the end of a line vanish.
-/

namespace Tabular.Yaml

/-- What stands between two words of a scalar. -/
inductive Gap where
  | within (cs : List Char)
  /-- The end of a line, unless it was escaped, and the ends of the empty lines that follow. -/
  | across (first : Option Char) (later : List Char)

namespace Gap

def none : Gap := within []

def addSpace (c : Char) : Gap → Gap
  | within cs => within (cs ++ [c])
  | across first later => across first later

def addBreak (c : Char) : Gap → Gap
  | within _ => across (some c) []
  | across first later => across first (later ++ [c])

def isAcross : Gap → Bool
  | within _ => false
  | across _ _ => true

def isEmpty : Gap → Bool
  | within cs => cs.isEmpty
  | across _ _ => false

def text : Gap → List Char
  | within cs => cs
  | across (some '\n') [] => [' ']
  | across (some '\n') later => later
  | across first later => first.toList ++ later

end Gap

/-- Puts characters before the text that was read. -/
def before {α : Type} (cs : List Char) (r : Option (List Char × α)) : Option (List Char × α) :=
  r.map fun (text, rest) => (cs ++ text, rest)

/-- The text up to a closing apostrophe, and what follows it. An apostrophe inside is written twice;
`open?` tells that one was just read. -/
def readSingle (gap : Gap) (apostrophe : Bool) : List Spot → Option (List Char × List Spot)
  | [] => if apostrophe then some ([], []) else none
  | s :: rest =>
    if apostrophe then
      if s.char = '\'' then before ['\''] (readSingle .none false rest) else some ([], s :: rest)
    else if isDocumentMark (s :: rest) then none
    else if isGap s.char then readSingle (gap.addSpace s.char) false rest
    else if isBreak s.char then readSingle (gap.addBreak s.char) false rest
    else if s.char = '\'' then before gap.text (readSingle .none true rest)
    else before (gap.text ++ [s.char]) (readSingle .none false rest)

def escaped? : Char → Option Char
  | '0' => some '\x00'
  | 'a' => some '\x07'
  | 'b' => some '\x08'
  | 't' => some '\t'
  | '\t' => some '\t'
  | 'n' => some '\n'
  | 'v' => some '\x0B'
  | 'f' => some '\x0C'
  | 'r' => some '\r'
  | 'e' => some '\x1B'
  | ' ' => some ' '
  | '"' => some '"'
  | '/' => some '/'
  | '\\' => some '\\'
  | 'N' => some '\u0085'
  | '_' => some '\u00A0'
  | 'L' => some '\u2028'
  | 'P' => some '\u2029'
  | _ => none

def escapeLength? : Char → Option Nat
  | 'x' => some 2
  | 'u' => some 4
  | 'U' => some 8
  | _ => none

def charOf? (n : Nat) : Option Char :=
  if h : n.isValidChar then some (Char.ofNatAux n h) else none

/-- The text up to a closing quotation mark, and what follows it. -/
def readDouble (gap : Gap) : List Spot → Option (List Char × List Spot)
  | [] => none
  | s :: rest =>
    if isDocumentMark (s :: rest) then none
    else if isGap s.char then readDouble (gap.addSpace s.char) rest
    else if isBreak s.char then readDouble (gap.addBreak s.char) rest
    else if s.char = '"' then some (gap.text, rest)
    else if s.char = '\\' then
      match rest with
      | [] => none
      | e :: after =>
        -- An escaped end of a line joins the lines without a blank.
        if isBreak e.char then before gap.text (readDouble (.across none []) after)
        else
          match escapeLength? e.char with
          | none =>
            match escaped? e.char with
            | none => none
            | some c => before (gap.text ++ [c]) (readDouble .none after)
          | some n =>
            if after.length < n then none
            else
              match (Text.number? 16 ((after.take n).map (·.char))).bind charOf? with
              | none => none
              | some c => before (gap.text ++ [c]) (readDouble .none (after.drop n))
    else before (gap.text ++ [s.char]) (readDouble .none rest)
termination_by s => s.length
decreasing_by all_goals grind

def isFlowIndicator (c : Char) : Bool :=
  c == ',' || c == '[' || c == ']' || c == '{' || c == '}'

/-- Whether a plain scalar ends before this character, which belongs to a word. -/
def endsPlain (inFlow : Bool) (s : Spot) (rest : List Spot) : Bool :=
  (s.char == ':' && endsWord rest) || (inFlow && isFlowIndicator s.char)

def isBadColon (inFlow : Bool) (s : Spot) (rest : List Spot) : Bool :=
  inFlow && s.char == ':' && rest.head?.any fun t => isFlowIndicator t.char || t.char == '?'

/-- The text of a plain scalar, whether a line ended after it, and what follows. A further line belongs to
the scalar if it reaches the column `indent`; inside a flow collection every line does. -/
def readPlain (inFlow : Bool) (indent : Nat) (gap : Gap) :
    List Spot → Option (List Char × Bool × List Spot)
  | [] => some ([], gap.isAcross, [])
  | s :: rest =>
    if isGap s.char then
      -- A tab does not indent.
      if gap.isAcross && s.column < indent && s.char == '\t' then none
      else readPlain inFlow indent (gap.addSpace s.char) rest
    else if isBreak s.char then readPlain inFlow indent (gap.addBreak s.char) rest
    else if !gap.isEmpty && (!inFlow && s.column < indent || isDocumentMark (s :: rest) || s.char == '#')
    then some ([], gap.isAcross, s :: rest)
    else if isBadColon inFlow s rest then none
    else if endsPlain inFlow s rest then some ([], gap.isAcross, s :: rest)
    else before (gap.text ++ [s.char]) (readPlain inFlow indent .none rest)

inductive Chomping where
  | strip
  | clip
  | keep
deriving DecidableEq

def chomping? : Char → Option Chomping
  | '-' => some .strip
  | '+' => some .keep
  | _ => none

def extraIndent? (c : Char) : Option Nat :=
  if '1' ≤ c ∧ c ≤ '9' then some (c.toNat - 48) else none

/-- The chomping and the extra indentation at the head of a block scalar, in either order. -/
def readHead : List Spot → Chomping × Option Nat × List Spot
  | s :: rest =>
    match chomping? s.char, extraIndent? s.char, rest with
    | some ch, _, t :: after =>
      match extraIndent? t.char with
      | some n => (ch, some n, after)
      | none => (ch, none, rest)
    | some ch, _, [] => (ch, none, [])
    | none, some n, t :: after =>
      match chomping? t.char with
      | some ch => (ch, some n, after)
      | none => (.clip, some n, rest)
    | none, some n, [] => (.clip, some n, [])
    | none, none, _ => (.clip, none, s :: rest)
  | [] => (.clip, none, [])

/-- What follows the line of the head, which may hold nothing else but a comment. -/
def readHeadEnd (comment : Bool) : List Spot → Option (List Spot)
  | [] => some []
  | s :: rest =>
    if isBreak s.char then some rest
    else if comment then readHeadEnd true rest
    else if isGap s.char then readHeadEnd false rest
    else if s.char = '#' then readHeadEnd true rest
    else none

/-- The deepest column that the empty lines at the front and the line after them reach; tabs do not
indent. -/
def deepest? (least : Nat) : List Spot → Option Nat
  | [] => some least
  | s :: rest =>
    if s.char = ' ' then deepest? least rest
    else if s.char = '\t' then none
    else if isBreak s.char then deepest? (max least s.column) rest
    else some (max least s.column)

/-- What the end of a line and the empty lines after it become before another line. Folded lines are
joined unless one of them begins with a gap. -/
def joinLines (folded : Bool) (first : Option Char) (later : List Char) (gapBefore gapAfter : Bool) :
    List Char :=
  if folded && first == some '\n' && !gapBefore && !gapAfter then
    (if later.isEmpty then [' '] else []) ++ later
  else first.toList ++ later

def chomp (c : Chomping) (first : Option Char) (later : List Char) : List Char :=
  match c with
  | .strip => []
  | .clip => first.toList
  | .keep => first.toList ++ later

/-- The text of a block scalar whose lines begin at the column `indent`, and what follows. `inLine`
tells whether a line has begun; between lines, `first` is the end of the last one, `later` holds the ends
of the empty lines after it, and `gapped` tells whether it began with a gap. -/
def readLines (folded : Bool) (indent : Nat) (c : Chomping) (inLine : Bool) (first : Option Char)
    (later : List Char) (gapped : Bool) : List Spot → Option (List Char × List Spot)
  | [] => some (chomp c first later, [])
  | s :: rest =>
    if inLine then
      if isBreak s.char then readLines folded indent c false (some s.char) [] gapped rest
      else before [s.char] (readLines folded indent c true none [] gapped rest)
    else if s.column < indent && s.char == ' ' then
      readLines folded indent c false first later gapped rest
    else if s.column < indent && s.char == '\t' then none
    else if isBreak s.char then readLines folded indent c false first (later ++ [s.char]) gapped rest
    else if s.column = indent then
      before (joinLines folded first later gapped (isGap s.char) ++ [s.char])
        (readLines folded indent c true none [] (isGap s.char) rest)
    else some (chomp c first later, s :: rest)

/-- The text of a block scalar after its indicator, and what follows. The lines begin at the given extra
indentation beyond the enclosing collection, or else where the first line that is not empty begins. -/
def readBlock (folded : Bool) (enclosing : Option Nat) (s : List Spot) :
    Option (List Char × List Spot) := do
  let (c, extra, s) := readHead s
  let s ← readHeadEnd false s
  let indent ← match extra with
    | some n => some (enclosing.getD 0 + n)
    | none => deepest? (max 1 (enclosing.elim 0 (· + 1))) s
  readLines folded indent c false none [] false s

end Tabular.Yaml
