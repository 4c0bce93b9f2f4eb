import Tabular.Decimal
import Tabular.Text.Digits
import Tabular.Yaml.Source
import Tabular.Yaml.Token

/-!
# The style of a text

In which style a text is written as a YAML scalar so that it is read back as the same text. A text that
could be taken for something else is quoted, one with ends of lines is written as a block, and one with
characters that cannot be shown is written with escapes.
-/

namespace Tabular.Yaml

def isNullWord (s : String) : Bool :=
  ["null", "Null", "NULL", "~"].contains s

def boolWord? (s : String) : Option Bool :=
  if ["true", "True", "TRUE"].contains s then some true
  else if ["false", "False", "FALSE"].contains s then some false
  else none

/-- Whether digits follow a needless zero, after a sign or none. -/
def hasNeedlessZero (cs : List Char) : Bool :=
  let digits := match cs with
    | '+' :: rest => rest
    | '-' :: rest => rest
    | rest => rest
  match digits with
  | '0' :: d :: rest => (d :: rest).all (·.isDigit)
  | _ => false

def natInBase? (base : Nat) (cs : List Char) : Option Nat :=
  if cs.isEmpty then none else Text.number? base cs

def magnitude? : List Char → Option Nat
  | '0' :: 'x' :: rest => natInBase? 16 rest
  | '0' :: 'o' :: rest => natInBase? 8 rest
  | '0' :: 'b' :: rest => natInBase? 2 rest
  | cs => natInBase? 10 cs

/-- Whether a text is an integer literal of at most 128 bits. -/
def isInteger (cs : List Char) : Bool :=
  !hasNeedlessZero cs &&
    match cs with
    | '-' :: rest => (magnitude? rest).any (· ≤ Nat.pow 2 127)
    | '+' :: rest => (magnitude? rest).any (· < Nat.pow 2 128)
    | _ => (magnitude? cs).any (· < Nat.pow 2 128)

def isFloat (s : String) : Bool :=
  [".inf", ".Inf", ".INF", "+.inf", "+.Inf", "+.INF", "-.inf", "-.Inf", "-.INF", ".nan", ".NaN",
    ".NAN"].contains s ||
    match s.toList with
    | '-' :: rest => isFinite rest
    | '+' :: rest => isFinite rest
    | cs => isFinite cs
where
  isFinite (cs : List Char) : Bool := (Decimal.ofLiteral? cs).any (!·.isHuge)

/-- Whether a plain text would be read as something else than a text. -/
def isAmbiguous (s : String) : Bool :=
  s.isEmpty || isNullWord s || (boolWord? s).isSome || hasNeedlessZero s.toList || isInteger s.toList ||
    isFloat s

def isSpecial (c : Char) : Bool :=
  let n := c.toNat
  !(n == 0x0A || (0x20 ≤ n && n ≤ 0x7E) || (0xA0 ≤ n && n ≠ 0xFEFF && n ≠ 0xFFFE && n ≠ 0xFFFF))

def anyPair (f : Char → Char → Bool) (cs : List Char) : Bool :=
  (cs.zip (cs.drop 1)).any fun (a, b) => f a b

/-- Whether a text would begin a plain scalar with an indicator. -/
def startsWithIndicator : List Char → Bool
  | '-' :: '-' :: '-' :: _ => true
  | '.' :: '.' :: '.' :: _ => true
  | c :: rest =>
    ['#', ',', '[', ']', '{', '}', '&', '*', '!', '|', '>', '\'', '"', '%', '@', '\x60'].contains c ||
      (['?', '-'].contains c && rest.head?.all fun d => isGap d || isBreak d)
  | [] => false

/-- Whether a text holds a colon or a number sign that would end a plain scalar. -/
def holdsIndicator (cs : List Char) : Bool :=
  cs.getLast? == some ':' ||
    anyPair (fun a b => (a == ':' && (isGap b || isBreak b)) || ((isGap a || isBreak a) && b == '#')) cs

def fitsPlain (cs : List Char) : Bool :=
  cs.head? != some ' ' && cs.getLast? != some ' ' && !cs.any isBreak && !cs.any isSpecial &&
    !startsWithIndicator cs && !holdsIndicator cs

/-- Whether a text may be written between apostrophes: no gap stands beside the end of a line. -/
def fitsSingle (cs : List Char) : Bool :=
  !cs.any isSpecial && !anyPair (fun a b => (isBreak a && b == ' ') || (a == ' ' && isBreak b)) cs

/-- Whether a text may be written as a block: no line ends with a gap. -/
def fitsBlock (cs : List Char) : Bool :=
  !cs.any isSpecial && cs.getLast? != some ' ' && !anyPair (fun a b => a == ' ' && isBreak b) cs

def styleOf (s : String) : Style :=
  let cs := s.toList
  if cs.contains '\n' then (if fitsBlock cs then .literal else .doubleQuoted)
  else if !isAmbiguous s && fitsPlain cs then .plain
  else if fitsSingle cs then .singleQuoted
  else .doubleQuoted

end Tabular.Yaml
