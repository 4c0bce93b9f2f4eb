import Tabular.Yaml.Scalar
import Tabular.Yaml.Token

/-!
# From characters to tokens

`tokens?` splits a YAML text into tokens. Block collections are found by their columns: a collection
starts where an entry or a key stands deeper than the collections around it, and it ends before
the first token that stands less deep. That a word is the key of a member shows only at the colon after
it, so that the lexer keeps in mind, for each open flow collection and for the block around them, the
last place where a key may have begun, and puts the tokens of the key and of its mapping there.
-/

namespace Tabular.Yaml

/-- A place where a key may have begun: behind how many tokens, and at which character. A key is
required where a block mapping expects its next member. -/
structure Candidate where
  position : Nat
  spot : Spot
  required : Bool

structure Lexer where
  rest : List Spot
  tokens : List (Token String) := []
  /-- The columns of the open block collections, the innermost first. -/
  indents : List Nat := []
  keyAllowed : Bool := true
  /-- Where a key may have begun in the innermost flow collection. -/
  candidate : Option Candidate := none
  /-- Where keys may have begun in the collections around it; one for each open flow collection. -/
  outer : List (Option Candidate) := []

namespace Lexer

def inFlow (l : Lexer) : Bool :=
  !l.outer.isEmpty

def emit (l : Lexer) (t : Token String) : Lexer :=
  { l with tokens := t :: l.tokens }

def goOn (l : Lexer) (rest : List Spot) : Lexer :=
  { l with rest := rest }

def allowKey (l : Lexer) (allowed : Bool) : Lexer :=
  { l with keyAllowed := allowed }

def insert (l : Lexer) (position : Nat) (t : Token String) : Lexer :=
  let later := l.tokens.length - position
  { l with tokens := l.tokens.take later ++ t :: l.tokens.drop later }

/-- Gives up the place where a key may have begun; a required key is not given up. -/
def dropCandidate (l : Lexer) : Option Lexer :=
  if l.candidate.any (·.required) then none else some { l with candidate := none }

def noteCandidate (l : Lexer) (s : Spot) : Option Lexer :=
  if l.keyAllowed then do
    let l ← l.dropCandidate
    -- In the column of the innermost block nothing but the next key may begin.
    let required := !l.inFlow && l.indents.head? == some s.column
    return { l with candidate := some ⟨l.tokens.length, s, required⟩ }
  else some l

/-- The place kept for a key when the next token stands at the given character. A key takes one line and
fewer than 1024 characters. -/
def refresh (s : Spot) : Option Candidate → Option (Option Candidate)
  | none => some none
  | some c =>
    if c.spot.line < s.line ∨ c.spot.index + 1024 < s.index then
      if c.required then none else some none
    else some (some c)

def refreshAll (l : Lexer) (s : Spot) : Option Lexer := do
  let candidate ← refresh s l.candidate
  let outer ← l.outer.mapM (refresh s)
  return { l with candidate := candidate, outer := outer }

/-- Ends the block collections whose columns `deeper` holds of. -/
def closeWhile (l : Lexer) (deeper : Nat → Bool) : Lexer :=
  if l.inFlow then l
  else
    { l with
      tokens := (l.indents.takeWhile deeper).map (fun _ => .blockEnd) ++ l.tokens
      indents := l.indents.dropWhile deeper }

/-- Starts a block collection at a column deeper than those around it, with its token behind the first
`position` tokens. -/
def openBlock (l : Lexer) (column position : Nat) (t : Token String) : Lexer :=
  if !l.inFlow && l.indents.head?.all (· < column) then
    { l.insert position t with indents := column :: l.indents }
  else l

/-! ## Tokens -/

def skipLineEnd : List Spot → Option (List Spot) :=
  readHeadEnd false

def readWord : List Spot → List Char × List Spot
  | [] => ([], [])
  | s :: rest =>
    if isWordChar s.char then (s.char :: (readWord rest).1, (readWord rest).2) else ([], s :: rest)

def skipGap : List Spot → List Spot
  | [] => []
  | s :: rest => if isGap s.char then skipGap rest else s :: rest

def readNumber (s : List Spot) : Option (Nat × List Spot) :=
  let digits := s.takeWhile (·.char.isDigit)
  if digits.isEmpty ∨ 9 < digits.length then none
  else some (digits.foldl (fun n d => 10 * n + (d.char.toNat - 48)) 0, s.dropWhile (·.char.isDigit))

def readVersion (s : List Spot) : Option (Token String × List Spot) := do
  let (major, s) ← readNumber (skipGap s)
  match s with
  | dot :: s =>
    if dot.char ≠ '.' then none
    else
      let (minor, s) ← readNumber s
      return (.versionDirective major minor, s)
  | [] => none

/-- Whether a character may stand in a tag. Inside angle brackets and in a directive some more may. -/
def isTagChar (wide : Bool) (c : Char) : Bool :=
  isWordChar c || [';', '/', '?', ':', '@', '&', '=', '+', '$', '.', '!', '~', '*', '\'', '(', ')'].contains c ||
    (wide && [',', '[', ']'].contains c)

def furtherBytes? (n : Nat) : Option Nat :=
  if n < 0x80 then some 0
  else if n < 0xC0 then none
  else if n < 0xE0 then some 1
  else if n < 0xF0 then some 2
  else if n < 0xF8 then some 3
  else none

/-- The number of further bytes after this byte, of which `due` were due before it. -/
def stillDue? (due n : Nat) : Option Nat :=
  match due with
  | 0 => furtherBytes? n
  | more + 1 => if 0x80 ≤ n ∧ n < 0xC0 then some more else none

/-- The bytes of a tag at the front. A percent sign and two digits stand for a byte, and the bytes of
one character must be given one after the other. -/
def readTagText (wide : Bool) (due : Nat) : List Spot → Option (Tag × List Spot)
  | [] => if due = 0 then some ([], []) else none
  | [s] => if due = 0 then (if isTagChar wide s.char then some ([UInt8.ofNat s.char.toNat], [])
      else if s.char = '%' then none else some ([], [s])) else none
  | [s, t] =>
    if due = 0 ∧ isTagChar wide s.char then
      (readTagText wide 0 [t]).map fun (text, rest) => (UInt8.ofNat s.char.toNat :: text, rest)
    else if due = 0 ∧ s.char ≠ '%' then some ([], [s, t])
    else none
  | s :: a :: b :: rest =>
    if s.char = '%' then do
      let n ← Text.number? 16 [a.char, b.char]
      let due ← stillDue? due n
      let (text, rest) ← readTagText wide due rest
      return (UInt8.ofNat n :: text, rest)
    else if due ≠ 0 then none
    else if isTagChar wide s.char then
      (readTagText wide 0 (a :: b :: rest)).map fun (text, rest) => (UInt8.ofNat s.char.toNat :: text, rest)
    else some ([], s :: a :: b :: rest)

def readTagUri (wide : Bool) (s : List Spot) : Option (Tag × List Spot) :=
  match readTagText wide 0 s with
  | some ([], _) => none
  | r => r

/-- The handle of a tag after its first exclamation mark, and whether another one closes it. -/
def readHandle (s : List Spot) : List Char × Bool × List Spot :=
  match readWord s with
  | (word, t :: rest) => if t.char = '!' then (word, true, rest) else (word, false, t :: rest)
  | (word, []) => (word, false, [])

def readTagDirective (s : List Spot) : Option (Token String × List Spot) := do
  match skipGap s with
  | bang :: s =>
    let (word, closed, s) := readHandle s
    if bang.char ≠ '!' ∨ (!closed ∧ !word.isEmpty) then none
    else
      match s with
      | t :: _ =>
        if !isGap t.char then none
        else
          let (stem, s) ← readTagUri true (skipGap s)
          if endsWord s then
            return (.tagDirective (String.ofList ('!' :: word ++ if closed then ['!'] else [])) stem, s)
          else none
      | [] => none
  | [] => none

def directive (l : Lexer) (s : List Spot) : Option Lexer := do
  let l ← (l.closeWhile fun _ => true).dropCandidate
  let (name, s) := readWord s
  if !endsWord s then none
  else
    let (t, s) ← match String.ofList name with
      | "YAML" => readVersion s
      | "TAG" => readTagDirective s
      | _ => none
    return ((l.emit t).goOn (← skipLineEnd s)).allowKey false

def documentMark (l : Lexer) (t : Token String) (rest : List Spot) : Option Lexer := do
  let l ← (l.closeWhile fun _ => true).dropCandidate
  return ((l.emit t).goOn rest).allowKey false

def openFlow (l : Lexer) (s : Spot) (t : Token String) (rest : List Spot) : Option Lexer := do
  let l ← l.noteCandidate s
  return { ((l.emit t).goOn rest).allowKey true with candidate := none, outer := l.candidate :: l.outer }

def closeFlow (l : Lexer) (t : Token String) (rest : List Spot) : Option Lexer := do
  let l ← l.dropCandidate
  let l := ((l.emit t).goOn rest).allowKey false
  match l.outer with
  | [] => return l
  | candidate :: outer => return { l with candidate := candidate, outer := outer }

def flowEntry (l : Lexer) (rest : List Spot) : Option Lexer := do
  let l ← l.dropCandidate
  return ((l.emit .flowEntry).goOn rest).allowKey true

def blockEntry (l : Lexer) (s : Spot) (rest : List Spot) : Option Lexer := do
  if !l.inFlow && !l.keyAllowed then none
  else
    let l ← (l.openBlock s.column l.tokens.length .sequenceStart).dropCandidate
    return ((l.emit .entry).goOn rest).allowKey true

def key (l : Lexer) (s : Spot) (rest : List Spot) : Option Lexer := do
  if !l.inFlow && !l.keyAllowed then none
  else
    let l ← (l.openBlock s.column l.tokens.length .mappingStart).dropCandidate
    return ((l.emit .key).goOn rest).allowKey (!l.inFlow)

/-- The colon before a value. If a key may have begun before it, one has. -/
def value (l : Lexer) (s : Spot) (rest : List Spot) : Option Lexer :=
  match l.candidate with
  | some c =>
    -- What begins there is the key, and in a column of its own it begins a block mapping.
    let l := (l.insert c.position .key).openBlock c.spot.column c.position .mappingStart
    some { ((l.emit .value).goOn rest).allowKey false with candidate := none }
  | none =>
    if !l.inFlow && !l.keyAllowed then none
    else
      let l := l.openBlock s.column l.tokens.length .mappingStart
      some (((l.emit .value).goOn rest).allowKey (!l.inFlow))

def readLabel (s : List Spot) : Option (String × List Spot) :=
  match readWord s with
  | ([], _) => none
  | (word, rest) =>
    if endsWord rest || rest.head?.any (fun t => ['?', ':', ',', ']', '}', '%', '@', '\x60'].contains t.char)
    then some (String.ofList word, rest) else none

def label (l : Lexer) (s : Spot) (t : String → Token String) (rest : List Spot) : Option Lexer := do
  let l ← l.noteCandidate s
  let (name, rest) ← readLabel rest
  return ((l.emit (t name)).goOn rest).allowKey false

/-- The tag after its first exclamation mark. A tag without a handle has the handle `!`, and the tag that
is an exclamation mark alone has none. -/
def readTag (s : List Spot) : Option (Token String × List Spot) :=
  match s with
  | t :: rest =>
    if t.char = '<' then do
      let (uri, s) ← readTagUri true rest
      match s with
      | u :: s => if u.char = '>' then return (.tag "" uri, s) else none
      | [] => none
    else short s
  | [] => short s
where
  short (s : List Spot) : Option (Token String × List Spot) :=
    match readHandle s with
    | (word, true, rest) => do
      let (suffix, rest) ← readTagUri false rest
      return (.tag (String.ofList ('!' :: word ++ ['!'])) suffix, rest)
    | (word, false, rest) => do
      let (more, rest) ← readTagText false 0 rest
      match Tag.ofString (String.ofList word) ++ more with
      | [] => return (.tag "" (Tag.ofString "!"), rest)
      | suffix => return (.tag "!" suffix, rest)

def tag (l : Lexer) (s : Spot) (rest : List Spot) : Option Lexer := do
  let l ← l.noteCandidate s
  let (t, rest) ← readTag rest
  if endsWord rest || (l.inFlow && rest.head?.any (·.char == ',')) then
    return ((l.emit t).goOn rest).allowKey false
  else none

def blockScalar (l : Lexer) (style : Style) (rest : List Spot) : Option Lexer := do
  let l ← l.dropCandidate
  let (text, rest) ← readBlock (style == .folded) l.indents.head? rest
  return ((l.emit (.scalar style (String.ofList text))).goOn rest).allowKey true

def quotedScalar (l : Lexer) (s : Spot) (style : Style) (rest : List Spot) : Option Lexer := do
  let l ← l.noteCandidate s
  let (text, rest) ← if style = .singleQuoted then readSingle .none false rest else readDouble .none rest
  return ((l.emit (.scalar style (String.ofList text))).goOn rest).allowKey false

def plainScalar (l : Lexer) (s : Spot) (rest : List Spot) : Option Lexer := do
  let l ← l.noteCandidate s
  let (text, broken, rest) ← readPlain l.inFlow (l.indents.head?.elim 0 (· + 1)) .none (s :: rest)
  return ((l.emit (.scalar .plain (String.ofList text))).goOn rest).allowKey broken

def isIndicator (c : Char) : Bool :=
  [',', '[', ']', '{', '}', '#', '&', '*', '!', '|', '>', '\'', '"', '%', '@', '\x60'].contains c

def token (l : Lexer) (s : Spot) (rest : List Spot) : Option Lexer :=
  let c := s.char
  let marks := l.inFlow || endsWord rest
  if s.column = 0 ∧ c = '%' then l.directive rest
  else if isDocumentMark (s :: rest) then
    l.documentMark (if c = '-' then .documentStart else .documentEnd) (rest.drop 2)
  else if c = '[' then l.openFlow s .flowSequenceStart rest
  else if c = '{' then l.openFlow s .flowMappingStart rest
  else if c = ']' then l.closeFlow .flowSequenceEnd rest
  else if c = '}' then l.closeFlow .flowMappingEnd rest
  else if c = ',' then l.flowEntry rest
  else if c = '-' ∧ endsWord rest then l.blockEntry s rest
  else if c = '?' ∧ marks then l.key s rest
  else if c = ':' ∧ marks then l.value s rest
  else if c = '*' then l.label s .reference rest
  else if c = '&' then l.label s .anchor rest
  else if c = '!' then l.tag s rest
  else if c = '|' ∧ !l.inFlow then l.blockScalar .literal rest
  else if c = '>' ∧ !l.inFlow then l.blockScalar .folded rest
  else if c = '\'' then l.quotedScalar s .singleQuoted rest
  else if c = '"' then l.quotedScalar s .doubleQuoted rest
  else if endsWord [s] || isIndicator c then none
  else l.plainScalar s rest

/-- Leaves out what stands before the next token: gaps, comments and ends of lines. A tab is no gap
where a key may begin in a block. The end of a line in a block allows a key. -/
def skipToToken (inFlow comment allowed : Bool) : List Spot → Bool × List Spot
  | [] => (allowed, [])
  | s :: rest =>
    if isBreak s.char then skipToToken inFlow false (allowed || !inFlow) rest
    else if comment then skipToToken inFlow true allowed rest
    else if s.char = ' ' ∨ (s.char = '\t' ∧ (inFlow ∨ !allowed)) ∨ (s.index = 0 ∧ s.char = byteOrderMark) then
      skipToToken inFlow false allowed rest
    else if s.char = '#' then skipToToken inFlow true allowed rest
    else (allowed, s :: rest)

/-- The end of the text: all block collections end, and no key is awaited. -/
def finish (l : Lexer) : Option (List (Token String)) := do
  let l ← (l.closeWhile fun _ => true).dropCandidate
  return l.tokens.reverse

/-- All tokens, of which at most `n` are left. -/
def run : Nat → Lexer → Option (List (Token String))
  | 0, _ => none
  | n + 1, l =>
    let (allowed, rest) := skipToToken l.inFlow false l.keyAllowed l.rest
    match rest with
    | [] => l.finish
    | s :: rest => do
      let l ← (l.allowKey allowed).refreshAll s
      run n (← (l.closeWhile (s.column < ·)).token s rest)

end Lexer

/-- The tokens of a YAML text. Each takes at least one character. -/
def tokens? (s : String) : Option (List (Token String)) := do
  let spots ← spots? s
  Lexer.run (spots.length + 1) { rest := spots }

end Tabular.Yaml
