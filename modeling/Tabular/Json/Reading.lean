import Tabular.Json
import Tabular.Text.Content

/-!
# Reading JSON

`parse` reads one JSON value and nothing after it but blanks. Bytes that are no text may stand inside a
string only.
-/

namespace Tabular.Json

open Text

def skipBlanks : Content → Content
  | some c :: rest =>
    if c = ' ' ∨ c = '\t' ∨ c = '\n' ∨ c = '\r' then skipBlanks rest else some c :: rest
  | s => s

def unescape? : Char → Option Char
  | '"' => some '"'
  | '\\' => some '\\'
  | '/' => some '/'
  | 'b' => some '\x08'
  | 'f' => some '\x0c'
  | 'n' => some '\n'
  | 'r' => some '\r'
  | 't' => some '\t'
  | _ => none

/-- A part of a string: a character as it stands, or a code unit given by its number. -/
inductive Part where
  | char (c : Option Char)
  | unit (n : Nat)

/-- The parts of a string up to its closing quote, and what follows the quote. -/
def readParts : Content → Option (List Part × Content)
  | [] => none
  | none :: rest => (readParts rest).map fun (parts, after) => (.char none :: parts, after)
  | some '"' :: rest => some ([], rest)
  | some '\\' :: some 'u' :: some a :: some b :: some c :: some d :: rest => do
    let n ← number? 16 [a, b, c, d]
    let (parts, after) ← readParts rest
    return (.unit n :: parts, after)
  | some '\\' :: some e :: rest => do
    let c ← unescape? e
    let (parts, after) ← readParts rest
    return (.char (some c) :: parts, after)
  | some '\\' :: _ => none
  | some c :: rest =>
    if c.toNat < 32 then none
    else (readParts rest).map fun (parts, after) => (.char (some c) :: parts, after)

/-- The character of a code unit that stands alone. -/
def loneUnit (n : Nat) : Option Char :=
  if 0xD800 ≤ n ∧ n ≤ 0xDFFF then none else some (Char.ofNat n)

/-- The characters of the parts of a string. Two halves of a surrogate pair are one character. -/
def joinParts : List Part → List (Option Char)
  | [] => []
  | .char c :: rest => c :: joinParts rest
  | .unit n :: .unit m :: rest =>
    if 0xD800 ≤ n ∧ n < 0xDC00 ∧ 0xDC00 ≤ m ∧ m < 0xE000 then
      some (Char.ofNat (0x10000 + (n - 0xD800) * 0x400 + (m - 0xDC00))) :: joinParts rest
    else loneUnit n :: joinParts (.unit m :: rest)
  | .unit n :: rest => loneUnit n :: joinParts rest

def readString (s : Content) : Option (Option String × Content) := do
  let (parts, after) ← readParts s
  return ((joinParts parts).mapM id |>.map String.ofList, after)

def readDigits : Content → List Char × Content
  | some c :: rest =>
    if c.isDigit then ((c :: (readDigits rest).1), (readDigits rest).2) else ([], some c :: rest)
  | s => ([], s)

/-- Digits at the front after the given sign, at least one of them. -/
def readDigitsAfter (before : List Char) (s : Content) : Option (List Char × Content) :=
  match readDigits s with
  | ([], _) => none
  | (digits, after) => some (before ++ digits, after)

/-- The whole part of a number, which has no needless zero. -/
def readWhole (s : Content) : Option (List Char × Content) :=
  match s with
  | some '-' :: rest => checked ['-'] rest
  | _ => checked [] s
where
  /-- Digits of which the first is zero only if it is the only one. -/
  checked (sign : List Char) (s : Content) : Option (List Char × Content) :=
    match readDigits s with
    | ([], _) => none
    | (['0'], after) => some (sign ++ ['0'], after)
    | ('0' :: _, _) => none
    | (digits, after) => some (sign ++ digits, after)

def readFraction : Content → Option (List Char × Content)
  | some '.' :: rest => readDigitsAfter ['.'] rest
  | s => some ([], s)

def readExponent : Content → Option (List Char × Content)
  | some 'e' :: some '+' :: rest => readDigitsAfter ['e', '+'] rest
  | some 'e' :: some '-' :: rest => readDigitsAfter ['e', '-'] rest
  | some 'e' :: rest => readDigitsAfter ['e'] rest
  | some 'E' :: some '+' :: rest => readDigitsAfter ['E', '+'] rest
  | some 'E' :: some '-' :: rest => readDigitsAfter ['E', '-'] rest
  | some 'E' :: rest => readDigitsAfter ['E'] rest
  | s => some ([], s)

def readNumber (s : Content) : Option (Json × Content) := do
  let (whole, s) ← readWhole s
  let (fraction, s) ← readFraction s
  let (exponent, s) ← readExponent s
  return (.number (String.ofList (whole ++ fraction ++ exponent)), s)

mutual

/-- The value at the front, nested at most as deep as the first argument. -/
def readValue : Nat → Content → Option (Json × Content)
  | 0, _ => none
  | depth + 1, s =>
    match skipBlanks s with
    | some 'n' :: some 'u' :: some 'l' :: some 'l' :: rest => some (.null, rest)
    | some 't' :: some 'r' :: some 'u' :: some 'e' :: rest => some (.bool true, rest)
    | some 'f' :: some 'a' :: some 'l' :: some 's' :: some 'e' :: rest => some (.bool false, rest)
    | some '"' :: rest => (readString rest).map fun (s, after) => (.string s, after)
    | some '[' :: rest =>
      match skipBlanks rest with
      | some ']' :: after => some (.array [], after)
      | _ => (readItems depth rest).map fun (items, after) => (.array items, after)
    | some '{' :: rest =>
      match skipBlanks rest with
      | some '}' :: after => some (.object [], after)
      | _ => (readMembers depth rest).map fun (members, after) => (.object members, after)
    | s => readNumber s

def readItems : Nat → Content → Option (List Json × Content)
  | 0, _ => none
  | depth + 1, s => do
    let (item, s) ← readValue depth s
    match skipBlanks s with
    | some ',' :: rest =>
      let (items, after) ← readItems depth rest
      return (item :: items, after)
    | some ']' :: after => return ([item], after)
    | _ => none

def readMembers : Nat → Content → Option (List (Option String × Json) × Content)
  | 0, _ => none
  | depth + 1, s =>
    match skipBlanks s with
    | some '"' :: rest => do
      let (key, s) ← readString rest
      match skipBlanks s with
      | some ':' :: rest =>
        let (value, s) ← readValue depth rest
        match skipBlanks s with
        | some ',' :: rest =>
          let (members, after) ← readMembers depth rest
          return ((key, value) :: members, after)
        | some '}' :: after => return ([(key, value)], after)
        | _ => none
      | _ => none
    | _ => none

end

/-- The value that a text consists of. Each step into a value takes at most two steps of depth for one
character, so that the depth never runs out before the text. -/
def parse (s : Content) : Option Json :=
  match readValue (2 * s.length + 2) s with
  | some (j, after) => if skipBlanks after = [] then some j else none
  | none => none

/-! ## Records

An object stands for a record whose fields have names, and so does an array that lists the fields in
their order, of which the last ones may be left out. -/

def member? (members : List (Option String × Json)) (name : String) : Option Json :=
  (members.find? (·.1 = some name)).map (·.2)

/-- The fields of a record by name. Other members are of no account, but their names must be texts; a
field must not be given twice. -/
def fields? (names : List String) : Json → Option (List (Option Json))
  | .object members =>
    if members.all (·.1.isSome) ∧ names.all (fun n => (members.map (·.1)).count (some n) ≤ 1) then
      some (names.map (member? members))
    else none
  | .array items =>
    if items.length ≤ names.length then
      some (items.map some ++ List.replicate (names.length - items.length) none)
    else none
  | _ => none

end Tabular.Json
