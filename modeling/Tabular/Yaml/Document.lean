import Tabular.Yaml.Lexer
import Tabular.Yaml.Node

/-!
# From tokens to documents

`parse` reads the one document of a YAML text as a tree of nodes. Where a node is expected and none is
written, an empty plain scalar stands.
-/

namespace Tabular.Yaml

/-- The numbers of the names given so far. A name is given the number of names before it, so that one
given again is taken for the last of the names. -/
abbrev Labels := List (String × Nat)

def Labels.give (labels : Labels) (name : String) : Labels :=
  (name, labels.length) :: labels.filter (·.1 ≠ name)

/-- The tokens with numbers in place of the names of anchors. An alias refers to a name given before. -/
def number (labels : Labels) : List (Token String) → Option (List (Token Nat))
  | [] => some []
  | t :: rest =>
    match t with
    | .anchor name => (number (labels.give name) rest).map (.anchor labels.length :: ·)
    | .reference name => do
      let target ← labels.lookup name
      return .reference target :: (← number labels rest)
    | .versionDirective major minor => (number labels rest).map (.versionDirective major minor :: ·)
    | .tagDirective handle stem => (number labels rest).map (.tagDirective handle stem :: ·)
    | .documentStart => (number labels rest).map (.documentStart :: ·)
    | .documentEnd => (number labels rest).map (.documentEnd :: ·)
    | .sequenceStart => (number labels rest).map (.sequenceStart :: ·)
    | .mappingStart => (number labels rest).map (.mappingStart :: ·)
    | .blockEnd => (number labels rest).map (.blockEnd :: ·)
    | .flowSequenceStart => (number labels rest).map (.flowSequenceStart :: ·)
    | .flowSequenceEnd => (number labels rest).map (.flowSequenceEnd :: ·)
    | .flowMappingStart => (number labels rest).map (.flowMappingStart :: ·)
    | .flowMappingEnd => (number labels rest).map (.flowMappingEnd :: ·)
    | .entry => (number labels rest).map (.entry :: ·)
    | .flowEntry => (number labels rest).map (.flowEntry :: ·)
    | .key => (number labels rest).map (.key :: ·)
    | .value => (number labels rest).map (.value :: ·)
    | .tag handle suffix => (number labels rest).map (.tag handle suffix :: ·)
    | .scalar style text => (number labels rest).map (.scalar style text :: ·)

/-- The stems that handles of tags stand for. -/
abbrev Handles := List (String × Tag)

def Handles.standard : Handles :=
  [("!", Tag.ofString "!"), ("!!", Tag.ofString "tag:yaml.org,2002:")]

/-- The handles that directives declare, and the tokens after the directives. There is at most one
version, which is 1.1 or 1.2, and no handle is declared twice. -/
def readDirectives (versioned : Bool) (handles : Handles) :
    List (Token Nat) → Option (Handles × List (Token Nat))
  | .versionDirective major minor :: rest =>
    if versioned ∨ major ≠ 1 ∨ (minor ≠ 1 ∧ minor ≠ 2) then none else readDirectives true handles rest
  | .tagDirective handle stem :: rest =>
    if (handles.lookup handle).isSome then none
    else readDirectives versioned ((handle, stem) :: handles) rest
  | rest => some (handles, rest)

def Handles.resolve (handles : Handles) (handle : String) (suffix : Tag) : Option Tag :=
  if handle = "" then some suffix
  else ((handles ++ standard).lookup handle).map (· ++ suffix)

/-! ## Nodes -/

def empty : Node :=
  .scalar none ⟨none, .plain, ""⟩

def readProperties (handles : Handles) :
    List (Token Nat) → Option ((Option Nat × Option Tag) × List (Token Nat))
  | .anchor a :: .tag handle suffix :: rest => do
    return ((some a, some (← handles.resolve handle suffix)), rest)
  | .tag handle suffix :: .anchor a :: rest => do
    return ((some a, some (← handles.resolve handle suffix)), rest)
  | .anchor a :: rest => some ((some a, none), rest)
  | .tag handle suffix :: rest => do return ((none, some (← handles.resolve handle suffix)), rest)
  | rest => some ((none, none), rest)

/-- Where a node stands: in a flow collection, in a block, or as the key or the value of a block mapping,
where the entries of a sequence may stand in the column of the key. -/
inductive Setting where
  | flow
  | block
  | member
deriving DecidableEq

def isVoidBefore (ends tokens : List (Token Nat)) : Bool :=
  tokens.head?.any ends.contains

/-- What follows the comma that stands before every member of a flow collection but the first. -/
def afterComma (first : Bool) (tokens : List (Token Nat)) : Option (List (Token Nat)) :=
  if first then some tokens
  else
    match tokens with
    | .flowEntry :: rest => some rest
    | _ => none

mutual

/-- The node at the front; the first argument bounds the depth of the calls. -/
def readNode (handles : Handles) : Nat → Setting → List (Token Nat) → Option (Node × List (Token Nat))
  | 0, _, _ => none
  | _, _, .reference a :: rest => some (.reference a, rest)
  | n + 1, setting, tokens => do
    let ((anchor, tag), tokens) ← readProperties handles tokens
    match tokens with
    | .entry :: _ =>
      if setting = .member then
        let (items, rest) ← readEntries handles n true tokens
        return (.sequence anchor items, rest)
      else blank anchor tag tokens
    | .scalar style text :: rest =>
      -- The tag that is an exclamation mark alone leaves open what the scalar is.
      let tag := if tag = some (Tag.ofString "!") then none else tag
      return (.scalar anchor ⟨tag, style, text⟩, rest)
    | .flowSequenceStart :: rest =>
      let (items, rest) ← readFlowItems handles n true rest
      return (.sequence anchor items, rest)
    | .flowMappingStart :: rest =>
      let (members, rest) ← readFlowMembers handles n true rest
      return (.mapping anchor members, rest)
    | .sequenceStart :: rest =>
      if setting = .flow then blank anchor tag tokens
      else
        let (items, rest) ← readEntries handles n false rest
        return (.sequence anchor items, rest)
    | .mappingStart :: rest =>
      if setting = .flow then blank anchor tag tokens
      else
        let (members, rest) ← readMembers handles n rest
        return (.mapping anchor members, rest)
    | _ => blank anchor tag tokens
where
  blank (anchor : Option Nat) (tag : Option Tag) (tokens : List (Token Nat)) :
      Option (Node × List (Token Nat)) :=
    if anchor.isNone ∧ tag.isNone then none else some (.scalar anchor ⟨tag, .plain, ""⟩, tokens)

/-- The entries of a block sequence. Entries in the column of a key have no token that ends them. -/
def readEntries (handles : Handles) : Nat → Bool → List (Token Nat) →
    Option (List Node × List (Token Nat))
  | 0, _, _ => none
  | n + 1, flush, .entry :: tokens => do
    let ends := if flush then [.entry, .key, .value, .blockEnd] else [.entry, .blockEnd]
    let (item, tokens) ←
      if isVoidBefore ends tokens then some (empty, tokens) else readNode handles n .block tokens
    let (items, rest) ← readEntries handles n flush tokens
    return (item :: items, rest)
  | _ + 1, true, tokens => some ([], tokens)
  | _ + 1, false, .blockEnd :: rest => some ([], rest)
  | _ + 1, false, _ => none

def readMembers (handles : Handles) : Nat → List (Token Nat) →
    Option (List (Node × Node) × List (Token Nat))
  | 0, _ => none
  | _ + 1, .blockEnd :: rest => some ([], rest)
  | n + 1, .key :: tokens => do
    let (k, tokens) ← readMemberNode handles n tokens
    let (v, tokens) ← readMemberValue handles n tokens
    let (members, rest) ← readMembers handles n tokens
    return ((k, v) :: members, rest)
  | _ + 1, _ => none

def readMemberNode (handles : Handles) : Nat → List (Token Nat) → Option (Node × List (Token Nat))
  | 0, _ => none
  | n + 1, tokens =>
    if isVoidBefore [.key, .value, .blockEnd] tokens then some (empty, tokens)
    else readNode handles n .member tokens

def readMemberValue (handles : Handles) : Nat → List (Token Nat) → Option (Node × List (Token Nat))
  | 0, _ => none
  | n + 1, .value :: tokens => readMemberNode handles n tokens
  | _ + 1, tokens => some (empty, tokens)

/-- The items of a flow sequence. An item may be a mapping of one member without brackets. -/
def readFlowItems (handles : Handles) : Nat → Bool → List (Token Nat) →
    Option (List Node × List (Token Nat))
  | 0, _, _ => none
  | _ + 1, _, .flowSequenceEnd :: rest => some ([], rest)
  | n + 1, first, tokens => do
    match ← afterComma first tokens with
    | .flowSequenceEnd :: rest => return ([], rest)
    | .key :: tokens =>
      let (k, tokens) ← readPairKey handles n tokens
      let (v, tokens) ← readFlowValue handles n [.flowEntry, .flowSequenceEnd] tokens
      let (items, rest) ← readFlowItems handles n false tokens
      return (.mapping none [(k, v)] :: items, rest)
    | tokens =>
      let (item, tokens) ← readNode handles n .flow tokens
      let (items, rest) ← readFlowItems handles n false tokens
      return (item :: items, rest)

/-- The key of a mapping without brackets. A key left out takes the token that stands in its place. -/
def readPairKey (handles : Handles) : Nat → List (Token Nat) → Option (Node × List (Token Nat))
  | 0, _ => none
  | n + 1, tokens =>
    if isVoidBefore [.value, .flowEntry, .flowSequenceEnd] tokens then some (empty, tokens.drop 1)
    else readNode handles n .flow tokens

def readFlowMembers (handles : Handles) : Nat → Bool → List (Token Nat) →
    Option (List (Node × Node) × List (Token Nat))
  | 0, _, _ => none
  | _ + 1, _, .flowMappingEnd :: rest => some ([], rest)
  | n + 1, first, tokens => do
    match ← afterComma first tokens with
    | .flowMappingEnd :: rest => return ([], rest)
    | .key :: tokens =>
      let (k, tokens) ←
        if isVoidBefore [.value, .flowEntry, .flowMappingEnd] tokens then some (empty, tokens)
        else readNode handles n .flow tokens
      let (v, tokens) ← readFlowValue handles n [.flowEntry, .flowMappingEnd] tokens
      let (members, rest) ← readFlowMembers handles n false tokens
      return ((k, v) :: members, rest)
    | tokens =>
      let (k, tokens) ← readNode handles n .flow tokens
      let (members, rest) ← readFlowMembers handles n false tokens
      return ((k, empty) :: members, rest)

def readFlowValue (handles : Handles) : Nat → List (Token Nat) → List (Token Nat) →
    Option (Node × List (Token Nat))
  | 0, _, _ => none
  | n + 1, ends, .value :: tokens =>
    if isVoidBefore ends tokens then some (empty, tokens) else readNode handles n .flow tokens
  | _ + 1, _, tokens => some (empty, tokens)

end

def readRoot (handles : Handles) (tokens : List (Token Nat)) : Option (Node × List (Token Nat)) :=
  readNode handles (3 * tokens.length + 3) .block tokens

/-- The tokens of the one document in a text, and the handles it declares; the document is empty if
nothing follows the mark that starts it. -/
def readDocument (tokens : List (Token Nat)) : Option (Node × List (Token Nat)) :=
  match tokens with
  | .versionDirective .. :: _ | .tagDirective .. :: _ | .documentStart :: _ => do
    match ← readDirectives false [] tokens with
    | (handles, .documentStart :: tokens) =>
      match tokens with
      | [] | .documentStart :: _ | .documentEnd :: _ | .versionDirective .. :: _
      | .tagDirective .. :: _ => return (empty, tokens)
      | _ => readRoot handles tokens
    | _ => none
  | _ => readRoot [] tokens

def parse (s : String) : Option Node := do
  let tokens ← number [] (← tokens? s)
  let (root, rest) ← readDocument tokens
  if rest.all (· == .documentEnd) then return root else none

end Tabular.Yaml
