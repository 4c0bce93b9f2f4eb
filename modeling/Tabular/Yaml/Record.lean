import Tabular.Yaml.Document
import Tabular.Yaml.Style

/-!
# Records in YAML

What the nodes of a document stand for when a text, a flag, a list or a record with known fields is
wanted. Every node may be an alias for another one of the document.
-/

namespace Tabular.Yaml

/-- Reads nodes as parts of the document with the given root. -/
structure Reader where
  root : Node

namespace Reader

def scalar? (r : Reader) (n : Node) : Option Scalar :=
  match r.root.resolve? n with
  | some (.scalar _ s) => some s
  | _ => none

def text? (r : Reader) (n : Node) : Option String :=
  (r.scalar? n).map (·.text)

def nullTag : Tag := Tag.ofString "tag:yaml.org,2002:null"

def boolTag : Tag := Tag.ofString "tag:yaml.org,2002:bool"

/-- The text that a node stands for, or its absence, which is spelled without quotes. -/
def optionalText? (r : Reader) (n : Node) : Option (Option String) :=
  match r.scalar? n with
  | none => none
  | some ⟨tag, .plain, text⟩ =>
    match tag with
    | none => some (if text.isEmpty || isNullWord text then none else some text)
    | some t =>
      if t = nullTag then (if isNullWord text then some none else none) else some (some text)
  | some s => some (some s.text)

def flag? (r : Reader) (n : Node) : Option Bool :=
  match r.scalar? n with
  | some ⟨_, .plain, text⟩ => boolWord? text
  | some ⟨some t, .literal, text⟩ => if t = boolTag then boolWord? text else none
  | _ => none

/-- The items that a node lists; an empty plain scalar lists none. -/
def items? (r : Reader) (n : Node) : Option (List Node) :=
  match r.root.resolve? n with
  | some (.sequence _ items) => some items
  | some (.scalar _ ⟨_, .plain, ""⟩) => some []
  | _ => none

/-- The name that a tag of the document's own gives. -/
def localName? (tag : Tag) : Option String :=
  match tag with
  | [] => none
  | b :: rest =>
    if b ≠ 0x21 then none
    else if rest.isEmpty then some "!"
    else String.fromUTF8? ⟨rest.toArray⟩

def word? (r : Reader) (n : Node) : Option String :=
  match r.scalar? n with
  | none => none
  | some s =>
    match s.tag.bind localName? with
    | none => some s.text
    | some name => if s.style = .plain ∧ (s.text.isEmpty ∨ isNullWord s.text) then some name else none

/-- The fields of a record by name. Other members are of no account, but their names must be scalars; a
field must not be given twice. -/
def fields? (r : Reader) (names : List String) (n : Node) : Option (List (Option Node)) := do
  match r.root.resolve? n with
  | some (.mapping _ members) =>
    let members ← members.mapM fun (k, v) => do return (← r.text? k, v)
    if names.all fun name => (members.map (·.1)).count name ≤ 1 then
      return names.map fun name => members.lookup name
    else none
  | _ => none

end Reader

end Tabular.Yaml
