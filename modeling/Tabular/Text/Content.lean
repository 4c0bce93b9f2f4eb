/-!
# Contents of files

A file holds bytes, which are read as text wherever they are well-formed UTF-8.
-/

namespace Tabular.Text

/-- The content of a file as the characters that its bytes stand for. A byte that belongs to no
character is `none`. -/
abbrev Content := List (Option Char)

namespace Content

def ofString (s : String) : Content :=
  s.toList.map some

/-- The text that a content consists of, unless some bytes are no text. -/
def text? (c : Content) : Option String :=
  (c.mapM id).map String.ofList

/-- The number of further bytes that follow the first byte of a character, and the bits of the character
that the first byte holds. -/
def firstByte? (n : Nat) : Option (Nat × Nat) :=
  if n < 0x80 then some (0, n)
  else if n < 0xC0 then none
  else if n < 0xE0 then some (1, n - 0xC0)
  else if n < 0xF0 then some (2, n - 0xE0)
  else if n < 0xF8 then some (3, n - 0xF0)
  else none

def leastWith (further : Nat) : Nat :=
  match further with
  | 0 => 0
  | 1 => 0x80
  | 2 => 0x800
  | _ => 0x10000

/-- The character that a first byte begins, and the number of bytes after it that belong to the
character. No character is written with more bytes than it needs. -/
def character? (first : UInt8) (rest : List UInt8) : Option (Char × Nat) := do
  let (further, bits) ← firstByte? first.toNat
  let bytes := rest.take further
  if bytes.length < further ∨ bytes.any (fun b => b < 0x80 || 0xC0 ≤ b) then none
  else
    let n := bytes.foldl (fun n b => 64 * n + (b.toNat - 0x80)) bits
    if h : n.isValidChar then
      if n < leastWith further then none else some (Char.ofNatAux n h, further)
    else none

def ofBytes : List UInt8 → Content
  | [] => []
  | b :: rest =>
    match character? b rest with
    | some (c, further) => some c :: ofBytes (rest.drop further)
    | none => none :: ofBytes rest
termination_by bytes => bytes.length
decreasing_by all_goals grind

@[simp]
theorem text?_ofString (s : String) : (ofString s).text? = some s := by
  have h : ∀ cs : List Char, (cs.map some).mapM id = some cs := by
    intro cs
    induction cs with
    | nil => rfl
    | cons c rest ih => simp [List.mapM_cons, ih]
  simp [text?, ofString, h]

end Content

end Tabular.Text
