import Tabular.Proofs.JsonGrammar

/-!
# Texts of JSON values

The two texts of a value differ in the blanks between its parts only: each is written in a `Layout`. What is written in
any layout spells the value (`spells_write`), so that reading either text gives the value back (`parse_compact`,
`parse_pretty`), whatever characters its strings hold. Numbers are left out, since nothing here writes one.
-/

namespace Tabular.Json

open Text

/-- The characters that an escape names by a letter. -/
def letters : List (Char × Char) :=
  [('"', '"'), ('\\', '\\'), ('\x08', 'b'), ('\x0c', 'f'), ('\n', 'n'), ('\r', 'r'), ('\t', 't')]

/-- The part of a string that an escaped character is read as. A control without a letter is given by its number. -/
def part (c : Char) : Part :=
  if c ∉ letters.map (·.1) ∧ c.toNat < 32 then .unit c.toNat else .char (some c)

private theorem escape_letter : ∀ p ∈ letters, escape p.1 = ['\\', p.2] ∧ unescape? p.2 = some p.1 := by
  decide

private theorem escape_of_not_mem {c : Char} (unnamed : c ∉ letters.map (·.1)) :
    escape c = if c.toNat < 32 then
      ['\\', 'u', '0', '0', digit (c.toNat / 16), digit (c.toNat % 16)] else [c] := by
  simp only [letters, List.map_cons, List.map_nil, List.mem_cons, List.not_mem_nil, or_false, not_or] at unnamed
  simp [escape, unnamed]

private theorem number?_control {n : Nat} (control : n < 32) :
    number? 16 ['0', '0', digit (n / 16), digit (n % 16)] = some n := by
  have zero : digit? '0' = some 0 := rfl
  have high := digit?_digit (n / 16) (by omega)
  have low := digit?_digit (n % 16) (by omega)
  have digits : n / 16 < 16 ∧ n % 16 < 16 ∧ 16 * (n / 16) + n % 16 = n := by omega
  simp [number?, zero, high, low, digits]

/-- A character is spelled by its escape, whatever follows. -/
theorem spellsParts_escape (c : Char) {ps : List Part} {s : Content} (rest : SpellsParts ps s) :
    SpellsParts (part c :: ps) ((escape c).map some ++ s) := by
  by_cases named : c ∈ letters.map (·.1)
  · obtain ⟨p, listed, rfl⟩ := List.mem_map.mp named
    obtain ⟨code, letter⟩ := escape_letter p listed
    rw [code, part, if_neg fun control => control.1 named]
    exact .letter letter rest
  rw [escape_of_not_mem named]
  by_cases control : c.toNat < 32
  · rw [if_pos control, part, if_pos ⟨named, control⟩]
    exact .unit (number?_control control) rest
  · have quote : c ≠ '"' := by rintro rfl; exact named (by decide)
    have backslash : c ≠ '\\' := by rintro rfl; exact named (by decide)
    rw [if_neg control, part, if_neg fun both => control both.2]
    exact .char quote backslash (Nat.not_lt.mp control) rest

theorem spellsParts_escaped (cs : List Char) : SpellsParts (cs.map part) ((cs.flatMap escape).map some) := by
  induction cs with
  | nil => exact .nil
  | cons c more ih =>
    rw [List.flatMap_cons, List.map_append]
    exact spellsParts_escape c ih

/-- A code unit below the surrogates is a character, whatever follows. -/
private theorem joinParts_unit {n : Nat} (low : n < 0xD800) (rest : List Part) :
    joinParts (.unit n :: rest) = some (Char.ofNat n) :: joinParts rest := by
  have alone : loneUnit n = some (Char.ofNat n) := by rw [loneUnit, if_neg (by omega)]
  cases rest with
  | nil => simp [joinParts, alone]
  | cons next more =>
    cases next with
    | char c => simp [joinParts, alone]
    | unit m => rw [joinParts, if_neg (by omega), alone]

theorem joinParts_map_part (cs : List Char) : joinParts (cs.map part) = cs.map some := by
  induction cs with
  | nil => rfl
  | cons c rest ih =>
    rw [List.map_cons, List.map_cons, part]
    by_cases control : c ∉ letters.map (·.1) ∧ c.toNat < 32
    · rw [if_pos control, joinParts_unit (by omega), Char.ofNat_toNat, ih]
    · rw [if_neg control, joinParts, ih]

/-- The parts of what was escaped are the string again. -/
theorem partsText_map_part (s : String) : partsText (s.toList.map part) = some s := by
  show Content.text? (joinParts (s.toList.map part)) = some s
  rw [joinParts_map_part]
  exact Content.text?_ofString s

theorem toList_quote (s : String) : (quote s).toList = '"' :: s.toList.flatMap escape ++ ['"'] :=
  String.toList_ofList

/-! ## Layouts -/

/-- The blanks of a text: those in front of an item at a depth, which also stand in front of the bracket after the
items one step deeper, and those after the colon of a member. -/
structure Layout where
  line : Nat → List Char
  colon : List Char
  line_blanks : ∀ depth, Blanks (line depth)
  colon_blanks : Blanks colon

namespace Layout

mutual

/-- The text of a value at a depth. -/
def write (l : Layout) (depth : Nat) : Json → List Char
  | .null => ['n', 'u', 'l', 'l']
  | .bool true => ['t', 'r', 'u', 'e']
  | .bool false => ['f', 'a', 'l', 's', 'e']
  | .number literal => literal.toList
  | .string s => (quote (s.getD "")).toList
  | .array [] => ['[', ']']
  | .array items => '[' :: l.writeItems (depth + 1) items ++ l.line depth ++ [']']
  | .object [] => ['{', '}']
  | .object members => '{' :: l.writeMembers (depth + 1) members ++ l.line depth ++ ['}']

/-- The items of an array, with commas between them. -/
def writeItems (l : Layout) (depth : Nat) : List Json → List Char
  | [] => []
  | [item] => l.line depth ++ l.write depth item
  | item :: rest => l.line depth ++ l.write depth item ++ ',' :: l.writeItems depth rest

/-- The members of an object, with commas between them. -/
def writeMembers (l : Layout) (depth : Nat) : List (Option String × Json) → List Char
  | [] => []
  | [(key, value)] => l.line depth ++ (quote (key.getD "")).toList ++ ':' :: l.colon ++ l.write depth value
  | (key, value) :: rest =>
    l.line depth ++ (quote (key.getD "")).toList ++ ':' :: l.colon ++ l.write depth value ++
      ',' :: l.writeMembers depth rest

end

/-- No blanks at all. -/
def compact : Layout where
  line _ := []
  colon := []
  line_blanks := by simp [Blanks]
  colon_blanks := by simp [Blanks]

/-- A line for each item, two blanks further in at each depth. -/
def pretty : Layout where
  line depth := (newLine depth).toList
  colon := [' ']
  line_blanks := by simp [Blanks, newLine]
  colon_blanks := by simp [Blanks]

end Layout

mutual

theorem toList_compact (depth : Nat) : ∀ j : Json, j.compact.toList = Layout.compact.write depth j
  | .null => rfl
  | .bool true => rfl
  | .bool false => rfl
  | .number _ => rfl
  | .string _ => rfl
  | .array [] => rfl
  | .array (item :: rest) => by
    simp [Json.compact, Layout.write, toList_compactItems (depth + 1) (item :: rest), Layout.compact]
  | .object [] => rfl
  | .object (member :: rest) => by
    simp [Json.compact, Layout.write, toList_compactMembers (depth + 1) (member :: rest), Layout.compact]

theorem toList_compactItems (depth : Nat) :
    ∀ items : List Json, (compactItems items).toList = Layout.compact.writeItems depth items
  | [] => rfl
  | [item] => by
    simp [compactItems, Layout.writeItems, toList_compact depth item, Layout.compact]
  | item :: next :: rest => by
    simp [compactItems, Layout.writeItems, toList_compact depth item, toList_compactItems depth (next :: rest),
      Layout.compact]

theorem toList_compactMembers (depth : Nat) : ∀ members : List (Option String × Json),
    (compactMembers members).toList = Layout.compact.writeMembers depth members
  | [] => rfl
  | [(key, value)] => by
    simp [compactMembers, Layout.writeMembers, toList_compact depth value, Layout.compact]
  | (key, value) :: next :: rest => by
    simp [compactMembers, Layout.writeMembers, toList_compact depth value, toList_compactMembers depth (next :: rest),
      Layout.compact]

end

mutual

theorem toList_prettyAt (depth : Nat) : ∀ j : Json, (prettyAt depth j).toList = Layout.pretty.write depth j
  | .null => by simp [prettyAt, Layout.write]
  | .bool true => by simp [prettyAt, Layout.write]
  | .bool false => by simp [prettyAt, Layout.write]
  | .number _ => by simp [prettyAt, Layout.write]
  | .string _ => by simp [prettyAt, Layout.write]
  | .array [] => by simp [prettyAt, Layout.write]
  | .array (item :: rest) => by
    simp [prettyAt, Layout.write, toList_prettyItems (depth + 1) (item :: rest), Layout.pretty]
  | .object [] => by simp [prettyAt, Layout.write]
  | .object (member :: rest) => by
    simp [prettyAt, Layout.write, toList_prettyMembers (depth + 1) (member :: rest), Layout.pretty]

theorem toList_prettyItems (depth : Nat) :
    ∀ items : List Json, (prettyItems depth items).toList = Layout.pretty.writeItems depth items
  | [] => rfl
  | [item] => by
    simp [prettyItems, Layout.writeItems, toList_prettyAt depth item, Layout.pretty]
  | item :: next :: rest => by
    simp [prettyItems, Layout.writeItems, toList_prettyAt depth item, toList_prettyItems depth (next :: rest),
      Layout.pretty]

theorem toList_prettyMembers (depth : Nat) : ∀ members : List (Option String × Json),
    (prettyMembers depth members).toList = Layout.pretty.writeMembers depth members
  | [] => rfl
  | [(key, value)] => by
    simp [prettyMembers, Layout.writeMembers, toList_prettyAt depth value, Layout.pretty]
  | (key, value) :: next :: rest => by
    simp [prettyMembers, Layout.writeMembers, toList_prettyAt depth value,
      toList_prettyMembers depth (next :: rest), Layout.pretty]

end

/-- A value without numbers whose strings are texts. -/
inductive Plain : Json → Prop
  | null : Plain .null
  | bool (b : Bool) : Plain (.bool b)
  | text (s : String) : Plain (text s)
  | array {items : List Json} (each : ∀ j ∈ items, Plain j) : Plain (.array items)
  | object {members : List (Option String × Json)} (keys : ∀ m ∈ members, m.1.isSome = true)
    (each : ∀ m ∈ members, Plain m.2) : Plain (.object members)

theorem spells_quote (s : String) : Spells (text s) ((quote s).toList.map some) := by
  rw [toList_quote, text, ← partsText_map_part s]
  simpa using Spells.string (spellsParts_escaped s.toList)

private theorem blanks_nil : Blanks [] := by
  simp [Blanks]

mutual

/-- The text of a value in any layout spells it. -/
theorem spells_write (l : Layout) (depth : Nat) : ∀ j : Json, Plain j → Spells j ((l.write depth j).map some)
  | .null, _ => .null
  | .bool true, _ => .true
  | .bool false, _ => .false
  | .number _, plain => by cases plain
  | .string s, plain => by
    cases plain with
    | text s => exact spells_quote s
  | .array [], _ => .emptyArray blanks_nil
  | .array (item :: more), plain => by
    cases plain with
    | array each =>
      have items :=
        spells_writeItems l (depth + 1) (item :: more) (List.cons_ne_nil _ _) each (l.line_blanks depth)
      simpa [Layout.write] using Spells.array items
  | .object [], _ => .emptyObject blanks_nil
  | .object (member :: more), plain => by
    cases plain with
    | object keys each =>
      have members :=
        spells_writeMembers l (depth + 1) (member :: more) (List.cons_ne_nil _ _) keys each (l.line_blanks depth)
      simpa [Layout.write] using Spells.object members

/-- Blanks in front of the bracket after the items belong to the text of the last one. -/
theorem spells_writeItems (l : Layout) (depth : Nat) : ∀ (items : List Json) {after : List Char}, items ≠ [] →
    (∀ j ∈ items, Plain j) → Blanks after →
    SpellsItems items ((l.writeItems depth items).map some ++ after.map some)
  | [], _, given, _, _ => absurd rfl given
  | [item], _, _, plain, blanks => by
    have spelled := spells_write l depth item (plain item List.mem_cons_self)
    simpa [Layout.writeItems] using SpellsItems.last (.padded (l.line_blanks depth) blanks spelled)
  | item :: next :: more, _, _, plain, blanks => by
    have spelled := spells_write l depth item (plain item List.mem_cons_self)
    have others := spells_writeItems l depth (next :: more) (List.cons_ne_nil _ _)
      (fun j later => plain j (List.mem_cons_of_mem _ later)) blanks
    simpa [Layout.writeItems] using SpellsItems.more (.padded (l.line_blanks depth) blanks_nil spelled) others

theorem spells_writeMembers (l : Layout) (depth : Nat) : ∀ (members : List (Option String × Json)) {after : List Char},
    members ≠ [] → (∀ m ∈ members, m.1.isSome = true) → (∀ m ∈ members, Plain m.2) → Blanks after →
    SpellsMembers members ((l.writeMembers depth members).map some ++ after.map some)
  | [], _, given, _, _, _ => absurd rfl given
  | (none, _) :: _, _, _, keys, _, _ => by
    have named := keys _ List.mem_cons_self
    cases named
  | [(some key, value)], _, _, _, plain, blanks => by
    have spelled := spells_write l depth value (plain _ List.mem_cons_self)
    have written := SpellsMembers.last (l.line_blanks depth) (spellsParts_escaped key.toList) blanks_nil
      (.padded l.colon_blanks blanks spelled)
    rw [partsText_map_part] at written
    simpa [Layout.writeMembers, memberText, toList_quote] using written
  | (some key, value) :: next :: more, _, _, keys, plain, blanks => by
    have spelled := spells_write l depth value (plain _ List.mem_cons_self)
    have others := spells_writeMembers l depth (next :: more) (List.cons_ne_nil _ _)
      (fun m later => keys m (List.mem_cons_of_mem _ later)) (fun m later => plain m (List.mem_cons_of_mem _ later))
      blanks
    have written := SpellsMembers.more (l.line_blanks depth) (spellsParts_escaped key.toList) blanks_nil
      (.padded l.colon_blanks blanks_nil spelled) others
    rw [partsText_map_part] at written
    simpa [Layout.writeMembers, memberText, toList_quote] using written

end

variable {j : Json}

theorem spells_compact (plain : Plain j) : Spells j (Content.ofString j.compact) := by
  rw [Content.ofString, toList_compact 0]
  exact spells_write .compact 0 j plain

theorem spells_pretty (plain : Plain j) : Spells j (Content.ofString j.pretty) := by
  rw [Content.ofString, pretty, toList_prettyAt 0]
  exact spells_write .pretty 0 j plain

theorem parse_compact (plain : Plain j) : parse (Content.ofString j.compact) = some j :=
  parse_spelled (spells_compact plain)

theorem parse_pretty (plain : Plain j) : parse (Content.ofString j.pretty) = some j :=
  parse_spelled (spells_pretty plain)

end Tabular.Json
