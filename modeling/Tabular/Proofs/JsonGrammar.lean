import Tabular.Json.Reading
import Mathlib.Data.List.Basic

/-!
# The grammar of JSON texts

`Spells` tells which texts a value has: blanks stand around any part of it, a character of a string is written as it
is or escaped, and a number is any literal of the grammar. Reading a text gives the value that it spells
(`parse_spelled`), whatever its strings hold and however deep it is nested.
-/

namespace Tabular.Json

open Text

/-- Characters that may stand between the parts of a text. -/
def Blanks (cs : List Char) : Prop :=
  ∀ c ∈ cs, c = ' ' ∨ c = '\t' ∨ c = '\n' ∨ c = '\r'

theorem skipBlanks_append {cs : List Char} (blanks : Blanks cs) (rest : Content) :
    skipBlanks (cs.map some ++ rest) = skipBlanks rest := by
  induction cs with
  | nil => rfl
  | cons c more ih =>
    rw [List.map_cons, List.cons_append, skipBlanks, if_pos (blanks c List.mem_cons_self)]
    exact ih fun d member => blanks d (List.mem_cons_of_mem c member)

theorem readValue_append {fuel : Nat} {cs : List Char} (blanks : Blanks cs) (s : Content) :
    readValue fuel (cs.map some ++ s) = readValue fuel s := by
  cases fuel with
  | zero => rfl
  | succ n => rw [readValue, readValue, skipBlanks_append blanks]

/-! ## Strings -/

/-- The parts of a string and their text. A character other than a quote, a backslash or a control may stand as it
is, and so may bytes that are no text. -/
inductive SpellsParts : List Part → Content → Prop
  | nil : SpellsParts [] []
  | char {c : Char} {ps : List Part} {s : Content} (quote : c ≠ '"') (backslash : c ≠ '\\') (printable : 32 ≤ c.toNat)
      (rest : SpellsParts ps s) : SpellsParts (.char (some c) :: ps) (some c :: s)
  | byte {ps : List Part} {s : Content} (rest : SpellsParts ps s) : SpellsParts (.char none :: ps) (none :: s)
  | letter {c e : Char} {ps : List Part} {s : Content} (named : unescape? e = some c) (rest : SpellsParts ps s) :
      SpellsParts (.char (some c) :: ps) (some '\\' :: some e :: s)
  | unit {a b c d : Char} {n : Nat} {ps : List Part} {s : Content} (number : number? 16 [a, b, c, d] = some n)
      (rest : SpellsParts ps s) :
      SpellsParts (.unit n :: ps) (some '\\' :: some 'u' :: some a :: some b :: some c :: some d :: s)

/-- The text that the parts of a string are, unless they are none. -/
def partsText (ps : List Part) : Option String :=
  ((joinParts ps).mapM id).map String.ofList

theorem readParts_spelled {ps : List Part} {s : Content} (spelled : SpellsParts ps s) (rest : Content) :
    readParts (s ++ some '"' :: rest) = some (ps, rest) := by
  induction spelled with
  | nil => simp [readParts]
  | char quote backslash printable _ ih =>
    rw [List.cons_append, readParts]
    · simp [ih, Nat.not_lt.mpr printable]
    · simp [quote]
    · simp [backslash]
    · simp [backslash]
    · simp [backslash]
  | byte _ ih => simp [readParts, ih]
  | @letter c e _ _ named _ ih =>
    have other : e ≠ 'u' := by
      rintro rfl
      simp [unescape?] at named
    simp only [List.cons_append]
    rw [readParts]
    · simp [named, ih]
    · simp [other]
  | unit number _ ih => simp [readParts, number, ih]

/-- A string is read up to the quote that ends it. -/
theorem readString_spelled {ps : List Part} {s : Content} (spelled : SpellsParts ps s) (rest : Content) :
    readString (s ++ some '"' :: rest) = some (partsText ps, rest) := by
  rw [readString, readParts_spelled spelled]
  rfl

/-! ## Numbers -/

def Digits (ds : List Char) : Prop :=
  ds ≠ [] ∧ ∀ c ∈ ds, c.isDigit = true

/-- The whole part of a number, in which no zero stands in front of other digits. -/
def Whole (ds : List Char) : Prop :=
  Digits ds ∧ (ds.head? = some '0' → ds = ['0'])

inductive Fraction : List Char → Prop
  | absent : Fraction []
  | given {ds : List Char} (digits : Digits ds) : Fraction ('.' :: ds)

inductive Exponent : List Char → Prop
  | absent : Exponent []
  | given {mark : Char} {sign ds : List Char} (marked : mark = 'e' ∨ mark = 'E')
      (signed : sign = [] ∨ sign = ['+'] ∨ sign = ['-']) (digits : Digits ds) : Exponent (mark :: (sign ++ ds))

/-- The literals of numbers. -/
inductive Literal : List Char → Prop
  | mk {sign whole fraction exponent : List Char} (signed : sign = [] ∨ sign = ['-']) (integral : Whole whole)
      (decimal : Fraction fraction) (scaled : Exponent exponent) : Literal (sign ++ whole ++ fraction ++ exponent)

/-- What follows some digits does not go on with another one. -/
def EndsDigits (s : Content) : Prop :=
  ∀ c, s.head? = some (some c) → c.isDigit = false

/-- What follows a number goes on with no character that could belong to it. -/
def Stops (s : Content) : Prop :=
  ∀ c, s.head? = some (some c) → c.isDigit = false ∧ c ≠ '.' ∧ c ≠ 'e' ∧ c ≠ 'E'

theorem ne_of_isDigit {c d : Char} (digit : c.isDigit = true) (other : d.isDigit = false) : c ≠ d := by
  rintro rfl
  rw [other] at digit
  cases digit

theorem readDigits_append {ds : List Char} {rest : Content} (digits : ∀ c ∈ ds, c.isDigit = true)
    (ends : EndsDigits rest) : readDigits (ds.map some ++ rest) = (ds, rest) := by
  induction ds with
  | nil =>
    cases rest with
    | nil => rfl
    | cons c more =>
      cases c with
      | none => rfl
      | some c => simp [readDigits, ends c rfl]
  | cons c more ih =>
    have first : c.isDigit = true := digits c List.mem_cons_self
    have later := ih fun d member => digits d (List.mem_cons_of_mem c member)
    simp [readDigits, first, later]

theorem readDigitsAfter_append {before ds : List Char} {rest : Content} (digits : Digits ds) (ends : EndsDigits rest) :
    readDigitsAfter before (ds.map some ++ rest) = some (before ++ ds, rest) := by
  obtain ⟨some, all⟩ := digits
  cases ds with
  | nil => exact absurd rfl some
  | cons c more =>
    unfold readDigitsAfter
    rw [readDigits_append all ends]

theorem readFraction_append {fraction : List Char} {rest : Content} (decimal : Fraction fraction)
    (ends : EndsDigits rest) (point : rest.head? ≠ some (some '.')) :
    readFraction (fraction.map some ++ rest) = some (fraction, rest) := by
  cases decimal with
  | absent =>
    rw [List.map_nil, List.nil_append, readFraction]
    rintro more rfl
    exact point rfl
  | given digits => exact readDigitsAfter_append digits ends

theorem readExponent_append {exponent : List Char} {rest : Content} (scaled : Exponent exponent) (stops : Stops rest) :
    readExponent (exponent.map some ++ rest) = some (exponent, rest) := by
  cases scaled with
  | absent =>
    have lower : ∀ more, rest ≠ some 'e' :: more := by
      rintro more rfl
      exact (stops 'e' rfl).2.2.1 rfl
    have upper : ∀ more, rest ≠ some 'E' :: more := by
      rintro more rfl
      exact (stops 'E' rfl).2.2.2 rfl
    unfold readExponent
    split <;> simp_all
  | given marked signed digits =>
    have ends : EndsDigits rest := fun c next => (stops c next).1
    have read : ∀ before, readDigitsAfter before _ = some (before ++ _, rest) := fun _ =>
      readDigitsAfter_append digits ends
    rcases signed with rfl | rfl | rfl
    · -- The first digit is no sign.
      obtain ⟨given, all⟩ := digits
      obtain ⟨d, more, rfl⟩ := List.exists_cons_of_ne_nil given
      have digit : d.isDigit = true := all d List.mem_cons_self
      have plus : d ≠ '+' := ne_of_isDigit digit rfl
      have minus : d ≠ '-' := ne_of_isDigit digit rfl
      rcases marked with rfl | rfl
      · simpa [readExponent, plus, minus] using read ['e']
      · simpa [readExponent, plus, minus] using read ['E']
    · rcases marked with rfl | rfl
      · exact read ['e', '+']
      · exact read ['E', '+']
    · rcases marked with rfl | rfl
      · exact read ['e', '-']
      · exact read ['E', '-']

/-- The whole part with its sign, which no digit follows. -/
theorem readWhole_append {sign whole : List Char} {rest : Content} (signed : sign = [] ∨ sign = ['-'])
    (integral : Whole whole) (ends : EndsDigits rest) :
    readWhole ((sign ++ whole).map some ++ rest) = some (sign ++ whole, rest) := by
  obtain ⟨⟨given, all⟩, zero⟩ := integral
  have digits : readDigits (whole.map some ++ rest) = (whole, rest) := readDigits_append all ends
  have checked : ∀ before, readWhole.checked before (whole.map some ++ rest) = some (before ++ whole, rest) := by
    intro before
    unfold readWhole.checked
    rw [digits]
    split <;> simp_all
  rcases signed with rfl | rfl
  · obtain ⟨d, more, rfl⟩ := List.exists_cons_of_ne_nil given
    have digit : d.isDigit = true := all d List.mem_cons_self
    have minus : d ≠ '-' := ne_of_isDigit digit rfl
    rw [List.nil_append, readWhole]
    · exact checked []
    · simp [minus]
  · exact checked ['-']

/-- A number is read up to where its literal ends. -/
theorem readNumber_append {cs : List Char} {rest : Content} (literal : Literal cs) (stops : Stops rest) :
    readNumber (cs.map some ++ rest) = some (.number (String.ofList cs), rest) := by
  cases literal with
  | @mk sign whole fraction exponent signed integral decimal scaled =>
    -- An exponent, if there is one, starts with its mark, and a fraction with the point.
    have afterFraction : ∀ c, (exponent.map some ++ rest).head? = some (some c) → c.isDigit = false ∧ c ≠ '.' := by
      intro c first
      cases scaled with
      | absent => exact ⟨(stops c first).1, (stops c first).2.1⟩
      | given marked _ _ => rcases marked with rfl | rfl <;> cases first <;> decide
    have afterWhole : EndsDigits (fraction.map some ++ (exponent.map some ++ rest)) := by
      intro c first
      cases decimal with
      | absent => exact (afterFraction c first).1
      | given _ => cases first; rfl
    have point : (exponent.map some ++ rest).head? ≠ some (some '.') := fun first => (afterFraction '.' first).2 rfl
    rw [List.map_append, List.map_append, List.append_assoc, List.append_assoc, readNumber,
      readWhole_append signed integral afterWhole]
    simp only [Option.bind_eq_bind, Option.bind_some]
    rw [readFraction_append decimal (fun c first => (afterFraction c first).1) point]
    simp only [Option.bind_some]
    rw [readExponent_append scaled stops]
    simp

/-- A literal starts with a sign or a digit. -/
theorem exists_cons_of_literal {cs : List Char} (literal : Literal cs) :
    ∃ c more, cs = c :: more ∧ (c = '-' ∨ c.isDigit = true) := by
  cases literal with
  | mk signed integral _ _ =>
    obtain ⟨⟨given, all⟩, _⟩ := integral
    obtain ⟨d, more, rfl⟩ := List.exists_cons_of_ne_nil given
    rcases signed with rfl | rfl
    · exact ⟨d, _, rfl, .inr (all d List.mem_cons_self)⟩
    · exact ⟨'-', _, rfl, .inl rfl⟩

/-- No literal starts as another value does. -/
theorem literal_head {c : Char} (first : c = '-' ∨ c.isDigit = true) :
    ¬ (c = ' ' ∨ c = '\t' ∨ c = '\n' ∨ c = '\r') ∧ c ≠ ']' ∧ c ∉ ['n', 't', 'f', '"', '[', '{'] := by
  rcases first with rfl | digit
  · decide
  · have other : ∀ d : Char, d.isDigit = false → c ≠ d := fun _ => ne_of_isDigit digit
    simp [other]

theorem readValue_number {fuel : Nat} {cs : List Char} {rest : Content} (literal : Literal cs) (stops : Stops rest) :
    readValue (fuel + 1) (cs.map some ++ rest) = some (.number (String.ofList cs), rest) := by
  have read := readNumber_append literal stops
  obtain ⟨c, more, rfl, first⟩ := exists_cons_of_literal literal
  rw [List.map_cons, List.cons_append] at read ⊢
  obtain ⟨front, _, others⟩ := literal_head first
  simp only [List.mem_cons, List.not_mem_nil, or_false, not_or] at others
  rw [readValue, skipBlanks, if_neg front]
  simpa [others] using read

/-! ## Values -/

/-- The text of a member of an object: the key in quotes, a colon and the text of the value. -/
def memberText (before : List Char) (key : Content) (between : List Char) (value : Content) : Content :=
  before.map some ++ some '"' :: (key ++ some '"' :: (between.map some ++ some ':' :: value))

theorem memberText_append (before : List Char) (key : Content) (between : List Char) (value rest : Content) :
    memberText before key between value ++ rest = memberText before key between (value ++ rest) := by
  simp [memberText]

mutual

/-- The texts of a value. -/
inductive Spells : Json → Content → Prop
  | null : Spells .null [some 'n', some 'u', some 'l', some 'l']
  | true : Spells (.bool true) [some 't', some 'r', some 'u', some 'e']
  | false : Spells (.bool false) [some 'f', some 'a', some 'l', some 's', some 'e']
  | number {cs : List Char} (literal : Literal cs) : Spells (.number (String.ofList cs)) (cs.map some)
  | string {ps : List Part} {s : Content} (spelled : SpellsParts ps s) :
      Spells (.string (partsText ps)) (some '"' :: (s ++ [some '"']))
  | emptyArray {between : List Char} (blanks : Blanks between) :
      Spells (.array []) (some '[' :: (between.map some ++ [some ']']))
  | array {items : List Json} {s : Content} (spelled : SpellsItems items s) :
      Spells (.array items) (some '[' :: (s ++ [some ']']))
  | emptyObject {between : List Char} (blanks : Blanks between) :
      Spells (.object []) (some '{' :: (between.map some ++ [some '}']))
  | object {members : List (Option String × Json)} {s : Content} (spelled : SpellsMembers members s) :
      Spells (.object members) (some '{' :: (s ++ [some '}']))
  | padded {before after : List Char} {j : Json} {s : Content} (front : Blanks before) (back : Blanks after)
      (spelled : Spells j s) : Spells j (before.map some ++ (s ++ after.map some))

/-- The texts of the items of an array, with commas between them. -/
inductive SpellsItems : List Json → Content → Prop
  | last {item : Json} {s : Content} (spelled : Spells item s) : SpellsItems [item] s
  | more {item : Json} {items : List Json} {s t : Content} (spelled : Spells item s) (others : SpellsItems items t) :
      SpellsItems (item :: items) (s ++ some ',' :: t)

/-- The texts of the members of an object, with commas between them. -/
inductive SpellsMembers : List (Option String × Json) → Content → Prop
  | last {before between : List Char} {ps : List Part} {key s : Content} {value : Json} (front : Blanks before)
      (name : SpellsParts ps key) (back : Blanks between) (spelled : Spells value s) :
      SpellsMembers [(partsText ps, value)] (memberText before key between s)
  | more {before between : List Char} {ps : List Part} {key s t : Content} {value : Json}
      {members : List (Option String × Json)} (front : Blanks before) (name : SpellsParts ps key)
      (back : Blanks between) (spelled : Spells value s) (others : SpellsMembers members t) :
      SpellsMembers ((partsText ps, value) :: members) (memberText before key between s ++ some ',' :: t)

end

/-- The text of a value starts, after blanks, with a character that closes no array. -/
theorem skipBlanks_spelled : ∀ {j : Json} {s : Content}, Spells j s → ∀ rest : Content,
    ∃ c more, skipBlanks (s ++ rest) = some c :: more ∧ c ≠ ']'
  | _, _, .null, rest | _, _, .true, rest | _, _, .false, rest | _, _, .string _, rest
  | _, _, .emptyArray _, rest | _, _, .array _, rest | _, _, .emptyObject _, rest | _, _, .object _, rest =>
    ⟨_, _, rfl, by decide⟩
  | _, _, .number literal, rest => by
    obtain ⟨c, more, rfl, first⟩ := exists_cons_of_literal literal
    obtain ⟨front, closes, _⟩ := literal_head first
    exact ⟨c, more.map some ++ rest, by rw [List.map_cons, List.cons_append, skipBlanks, if_neg front], closes⟩
  | _, _, .padded front _ spelled, rest => by
    rw [List.append_assoc, skipBlanks_append front, List.append_assoc]
    exact skipBlanks_spelled spelled _

theorem skipBlanks_items {items : List Json} {s : Content} (spelled : SpellsItems items s) (rest : Content) :
    ∃ c more, skipBlanks (s ++ rest) = some c :: more ∧ c ≠ ']' := by
  cases spelled with
  | last item => exact skipBlanks_spelled item rest
  | more item _ =>
    rw [List.append_assoc]
    exact skipBlanks_spelled item _

theorem length_pos_of_spelled {j : Json} {s : Content} (spelled : Spells j s) : 0 < s.length := by
  obtain ⟨c, more, first, _⟩ := skipBlanks_spelled spelled []
  cases s with
  | nil => cases first
  | cons _ _ => exact Nat.succ_pos _

/-- The text of the members of an object starts, after blanks, with the quote of the first key. -/
theorem skipBlanks_members {members : List (Option String × Json)} {s : Content} (spelled : SpellsMembers members s)
    (rest : Content) : ∃ more, skipBlanks (s ++ rest) = some '"' :: more := by
  cases spelled with
  | last front _ _ _ =>
    rw [memberText, List.append_assoc, skipBlanks_append front]
    exact ⟨_, rfl⟩
  | more front _ _ _ _ =>
    rw [memberText, List.append_assoc, List.append_assoc, skipBlanks_append front]
    exact ⟨_, rfl⟩

section Steps

variable {fuel : Nat} {s t u v w x rest : Content}

theorem readValue_array {c : Char} {more : Content} {items : List Json}
    (first : skipBlanks s = some c :: more) (mark : c ≠ ']') (read : readItems fuel s = some (items, rest)) :
    readValue (fuel + 1) (some '[' :: s) = some (.array items, rest) := by
  rw [readValue]
  simp only [skipBlanks, Char.reduceEq, or_self, if_false, first]
  split
  · next same => simp_all
  · rw [read]
    rfl

theorem readValue_object {more : Content} {members : List (Option String × Json)}
    (first : skipBlanks s = some '"' :: more) (read : readMembers fuel s = some (members, rest)) :
    readValue (fuel + 1) (some '{' :: s) = some (.object members, rest) := by
  rw [readValue]
  simp only [skipBlanks, Char.reduceEq, or_self, if_false, first]
  rw [read]
  rfl

theorem readItems_last {item : Json} (read : readValue fuel s = some (item, t))
    (closed : skipBlanks t = some ']' :: rest) : readItems (fuel + 1) s = some ([item], rest) := by
  rw [readItems, read]
  simp [closed]

theorem readItems_more {item : Json} {items : List Json} (read : readValue fuel s = some (item, t))
    (comma : skipBlanks t = some ',' :: u) (others : readItems fuel u = some (items, rest)) :
    readItems (fuel + 1) s = some (item :: items, rest) := by
  rw [readItems, read]
  simp [comma, others]

theorem readMembers_last {key : Option String} {value : Json} (first : skipBlanks s = some '"' :: t)
    (name : readString t = some (key, u)) (colon : skipBlanks u = some ':' :: v)
    (read : readValue fuel v = some (value, w)) (closed : skipBlanks w = some '}' :: rest) :
    readMembers (fuel + 1) s = some ([(key, value)], rest) := by
  rw [readMembers]
  simp [first, name, colon, read, closed]

theorem readMembers_more {key : Option String} {value : Json} {members : List (Option String × Json)}
    (first : skipBlanks s = some '"' :: t) (name : readString t = some (key, u))
    (colon : skipBlanks u = some ':' :: v) (read : readValue fuel v = some (value, w))
    (comma : skipBlanks w = some ',' :: x) (others : readMembers fuel x = some (members, rest)) :
    readMembers (fuel + 1) s = some ((key, value) :: members, rest) := by
  rw [readMembers]
  simp [first, name, colon, read, comma, others]

end Steps

theorem stops_blanks {after : List Char} {rest : Content} (blanks : Blanks after) (stops : Stops rest) :
    Stops (after.map some ++ rest) := by
  cases after with
  | nil => exact stops
  | cons c more =>
    intro d first
    obtain rfl : c = d := by simpa using first
    rcases blanks c List.mem_cons_self with rfl | rfl | rfl | rfl <;> decide

theorem stops_cons {c : Char} {rest : Content} (mark : c ∈ [',', ']', '}']) : Stops (some c :: rest) := by
  intro d first
  obtain rfl : c = d := by simpa using first
  simp only [List.mem_cons, List.not_mem_nil, or_false] at mark
  rcases mark with rfl | rfl | rfl <;> decide

/-- What is read of the text of a member in front of its value. -/
theorem read_memberText {before between : List Char} {ps : List Part} {key : Content} (front : Blanks before)
    (name : SpellsParts ps key) (back : Blanks between) (s : Content) :
    ∃ t u, skipBlanks (memberText before key between s) = some '"' :: t ∧ readString t = some (partsText ps, u) ∧
      skipBlanks u = some ':' :: s := by
  refine ⟨_, between.map some ++ some ':' :: s, ?_, readString_spelled name _, ?_⟩
  · rw [memberText, skipBlanks_append front]
    rfl
  · rw [skipBlanks_append back]
    rfl

mutual

/-- A value is read from any of its texts, up to blanks. The depth that its nesting takes is within the length of
the text. -/
theorem readValue_spelled : ∀ {j : Json} {s : Content}, Spells j s → ∀ (fuel : Nat) (rest : Content),
    s.length ≤ fuel → Stops rest →
    ∃ after, readValue fuel (s ++ rest) = some (j, after) ∧ skipBlanks after = skipBlanks rest
  | _, _, spelled, 0, _, enough, _ => by
    have := length_pos_of_spelled spelled
    omega
  | _, _, .null, n + 1, rest, _, _ | _, _, .true, n + 1, rest, _, _ | _, _, .false, n + 1, rest, _, _ =>
    ⟨rest, by simp [readValue, skipBlanks], rfl⟩
  | _, _, .number literal, n + 1, rest, _, stops => ⟨rest, readValue_number literal stops, rfl⟩
  | _, _, .string spelled, n + 1, rest, _, _ =>
    ⟨rest, by simp [readValue, skipBlanks, readString_spelled spelled], rfl⟩
  | _, _, .emptyArray blanks, n + 1, rest, _, _ =>
    ⟨rest, by simp [readValue, skipBlanks, skipBlanks_append blanks], rfl⟩
  | _, _, .emptyObject blanks, n + 1, rest, _, _ =>
    ⟨rest, by simp [readValue, skipBlanks, skipBlanks_append blanks], rfl⟩
  | _, _, @Spells.array items s spelled, n + 1, rest, enough, _ => by
    have short : s.length + 1 ≤ n := by
      simp at enough
      omega
    have read := readItems_spelled spelled n rest short
    obtain ⟨c, more, first, mark⟩ := skipBlanks_items spelled (some ']' :: rest)
    refine ⟨rest, ?_, rfl⟩
    simpa using readValue_array first mark read
  | _, _, @Spells.object members s spelled, n + 1, rest, enough, _ => by
    have short : s.length + 1 ≤ n := by
      simp at enough
      omega
    have read := readMembers_spelled spelled n rest short
    obtain ⟨more, first⟩ := skipBlanks_members spelled (some '}' :: rest)
    refine ⟨rest, ?_, rfl⟩
    simpa using readValue_object first read
  | _, _, @Spells.padded before after j s front back spelled, n + 1, rest, enough, stops => by
    have short : s.length ≤ n + 1 := by
      simp at enough
      omega
    -- Blanks behind the value may be left to whatever reads on.
    obtain ⟨left, read, same⟩ :=
      readValue_spelled spelled (n + 1) (after.map some ++ rest) short (stops_blanks back stops)
    refine ⟨left, ?_, same.trans (skipBlanks_append back rest)⟩
    rw [List.append_assoc, readValue_append front, List.append_assoc]
    exact read

theorem readItems_spelled : ∀ {items : List Json} {s : Content}, SpellsItems items s →
    ∀ (fuel : Nat) (rest : Content), s.length + 1 ≤ fuel → readItems fuel (s ++ some ']' :: rest) = some (items, rest)
  | _, _, _, 0, _, enough => by omega
  | _, _, .last spelled, n + 1, rest, enough => by
    obtain ⟨after, read, same⟩ := readValue_spelled spelled n (some ']' :: rest) (by omega) (stops_cons (by decide))
    exact readItems_last read same
  | _, _, @SpellsItems.more item items s t spelled others, n + 1, rest, enough => by
    -- No item is empty, so that one step of depth is within each item and its comma.
    have := length_pos_of_spelled spelled
    have short : s.length ≤ n ∧ t.length + 1 ≤ n := by
      simp at enough
      omega
    obtain ⟨after, read, same⟩ :=
      readValue_spelled spelled n (some ',' :: (t ++ some ']' :: rest)) short.1 (stops_cons (by decide))
    rw [List.append_assoc]
    exact readItems_more read same (readItems_spelled others n rest short.2)

theorem readMembers_spelled : ∀ {members : List (Option String × Json)} {s : Content}, SpellsMembers members s →
    ∀ (fuel : Nat) (rest : Content), s.length + 1 ≤ fuel →
      readMembers fuel (s ++ some '}' :: rest) = some (members, rest)
  | _, _, _, 0, _, enough => by omega
  | _, _, @SpellsMembers.last before between ps key s value front name back spelled, n + 1, rest, enough => by
    have short : s.length ≤ n := by
      simp [memberText] at enough
      omega
    obtain ⟨after, read, same⟩ := readValue_spelled spelled n (some '}' :: rest) short (stops_cons (by decide))
    obtain ⟨t, u, first, named, colon⟩ := read_memberText front name back (s ++ some '}' :: rest)
    rw [memberText_append]
    exact readMembers_last first named colon read same
  | _, _, @SpellsMembers.more before between ps key s t value members front name back spelled others, n + 1, rest,
    enough => by
    have short : s.length ≤ n ∧ t.length + 1 ≤ n := by
      simp [memberText] at enough
      omega
    obtain ⟨after, read, same⟩ :=
      readValue_spelled spelled n (some ',' :: (t ++ some '}' :: rest)) short.1 (stops_cons (by decide))
    obtain ⟨w, u, first, named, colon⟩ := read_memberText front name back (s ++ some ',' :: (t ++ some '}' :: rest))
    rw [List.append_assoc, memberText_append]
    exact readMembers_more first named colon read same (readMembers_spelled others n rest short.2)

end

/-- Reading a text gives the value that it spells. -/
theorem parse_spelled {j : Json} {s : Content} (spelled : Spells j s) : parse s = some j := by
  obtain ⟨after, read, same⟩ := readValue_spelled spelled (2 * s.length + 2) [] (by omega) (by simp [Stops])
  rw [List.append_nil] at read
  rw [parse, read]
  simp [same, skipBlanks]

end Tabular.Json
