import Tabular.Sql.Statement
import Mathlib.Data.List.Forall2

/-!
# Numbers of placeholders

The clause that restricts a statement to some rows is the same text whatever is bound before its values, but for
the numbers of its placeholders: each is larger by the number of the values before (`renumber_whereClause`).
Placeholders are those of the text, so that a question mark inside a quoted name is none.
-/

namespace Tabular.Sql

/-- What a character of a text comes after. -/
inductive Place where
  | plain
  /-- The opening quote of a name, or a character of a name. -/
  | name
  /-- A question mark, with the digits read after it. -/
  | number (digits : List Char)

/-- What comes after a character that stands neither in a name nor in a number. -/
def Place.after (c : Char) : Place :=
  if c = '"' then .name else if c = '?' then .number [] else .plain

/-- The digits of a number that is larger by `n`. A question mark without digits has no number. -/
def enlarge (n : Nat) (digits : List Char) : List Char :=
  if digits.isEmpty then [] else Nat.toDigits 10 (Nat.ofDigitChars 10 digits 0 + n)

def renumberFrom (n : Nat) : Place → List Char → List Char
  | .plain, [] => []
  | .name, [] => []
  | .number digits, [] => enlarge n digits
  | .plain, c :: rest => c :: renumberFrom n (.after c) rest
  | .name, c :: rest => c :: renumberFrom n (if c = '"' then .plain else .name) rest
  | .number digits, c :: rest =>
    if c.isDigit then renumberFrom n (.number (digits ++ [c])) rest
    else enlarge n digits ++ c :: renumberFrom n (.after c) rest

/-- A text in which the number of every placeholder is larger by `n`. Nothing else is changed. -/
def renumber (n : Nat) (text : String) : String :=
  String.ofList (renumberFrom n .plain text.toList)

/-- Whether the number of a placeholder ends where these characters begin. -/
def endsNumber (cs : List Char) : Bool :=
  cs.head?.all (!·.isDigit)

/-- Whether a text has no quotes and no question marks. -/
def isPlain (text : String) : Bool :=
  text.toList.all fun c => c ≠ '"' && c ≠ '?'

/-- Whether a text can stand between two others without being taken for a part of a name or a number. -/
def separates (text : String) : Bool :=
  isPlain text && text.toList.head?.any (!·.isDigit)

/-- Whatever comes after it, a text is renumbered to another. -/
def Renumbers (n : Nat) (text larger : String) : Prop :=
  ∀ rest, endsNumber rest = true →
    renumberFrom n .plain (text.toList ++ rest) = larger.toList ++ renumberFrom n .plain rest

variable {n : Nat} {a a' b b' : String}

theorem Renumbers.renumber_eq (renumbers : Renumbers n a a') : renumber n a = a' := by
  have whole := renumbers [] rfl
  rw [List.append_nil, renumberFrom, List.append_nil] at whole
  rw [renumber, whole, String.ofList_toList]

private theorem renumberFrom_plain {cs : List Char} (plain : ∀ c ∈ cs, c ≠ '"' ∧ c ≠ '?') (rest : List Char) :
    renumberFrom n .plain (cs ++ rest) = cs ++ renumberFrom n .plain rest := by
  induction cs with
  | nil => rfl
  | cons c more ih =>
    obtain ⟨noQuote, noMark⟩ := plain c List.mem_cons_self
    have after : Place.after c = .plain := by rw [Place.after, if_neg noQuote, if_neg noMark]
    rw [List.cons_append, renumberFrom, after, ih fun d member => plain d (List.mem_cons_of_mem c member),
      List.cons_append]

private theorem isPlain_iff {text : String} : isPlain text = true ↔ ∀ c ∈ text.toList, c ≠ '"' ∧ c ≠ '?' := by
  simp [isPlain]

theorem renumbers_plain {s : String} (plain : isPlain s = true) : Renumbers n s s :=
  fun rest _ => renumberFrom_plain (isPlain_iff.mp plain) rest

/-- Texts with a separator between them are renumbered each for itself. -/
theorem Renumbers.separate {s : String} (first : Renumbers n a a') (apart : separates s = true)
    (second : Renumbers n b b') : Renumbers n (a ++ s ++ b) (a' ++ s ++ b') := by
  intro rest ends
  rw [separates, Bool.and_eq_true] at apart
  obtain ⟨plain, starts⟩ := apart
  have next : endsNumber (s.toList ++ (b.toList ++ rest)) = true := by
    cases characters : s.toList with
    | nil => simp [characters] at starts
    | cons c more => simpa [characters, endsNumber] using starts
  simp only [String.toList_append, List.append_assoc]
  rw [first _ next, renumberFrom_plain (isPlain_iff.mp plain), second _ ends]

theorem Renumbers.close {s : String} (first : Renumbers n a a') (apart : separates s = true) :
    Renumbers n (a ++ s) (a' ++ s) := by
  have closed := first.separate apart (renumbers_plain (s := "") rfl)
  rwa [String.append_empty, String.append_empty] at closed

theorem renumbers_intercalate {s : String} (apart : separates s = true) {texts larger : List String}
    (each : List.Forall₂ (Renumbers n) texts larger) :
    Renumbers n (s.intercalate texts) (s.intercalate larger) := by
  induction each with
  | nil => exact renumbers_plain rfl
  | cons first rest ih =>
    cases rest with
    | nil => simpa using first
    | cons second others =>
      rw [String.intercalate_cons_cons, String.intercalate_cons_cons]
      exact first.separate apart ih

private theorem renumberFrom_double (cs rest : List Char) :
    renumberFrom n .name (Quoted.double cs ++ '"' :: rest) =
      Quoted.double cs ++ '"' :: renumberFrom n .plain rest := by
  induction cs with
  | nil => simp [Quoted.double, renumberFrom]
  | cons c more ih =>
    by_cases quoted : c = '"'
    · -- The second of two quotes opens the name again that the first one closed.
      simp [Quoted.double, quoted, renumberFrom, Place.after, ih]
    · simp [Quoted.double, quoted, renumberFrom, ih]

/-- A quoted name stays as it is, whatever the name holds. -/
theorem renumbers_quote (name : String) : Renumbers n (Quoted.quote name) (Quoted.quote name) := by
  intro rest _
  simp only [Quoted.quote, String.toList_ofList, List.cons_append, List.append_assoc]
  rw [renumberFrom]
  exact congrArg ('"' :: ·) (renumberFrom_double name.toList rest)

private theorem renumberFrom_digits (read digits rest : List Char) (all : ∀ c ∈ digits, c.isDigit = true)
    (ends : endsNumber rest = true) :
    renumberFrom n (.number read) (digits ++ rest) = enlarge n (read ++ digits) ++ renumberFrom n .plain rest := by
  induction digits generalizing read with
  | nil =>
    rw [List.append_nil, List.nil_append]
    cases rest with
    | nil => simp [renumberFrom]
    | cons c more =>
      have other : c.isDigit = false := by simpa [endsNumber] using ends
      simp [renumberFrom, other]
  | cons c more ih =>
    have digit : c.isDigit = true := all c List.mem_cons_self
    rw [List.cons_append, renumberFrom, if_pos digit, ih _ fun d member => all d (List.mem_cons_of_mem c member),
      List.append_assoc, List.singleton_append]

theorem renumbers_placeholder (next : Nat) : Renumbers n (placeholder next) (placeholder (next + n)) := by
  intro rest ends
  have characters : ∀ k, (placeholder k).toList = '?' :: Nat.toDigits 10 k := by
    intro k
    rw [placeholder, String.toList_append]
    exact congrArg ('?' :: ·) Nat.toList_repr
  have digits : ∀ c ∈ Nat.toDigits 10 next, c.isDigit = true := fun c member =>
    Nat.isDigit_of_mem_toDigits (by decide) (by decide) member
  have larger : enlarge n (Nat.toDigits 10 next) = Nat.toDigits 10 (next + n) := by
    rw [enlarge, Nat.ofDigitChars_ten_toDigits]
    simp [Nat.toDigits_ne_nil]
  rw [characters, characters, List.cons_append, renumberFrom, ← larger]
  exact congrArg ('?' :: ·) (renumberFrom_digits [] _ rest digits ends)

/-! ## The clause -/

private theorem blank : separates " " = true := rfl
private theorem comma : separates ", " = true := rfl
private theorem opening : separates " (" = true := rfl
private theorem closing : separates ")" = true := rfl
private theorem conjunction : separates " AND " = true := rfl
private theorem restriction : separates " WHERE " = true := rfl

private theorem renumbers_placeholders (next count : Nat) :
    Renumbers n (placeholders next count) (placeholders (next + n) count) := by
  refine renumbers_intercalate comma ?_
  rw [List.range'_eq_map_range, List.range'_eq_map_range, List.map_map, List.map_map, List.forall₂_map_left_iff,
    List.forall₂_map_right_iff, List.forall₂_same]
  intro k _
  rw [Function.comp_apply, Function.comp_apply, Nat.add_right_comm]
  exact renumbers_placeholder (next + k)

private theorem isPlain_operator (t : Test) : isPlain t.operator = true := by
  cases t with
  | compare op v => cases op <;> simp only [Test.operator, Comparison.sign] <;> rfl
  | among vs => exact (rfl : isPlain "IN" = true)
  | notAmong vs => exact (rfl : isPlain "NOT IN" = true)
  | between low high => exact (rfl : isPlain "BETWEEN" = true)
  | isNull => exact (rfl : isPlain "IS NULL" = true)
  | isNotNull => exact (rfl : isPlain "IS NOT NULL" = true)

private theorem renumbers_condition (next : Nat) (c : Condition) :
    Renumbers n (Condition.sql next c) (Condition.sql (next + n) c) := by
  obtain ⟨column, test⟩ := c
  have subject :
      Renumbers n (Quoted.quote column ++ " " ++ test.operator) (Quoted.quote column ++ " " ++ test.operator) :=
    (renumbers_quote column).separate blank (renumbers_plain (isPlain_operator test))
  cases test with
  | compare op v => exact subject.separate blank (renumbers_placeholder next)
  | among vs => exact (subject.separate opening (renumbers_placeholders next vs.length)).close closing
  | notAmong vs => exact (subject.separate opening (renumbers_placeholders next vs.length)).close closing
  | between low high =>
    have bounds := (subject.separate blank (renumbers_placeholder next)).separate conjunction
      (renumbers_placeholder (next + 1))
    rw [Nat.add_right_comm] at bounds
    exact bounds
  | isNull => exact subject
  | isNotNull => exact subject

private theorem renumbers_predicates {params later : List Value} (more : later.length = params.length + n)
    (cs : List Condition) : List.Forall₂ (Renumbers n) (predicates params cs).1 (predicates later cs).1 := by
  induction cs generalizing params later with
  | nil => exact .nil
  | cons c rest ih =>
    refine .cons ?_ (ih ?_)
    · rw [more, Nat.add_right_comm]
      exact renumbers_condition _ c
    · rw [List.length_append, List.length_append, more, Nat.add_right_comm]

/-- With `n` more values bound before it, the clause is the same but for the numbers of its placeholders, which are
larger by `n`. -/
theorem renumber_whereClause {params later : List Value} (more : later.length = params.length + n)
    (cs : List Condition) : renumber n (whereClause params cs).sql = (whereClause later cs).sql := by
  refine Renumbers.renumber_eq ?_
  cases cs with
  | nil => exact renumbers_plain rfl
  | cons c rest =>
    have tests := renumbers_intercalate conjunction (renumbers_predicates more (c :: rest))
    have clause := (renumbers_plain (s := "") rfl).separate restriction tests
    rwa [String.empty_append] at clause

example : renumber 3 "\"a?1\" IN (?1, ?2) AND \"b\" = ?9" = "\"a?1\" IN (?4, ?5) AND \"b\" = ?12" := by
  decide +kernel

end Tabular.Sql
