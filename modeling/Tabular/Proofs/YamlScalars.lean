import Tabular.Text.Identifier
import Tabular.Yaml.Lexer
import Tabular.Yaml.Writing
import Mathlib.Data.List.Basic

/-!
# Printable texts as YAML scalars

A printable text is written without quotes or between apostrophes (`styleOf_of_printable`). Without quotes it is
read back with the gaps between its words, as it holds nothing that ends it (`readPlain_append`), and between
apostrophes whatever it holds (`readSingle_append`).
-/

namespace Tabular.Yaml

open Text

/-- The printable characters of ASCII. -/
def isPrintable (c : Char) : Bool :=
  0x20 ≤ c.toNat && c.toNat ≤ 0x7E

/-- A text of printable characters. -/
def Printable (s : String) : Prop :=
  ∀ c ∈ s.toList, isPrintable c = true

instance (s : String) : Decidable (Printable s) :=
  List.decidableBAll (isPrintable · = true) s.toList

section Characters

variable {c : Char}

/-- Characters that a class tells apart are different. -/
theorem ne_of_class {f : Char → Bool} (inside : f c = true) {d : Char} (outside : f d = false) : c ≠ d := by
  rintro rfl
  rw [inside] at outside
  cases outside

theorem isPrintable_iff : isPrintable c = true ↔ 0x20 ≤ c.toNat ∧ c.toNat ≤ 0x7E := by
  simp [isPrintable]

theorem isBreak_of_printable (printable : isPrintable c = true) : isBreak c = false := by
  have feed := ne_of_class printable (d := '\n') (by decide)
  have line := ne_of_class printable (d := '\u2028') (by decide)
  have paragraph := ne_of_class printable (d := '\u2029') (by decide)
  simp [isBreak, feed, line, paragraph]

theorem isGap_of_printable (printable : isPrintable c = true) : isGap c = (c == ' ') := by
  have tab := ne_of_class printable (d := '\t') (by decide)
  simp [isGap, tab]

theorem isSpecial_of_printable (printable : isPrintable c = true) : isSpecial c = false := by
  obtain ⟨low, high⟩ := isPrintable_iff.mp printable
  simp [isSpecial, low, high]

theorem any_isBreak_of_printable {cs : List Char} (printable : ∀ c ∈ cs, isPrintable c = true) :
    cs.any isBreak = false :=
  List.any_eq_false.mpr fun c member => Bool.eq_false_iff.mp (isBreak_of_printable (printable c member))

theorem any_isSpecial_of_printable {cs : List Char} (printable : ∀ c ∈ cs, isPrintable c = true) :
    cs.any isSpecial = false :=
  List.any_eq_false.mpr fun c member => Bool.eq_false_iff.mp (isSpecial_of_printable (printable c member))

theorem isPrintable_of_isNameRest (named : isNameRest c = true) : isPrintable c = true := by
  rw [isNameRest, Bool.or_eq_true, decide_eq_true_eq] at named
  rw [isPrintable_iff]
  rcases named with alphanumeric | rfl
  · obtain alphabetic | digit : c.isAlpha = true ∨ c.isDigit = true := (Bool.or_eq_true _ _).mp alphanumeric
    · obtain upper | lower : c.isUpper = true ∨ c.isLower = true := (Bool.or_eq_true _ _).mp alphabetic
      · have bounds : 65 ≤ c.toNat ∧ c.toNat ≤ 90 := of_decide_eq_true upper
        omega
      · obtain ⟨low, high⟩ := (Bool.and_eq_true _ _).mp lower
        have bounds : 97 ≤ c.toNat ∧ c.toNat ≤ 122 := ⟨of_decide_eq_true low, of_decide_eq_true high⟩
        omega
    · obtain ⟨low, high⟩ := (Bool.and_eq_true _ _).mp digit
      have bounds : 48 ≤ c.toNat ∧ c.toNat ≤ 57 := ⟨of_decide_eq_true low, of_decide_eq_true high⟩
      omega
  · decide

/-- No indicator is a character of a name. -/
theorem isIndicator_of_isNameRest (named : isNameRest c = true) : Lexer.isIndicator c = false := by
  rw [Lexer.isIndicator, List.contains_eq_mem, decide_eq_false_iff_not]
  intro member
  have others : [',', '[', ']', '{', '}', '#', '&', '*', '!', '|', '>', '\'', '"', '%', '@', '\x60'].all
      (!isNameRest ·) = true := by decide
  have other := List.all_eq_true.mp others c member
  simp [named] at other

end Characters

theorem anyPair_cons_cons (f : Char → Char → Bool) (a b : Char) (rest : List Char) :
    anyPair f (a :: b :: rest) = (f a b || anyPair f (b :: rest)) := by
  simp [anyPair]

theorem anyPair_eq_false {f : Char → Char → Bool} {cs : List Char} (none : ∀ a ∈ cs, ∀ b ∈ cs, f a b = false) :
    anyPair f cs = false := by
  rw [anyPair, List.any_eq_false]
  rintro ⟨a, b⟩ member
  obtain ⟨one, two⟩ := List.of_mem_zip member
  simp [none a one b (List.mem_of_mem_drop two)]

/-- A printable text is quoted between apostrophes when it is quoted at all. -/
theorem styleOf_of_printable {s : String} (printable : Printable s) :
    styleOf s = if !isAmbiguous s && fitsPlain s.toList then .plain else .singleQuoted := by
  have line : s.toList.contains '\n' = false := by
    rw [List.contains_eq_mem, decide_eq_false_iff_not]
    intro member
    have other := printable '\n' member
    revert other
    decide
  have shown := any_isSpecial_of_printable printable
  have single : fitsSingle s.toList = true := by
    have pairs : anyPair (fun a b => (isBreak a && b == ' ') || (a == ' ' && isBreak b)) s.toList = false := by
      refine anyPair_eq_false fun a one b two => ?_
      rw [isBreak_of_printable (printable a one), isBreak_of_printable (printable b two)]
      simp
    rw [fitsSingle, shown, pairs]
    rfl
  rw [styleOf]
  simp only [line, single, if_true]
  rfl

/-! ## Texts without quotes -/

/-- What a plain scalar cannot hold, seen from one of its characters on: the text does not end with a colon or a gap,
no colon stands before a gap and no gap before a number sign. -/
structure Running (cs : List Char) : Prop where
  printable : ∀ c ∈ cs, isPrintable c = true
  unindicated : holdsIndicator cs = false
  ended : cs.getLast? ≠ some ' '

theorem Running.tail {c : Char} {cs : List Char} (running : Running (c :: cs)) : Running cs := by
  cases cs with
  | nil => exact ⟨by simp, by decide, by simp⟩
  | cons d rest =>
    obtain ⟨printable, unindicated, ended⟩ := running
    rw [holdsIndicator, anyPair_cons_cons, List.getLast?_cons_cons, Bool.or_eq_false_iff, Bool.or_eq_false_iff]
      at unindicated
    refine ⟨fun e member => printable e (List.mem_cons_of_mem c member), ?_, by simpa using ended⟩
    rw [holdsIndicator, unindicated.1, unindicated.2.2]
    rfl

/-- No gap ends such a text and none stands before a number sign. -/
theorem Running.after_gap {cs : List Char} (running : Running (' ' :: cs)) : cs ≠ [] ∧ cs.head? ≠ some '#' := by
  cases cs with
  | nil => exact absurd rfl running.ended
  | cons d rest =>
    have pairs := running.unindicated
    rw [holdsIndicator, anyPair_cons_cons, Bool.or_eq_false_iff, Bool.or_eq_false_iff] at pairs
    refine ⟨List.cons_ne_nil d rest, ?_⟩
    rintro same
    obtain rfl : d = '#' := Option.some.inj same
    have bad := pairs.2.1
    revert bad
    decide

/-- A colon is followed by a character of the same word. -/
theorem Running.after_colon {cs : List Char} (running : Running (':' :: cs)) :
    ∃ d rest, cs = d :: rest ∧ (isGap d || isBreak d) = false := by
  cases cs with
  | nil => exact absurd running.unindicated (by decide)
  | cons d rest =>
    have pairs := running.unindicated
    rw [holdsIndicator, anyPair_cons_cons, Bool.or_eq_false_iff, Bool.or_eq_false_iff, Bool.or_eq_false_iff] at pairs
    exact ⟨d, rest, rfl, by simpa using pairs.2.1.1⟩

/-- The characters that are kept from the front of a plain scalar when it is written are those that do not begin one
when it is read. -/
theorem contains_indicators (c : Char) :
    ['#', ',', '[', ']', '{', '}', '&', '*', '!', '|', '>', '\'', '"', '%', '@', '\x60'].contains c =
      Lexer.isIndicator c :=
  List.Perm.contains_eq (by decide)

theorem running_of_fitsPlain {cs : List Char} (printable : ∀ c ∈ cs, isPrintable c = true)
    (fits : fitsPlain cs = true) : Running cs := by
  simp only [fitsPlain, Bool.and_eq_true, bne_iff_ne, Bool.not_eq_true'] at fits
  obtain ⟨⟨⟨⟨⟨_, ended⟩, _⟩, _⟩, _⟩, unindicated⟩ := fits
  exact ⟨printable, unindicated, ended⟩

/-- A plain scalar begins with no gap and no indicator. If it begins with a dash, a question mark or a colon, its first
word goes on. -/
theorem start_of_fitsPlain {c : Char} {cs : List Char} (printable : ∀ d ∈ c :: cs, isPrintable d = true)
    (fits : fitsPlain (c :: cs) = true) : c ≠ ' ' ∧ Lexer.isIndicator c = false ∧
      (c = '-' ∨ c = '?' ∨ c = ':' → ∃ d rest, cs = d :: rest ∧ (isGap d || isBreak d) = false) := by
  have running := running_of_fitsPlain printable fits
  simp only [fitsPlain, Bool.and_eq_true, bne_iff_ne, Bool.not_eq_true'] at fits
  obtain ⟨⟨⟨⟨⟨start, _⟩, _⟩, _⟩, unmarked⟩, _⟩ := fits
  have first : Lexer.isIndicator c = false ∧
      (['?', '-'].contains c = true → cs.head?.all (fun d => isGap d || isBreak d) = false) := by
    unfold startsWithIndicator at unmarked
    split at unmarked
    · cases unmarked
    · cases unmarked
    · next same =>
      obtain ⟨rfl, rfl⟩ := List.cons.inj same
      rw [Bool.or_eq_false_iff, Bool.and_eq_false_imp] at unmarked
      rw [contains_indicators] at unmarked
      exact unmarked
    · next same => cases same
  have goesOn : cs.head?.all (fun d => isGap d || isBreak d) = false →
      ∃ d rest, cs = d :: rest ∧ (isGap d || isBreak d) = false := by
    intro word
    cases cs with
    | nil => cases word
    | cons d rest => exact ⟨d, rest, rfl, word⟩
  refine ⟨fun gap => start (congrArg some gap), first.1, ?_⟩
  rintro (rfl | rfl | rfl)
  · exact goesOn (first.2 rfl)
  · exact goesOn (first.2 rfl)
  · exact running.after_colon

/-! ## Names -/

theorem isNameRest_of_isIdentifier {s : String} (named : isIdentifier s = true) :
    ∀ c ∈ s.toList, isNameRest c = true := by
  rw [isIdentifier] at named
  split at named
  · cases named
  · next c rest same =>
    rw [Bool.and_eq_true, List.all_eq_true] at named
    rw [same]
    intro d member
    rcases List.mem_cons.mp member with rfl | later
    · have start := named.1
      simp only [isNameStart, isNameRest, Char.isAlphanum, Bool.or_eq_true] at start ⊢
      exact start.imp_left .inl
    · exact named.2 d later

theorem exists_cons_of_isIdentifier {s : String} (named : isIdentifier s = true) : ∃ c rest, s.toList = c :: rest := by
  cases text : s.toList with
  | nil => simp [isIdentifier, text] at named
  | cons c rest => exact ⟨c, rest, rfl⟩

/-- A name fits a plain scalar. -/
theorem fitsPlain_of_isIdentifier {s : String} (named : isIdentifier s = true) : fitsPlain s.toList = true := by
  have letters := isNameRest_of_isIdentifier named
  have printable : ∀ c ∈ s.toList, isPrintable c = true := fun c member => isPrintable_of_isNameRest (letters c member)
  have others : ∀ d, isNameRest d = false → d ∉ s.toList := by
    intro d other member
    rw [letters d member] at other
    cases other
  have first : s.toList.head? ≠ some ' ' := fun start => others ' ' (by decide) (List.mem_of_head? start)
  have last : ∀ d, isNameRest d = false → s.toList.getLast? ≠ some d := fun d other ended =>
    others d other (List.mem_of_getLast? ended)
  have line := any_isBreak_of_printable printable
  have shown := any_isSpecial_of_printable printable
  have unmarked : startsWithIndicator s.toList = false := by
    unfold startsWithIndicator
    split
    · next same => exact absurd (by simp [same]) (others '-' (by decide))
    · next same => exact absurd (by simp [same]) (others '.' (by decide))
    · next c rest _ _ same =>
      have word : isNameRest c = true := letters c (by simp [same])
      have question := ne_of_class word (d := '?') (by decide)
      have dash := ne_of_class word (d := '-') (by decide)
      rw [contains_indicators, isIndicator_of_isNameRest word]
      simp [question, dash]
    · rfl
  have unheld : holdsIndicator s.toList = false := by
    rw [holdsIndicator, Bool.or_eq_false_iff]
    refine ⟨beq_eq_false_iff_ne.mpr (last ':' (by decide)), anyPair_eq_false fun a one b two => ?_⟩
    have colon := ne_of_class (letters a one) (d := ':') (by decide)
    have sign := ne_of_class (letters b two) (d := '#') (by decide)
    simp [colon, sign]
  simp [fitsPlain, first, last ' ' (by decide), line, shown, unmarked, unheld]

/-- The name of a field, which is written without quotes. A name this short is taken for a key. -/
def IsFieldName (s : String) : Prop :=
  isIdentifier s = true ∧ isAmbiguous s = false ∧ s.toList.length ≤ 1024

instance (s : String) : Decidable (IsFieldName s) :=
  inferInstanceAs (Decidable (_ ∧ _))

/-- What may stand where a line goes on behind the blanks in front: nothing at all, or a character that is not left
out before a token. -/
def Visible (w : List Char) : Prop :=
  ∀ c ∈ w.head?, isGap c = false ∧ isBreak c = false ∧ c ≠ '#' ∧ c ≠ byteOrderMark

theorem visible_cons {c : Char} {w : List Char} :
    Visible (c :: w) ↔ isGap c = false ∧ isBreak c = false ∧ c ≠ '#' ∧ c ≠ byteOrderMark := by
  simp [Visible]

theorem visible_of_isIdentifier {s : String} (named : isIdentifier s = true) (more : List Char) :
    Visible (s.toList ++ more) := by
  obtain ⟨c, rest, text⟩ := exists_cons_of_isIdentifier named
  have word : isNameRest c = true := isNameRest_of_isIdentifier named c (by simp [text])
  have shown := isPrintable_of_isNameRest word
  rw [text, List.cons_append, visible_cons]
  refine ⟨?_, isBreak_of_printable shown, ne_of_class word (by decide), ne_of_class shown (by decide)⟩
  rw [isGap_of_printable shown]
  exact beq_eq_false_iff_ne.mpr (ne_of_class word (by decide))

section Places

variable {i ln j : Nat} {c : Char} {cs : List Char} {s : Spot} {rest : List Spot}

theorem spotsFrom_cons (line : isBreak c = false) :
    spotsFrom i ln j (c :: cs) = ⟨c, i, ln, j⟩ :: spotsFrom (i + 1) ln (j + 1) cs := by
  rw [spotsFrom, if_neg (by simp [line])]

theorem spotsFrom_break (line : isBreak c = true) :
    spotsFrom i ln j (c :: cs) = ⟨c, i, ln, j⟩ :: spotsFrom (i + 1) (ln + 1) 0 cs := by
  rw [spotsFrom, if_pos line]

@[simp]
theorem endsWord_spotsFrom : endsWord (spotsFrom i ln j cs) = cs.head?.all fun c => isGap c || isBreak c := by
  cases cs <;> rfl

/-- The mark of a document begins a line, with dashes or dots. -/
theorem of_isDocumentMark (marked : isDocumentMark (s :: rest) = true) :
    s.column = 0 ∧ (s.char = '-' ∨ s.char = '.') ∧ ∃ t more, rest = t :: more ∧ t.char = s.char := by
  unfold isDocumentMark at marked
  split at marked
  · next same =>
    obtain ⟨rfl, rfl⟩ := List.cons.inj same
    simp only [Bool.and_eq_true, Bool.or_eq_true, beq_iff_eq] at marked
    obtain ⟨⟨⟨⟨column, first⟩, second⟩, _⟩, _⟩ := marked
    exact ⟨column, first, _, _, rfl, second⟩
  · cases marked

theorem isDocumentMark_of_column (inside : 0 < s.column) : isDocumentMark (s :: rest) = false :=
  Bool.eq_false_iff.mpr fun marked => Nat.ne_of_gt inside (of_isDocumentMark marked).1

theorem isDocumentMark_of_char (dash : s.char ≠ '-') (dot : s.char ≠ '.') : isDocumentMark (s :: rest) = false :=
  Bool.eq_false_iff.mpr fun marked => (of_isDocumentMark marked).2.1.elim dash dot

end Places

theorem before_append {α : Type} (cs ds : List Char) (r : Option (List Char × α)) :
    before cs (before ds r) = before (cs ++ ds) r := by
  cases r with
  | none => rfl
  | some answer => simp [before]

section Reading

variable {i ln j indent : Nat} {cs more : List Char}

/-- A plain scalar is read up to its end. Where it holds gaps, it does not begin before the column `indent`. -/
theorem readPlain_append (running : Running cs) (g : List Char) (gapped : g ≠ [] → cs ≠ [] ∧ cs.head? ≠ some '#')
    (inside : g ≠ [] ∨ ' ' ∈ cs → 0 < indent ∧ indent ≤ j) :
    readPlain false indent (.within g) (spotsFrom i ln j (cs ++ more)) =
      before (g ++ cs) (readPlain false indent .none (spotsFrom (i + cs.length) ln (j + cs.length) more)) := by
  induction cs generalizing i j g with
  | nil =>
    have none : g = [] := by
      by_contra some
      exact (gapped some).1 rfl
    subst none
    cases h : readPlain false indent .none (spotsFrom i ln j more) with
    | none => simpa [before, Gap.none] using h
    | some answer => simpa [before, Gap.none] using h
  | cons c rest ih =>
    have shown : isPrintable c = true := running.printable c List.mem_cons_self
    have line := isBreak_of_printable shown
    rw [List.cons_append, spotsFrom_cons line, readPlain]
    have places : ∀ n, n + 1 + rest.length = n + (c :: rest).length := by simp; omega
    by_cases gap : c = ' '
    · subst gap
      obtain ⟨positive, deep⟩ := inside (.inr List.mem_cons_self)
      have next := ih running.tail (i := i + 1) (j := j + 1) (g ++ [' ']) (fun _ => running.after_gap)
        (fun _ => ⟨positive, by omega⟩)
      rw [places, places, List.append_assoc, List.singleton_append] at next
      exact next
    · have word : isGap c = false := by rw [isGap_of_printable shown]; simp [gap]
      have next := ih running.tail (i := i + 1) (j := j + 1) [] (by simp)
        (fun spaced => (inside (.inr (List.mem_cons_of_mem c (by simpa using spaced)))).imp_right (by omega))
      have going : ¬ (!(Gap.within g).isEmpty && ((!false && decide (j < indent)) ||
          isDocumentMark (⟨c, i, ln, j⟩ :: spotsFrom (i + 1) ln (j + 1) (rest ++ more)) || c == '#')) = true := by
        by_cases none : g = []
        · simp [none, Gap.isEmpty]
        · obtain ⟨positive, deep⟩ := inside (.inl none)
          have shallow : ¬ j < indent := by omega
          have mark : c ≠ '#' := by simpa using (gapped none).2
          rw [isDocumentMark_of_column (by show 0 < j; omega)]
          simp [shallow, mark]
      have open' : ¬ endsPlain false ⟨c, i, ln, j⟩ (spotsFrom (i + 1) ln (j + 1) (rest ++ more)) = true := by
        by_cases colon : c = ':'
        · subst colon
          obtain ⟨d, after, rfl, within⟩ := running.after_colon
          simp [endsPlain, endsWord_spotsFrom, within]
        · simp [endsPlain, colon]
      rw [if_neg (by simp [word]), if_neg (by simp [line]), if_neg going, if_neg (by simp [isBadColon]), if_neg open']
      show before (g ++ [c]) (readPlain false indent (.within []) _) = _
      rw [next, before_append, places, places]
      simp

/-- A plain scalar ends before a colon that ends a word. -/
theorem readPlain_colon (ended : endsWord (spotsFrom (i + 1) ln (j + 1) more) = true) :
    readPlain false indent .none (spotsFrom i ln j (':' :: more)) =
      some ([], false, spotsFrom i ln j (':' :: more)) := by
  rw [spotsFrom_cons (by decide), readPlain]
  simp [isGap, isBreak, Gap.none, Gap.isEmpty, isBadColon, endsPlain, ended, Gap.isAcross]

/-- A plain scalar ends with its line when the next one begins before the column `indent`. -/
theorem readPlain_line {k : Nat} {w : List Char} (shallow : k < indent) (visible : Visible w) :
    readPlain false indent .none (spotsFrom i ln j ('\n' :: (blanks k ++ w))) =
      some ([], true, spotsFrom (i + 1 + k) (ln + 1) k w) := by
  have skip : ∀ n i j, readPlain false indent (.across (some '\n') []) (spotsFrom i (ln + 1) j (blanks n ++ w)) =
      readPlain false indent (.across (some '\n') []) (spotsFrom (i + n) (ln + 1) (j + n) w) := by
    intro n
    induction n with
    | zero => intros; rfl
    | succ n ih =>
      intro i j
      have more : blanks (n + 1) ++ w = ' ' :: (blanks n ++ w) := rfl
      rw [more, spotsFrom_cons (by decide), readPlain, if_pos (by simp [isGap]), if_neg (by simp)]
      have next := ih (i + 1) (j + 1)
      rw [Nat.add_right_comm i, Nat.add_right_comm j] at next
      exact next
  rw [spotsFrom_break (by decide), readPlain, if_neg (by simp [isGap]), if_pos (by simp [isBreak])]
  show readPlain false indent (.across (some '\n') []) _ = _
  rw [skip, Nat.zero_add]
  cases w with
  | nil => rfl
  | cons c rest =>
    obtain ⟨word, line, _⟩ := visible c rfl
    rw [spotsFrom_cons line, readPlain, if_neg (by simp [word]), if_neg (by simp [line]),
      if_pos (by simp [Gap.isEmpty, shallow])]
    rfl

/-! ## Between apostrophes -/

theorem singleBody_cons {n : Nat} {c : Char} (line : isBreak c = false) :
    singleBody n false (c :: cs) = (if c = '\'' then ['\'', '\''] else [c]) ++ singleBody n false cs := by
  rw [singleBody, if_neg (by simp [line]), if_neg (by simp), List.nil_append]

/-- A printable text is read up to the apostrophe that closes it, unless another one follows. -/
theorem readSingle_append {n : Nat} (printable : ∀ c ∈ cs, isPrintable c = true) (inside : 0 < j)
    (closed : more.head? ≠ some '\'') (g : List Char) :
    readSingle (.within g) false (spotsFrom i ln j (singleBody n false cs ++ '\'' :: more)) =
      some (g ++ cs, spotsFrom (i + (singleBody n false cs).length + 1) ln
        (j + (singleBody n false cs).length + 1) more) := by
  induction cs generalizing i j g with
  | nil =>
    rw [singleBody, if_neg (by simp), List.nil_append, spotsFrom_cons (by decide), readSingle,
      isDocumentMark_of_column inside]
    have last : readSingle .none true (spotsFrom (i + 1) ln (j + 1) more) =
        some ([], spotsFrom (i + 1) ln (j + 1) more) := by
      cases more with
      | nil => rfl
      | cons c rest =>
        have other : c ≠ '\'' := fun same => closed (congrArg some same)
        rw [spotsFrom, readSingle, if_pos rfl, if_neg other]
    simp [isGap, isBreak, last, before, Gap.text]
  | cons c rest ih =>
    have shown : isPrintable c = true := printable c List.mem_cons_self
    have line := isBreak_of_printable shown
    have later : ∀ d ∈ rest, isPrintable d = true := fun d member => printable d (List.mem_cons_of_mem c member)
    rw [singleBody_cons line]
    by_cases quote : c = '\''
    · subst quote
      have next := ih later (i := i + 1 + 1) (j := j + 1 + 1) (by omega) []
      rw [if_pos rfl, List.append_assoc, List.cons_append, List.singleton_append, spotsFrom_cons line,
        spotsFrom_cons line, readSingle, isDocumentMark_of_column inside, if_neg (by simp), if_neg (by simp),
        if_neg (by simp [isGap]), if_neg (by simp [isBreak]), if_pos rfl, readSingle, if_pos rfl, if_pos rfl]
      show before g (before ['\''] (readSingle (.within []) false _)) = _
      rw [next]
      simp only [before, Option.map_some, List.length_append, List.length_cons, List.length_nil]
      congr 3 <;> omega
    rw [if_neg quote, List.singleton_append, List.cons_append, spotsFrom_cons line, readSingle,
      isDocumentMark_of_column inside, if_neg (by simp), if_neg (by simp)]
    by_cases gap : c = ' '
    · subst gap
      have next := ih later (i := i + 1) (j := j + 1) (by omega) (g ++ [' '])
      rw [if_pos (by rfl)]
      show readSingle (.within (g ++ [' '])) false _ = _
      rw [next]
      simp only [List.append_assoc, List.length_cons]
      congr 3 <;> omega
    · have word : isGap c = false := by rw [isGap_of_printable shown]; simp [gap]
      have next := ih later (i := i + 1) (j := j + 1) (by omega) []
      rw [if_neg (by simp [word]), if_neg (by simp [line]), if_neg quote]
      show before (g ++ [c]) (readSingle (.within []) false _) = _
      rw [next]
      simp only [before, Option.map_some, List.length_cons, List.nil_append, List.append_assoc, List.singleton_append]
      congr 3 <;> omega

end Reading

end Tabular.Yaml
