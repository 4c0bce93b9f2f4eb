import Tabular.Proofs.YamlScalars
import Mathlib.Data.List.TakeWhile

/-!
# The YAML lexer, token by token

What the lexer does with each kind of token that a written text consists of. Two of its states count as the same when
they go on in the same way (`Reaches`); before a token at the start of a line, the ends of lines, blanks and collections
that end there are left out of account (`Ready`).
-/

namespace Tabular.Yaml

open Text

section Skipping

variable {allowed : Bool} {i ln j k : Nat} {w : List Char}

theorem skipToToken_visible (visible : Visible w) :
    Lexer.skipToToken false false allowed (spotsFrom i ln j w) = (allowed, spotsFrom i ln j w) := by
  cases w with
  | nil => rfl
  | cons c rest =>
    obtain ⟨gap, line, comment, mark⟩ := visible c rfl
    rw [isGap, Bool.or_eq_false_iff, beq_eq_false_iff_ne, beq_eq_false_iff_ne] at gap
    rw [spotsFrom_cons line, Lexer.skipToToken, if_neg (by simp [line]), if_neg (by simp),
      if_neg (by simp [gap, mark]), if_neg comment]

theorem skipToToken_blanks :
    Lexer.skipToToken false false allowed (spotsFrom i ln j (blanks k ++ w)) =
      Lexer.skipToToken false false allowed (spotsFrom (i + k) ln (j + k) w) := by
  induction k generalizing i j with
  | zero => rfl
  | succ k ih =>
    have more : blanks (k + 1) ++ w = ' ' :: (blanks k ++ w) := rfl
    have next := ih (i := i + 1) (j := j + 1)
    rw [Nat.add_right_comm i, Nat.add_right_comm j] at next
    rw [more, spotsFrom_cons (by decide), Lexer.skipToToken, if_neg (by simp [isBreak]), if_neg (by simp),
      if_pos (.inl rfl)]
    exact next

theorem skipToToken_line :
    Lexer.skipToToken false false allowed (spotsFrom i ln j ('\n' :: w)) =
      Lexer.skipToToken false false true (spotsFrom (i + 1) (ln + 1) 0 w) := by
  rw [spotsFrom_break (by decide), Lexer.skipToToken, if_pos (by simp [isBreak])]
  simp

end Skipping

namespace Lexer

variable {l m : Lexer} {n : Nat}

/-- The lexer `l` goes on as `m` does after at most `most` tokens. -/
def Reaches (most : Nat) (l m : Lexer) : Prop :=
  ∃ used ≤ most, ∀ n, run (n + used) l = run n m

theorem Reaches.refl (l : Lexer) : Reaches 0 l l :=
  ⟨0, Nat.le_refl 0, fun _ => rfl⟩

theorem Reaches.trans {a b : Nat} {k : Lexer} (first : Reaches a l m) (later : Reaches b m k) :
    Reaches (a + b) l k := by
  obtain ⟨x, few, same⟩ := first
  obtain ⟨y, rest, also⟩ := later
  refine ⟨y + x, by omega, fun n => ?_⟩
  rw [← Nat.add_assoc, same, also]

theorem Reaches.mono {a b : Nat} (reaches : Reaches a l m) (more : a ≤ b) : Reaches b l m :=
  reaches.imp fun _ both => ⟨Nat.le_trans both.1 more, both.2⟩

/-- One token is read. -/
theorem Reaches.of_token {allowed : Bool} {s : Spot} {rest : List Spot}
    (skipped : skipToToken l.inFlow false l.keyAllowed l.rest = (allowed, s :: rest))
    (near : (l.allowKey allowed).refreshAll s = some (l.allowKey allowed))
    (read : ((l.allowKey allowed).closeWhile (s.column < ·)).token s rest = some m) : Reaches 1 l m := by
  refine ⟨1, Nat.le_refl 1, fun n => ?_⟩
  rw [run, skipped]
  simp [near, read]

/-- No collection ends where none is deep enough. -/
theorem closeWhile_of_shallow {deeper : Nat → Bool} (shallow : ∀ d ∈ l.indents.head?, deeper d = false) :
    l.closeWhile deeper = l := by
  rw [closeWhile]
  split
  · rfl
  · obtain ⟨rest, tokens, indents, keyAllowed, candidate, outer⟩ := l
    cases indents with
    | nil => rfl
    | cons d more => simp [shallow d rfl]

/-- The lexer inside a line of a block, where no key may begin. -/
def inLine (rest : List Spot) (done : List (Token String)) (indents : List Nat) : Lexer where
  rest := rest
  tokens := done
  indents := indents
  keyAllowed := false

/-! ## Before a token -/

/-- The lexer stands in a block before the token at the front of `next`, where a key may begin. With the ends of the
collections that this token ends, its tokens are `done`, and the collections at the columns `indents` are open. -/
structure Ready (l : Lexer) (done : List (Token String)) (indents : List Nat) (next : List Spot) : Prop where
  candidate : l.candidate = none
  outer : l.outer = []
  skipped : skipToToken false false l.keyAllowed l.rest = (true, next)
  closed : ∃ ended, l.indents = ended ++ indents ∧ done = List.replicate ended.length .blockEnd ++ l.tokens ∧
    ∀ d ∈ ended, ∀ s ∈ next.head?, s.column < d

variable {done : List (Token String)} {indents : List Nat} {next : List Spot}

/-- A token that stands less deep than the innermost collection ends it. -/
theorem Ready.close {c : Nat} (ready : Ready l done (c :: indents) next) (less : ∀ s ∈ next.head?, s.column < c) :
    Ready l (.blockEnd :: done) indents next := by
  obtain ⟨candidate, outer, skipped, ended, columns, rfl, deeper⟩ := ready
  refine ⟨candidate, outer, skipped, ended ++ [c], by simp [columns], ?_, fun d member => ?_⟩
  · rw [List.length_append, List.length_singleton, List.replicate_succ, List.cons_append]
  · rcases List.mem_append.mp member with member | member
    · exact deeper d member
    · rw [List.mem_singleton.mp member]
      exact less

theorem Ready.closeWhile {s : Spot} {rest : List Spot} (ready : Ready l done indents (s :: rest))
    (column : ∀ d ∈ indents.head?, d ≤ s.column) :
    (l.allowKey true).closeWhile (s.column < ·) = { rest := l.rest, tokens := done, indents := indents } := by
  obtain ⟨candidate, outer, _, ended, columns, rfl, deeper⟩ := ready
  have before : ∀ d ∈ ended, decide (s.column < d) = true := fun d member => decide_eq_true (deeper d member s rfl)
  have kept : indents.takeWhile (s.column < ·) = [] ∧ indents.dropWhile (s.column < ·) = indents := by
    cases indents with
    | nil => exact ⟨rfl, rfl⟩
    | cons d more =>
      have shallow : ¬ s.column < d := Nat.not_lt.mpr (column d rfl)
      simp [shallow]
  simp only [Lexer.closeWhile, allowKey, inFlow, outer, columns, List.takeWhile_append_of_pos before,
    List.dropWhile_append_of_pos before, kept, List.append_nil, List.map_const', candidate]
  rfl

/-- The next token is read where a key may begin, after the ends of the collections that it ends. -/
theorem Ready.reaches {s : Spot} {rest : List Spot} (ready : Ready l done indents (s :: rest))
    (column : ∀ d ∈ indents.head?, d ≤ s.column)
    (read : ({ rest := l.rest, tokens := done, indents := indents } : Lexer).token s rest = some m) :
    Reaches 1 l m := by
  have skipped : skipToToken l.inFlow false l.keyAllowed l.rest = (true, s :: rest) := by
    rw [inFlow, ready.outer]
    exact ready.skipped
  have near : (l.allowKey true).refreshAll s = some (l.allowKey true) := by
    simp [refreshAll, allowKey, ready.candidate, ready.outer, refresh]
  exact .of_token skipped near (by rw [ready.closeWhile column, read])

/-- At the end of the text all collections end. -/
theorem Ready.finish (ready : Ready l done [] []) : run (n + 1) l = some done.reverse := by
  obtain ⟨candidate, outer, skipped, ended, columns, rfl, _⟩ := ready
  have all : ended.takeWhile (fun _ => true) = ended := List.takeWhile_eq_self_iff.mpr (by simp)
  have last : skipToToken l.inFlow false l.keyAllowed l.rest = (true, []) := by
    rw [inFlow, outer]
    exact skipped
  rw [List.append_nil] at columns
  rw [run, last]
  simp [Lexer.finish, Lexer.closeWhile, inFlow, outer, columns, dropCandidate, candidate, all]

/-! ## Arrivals -/

variable {k : Nat} {w : List Char}

/-- Within `most` tokens the lexer comes to the line that begins with `w` at the column `k`. -/
def Arrives (most : Nat) (l : Lexer) (done : List (Token String)) (indents : List Nat) (k : Nat)
    (w : List Char) : Prop :=
  ∃ m i ln, Reaches most l m ∧ Ready m done indents (spotsFrom i ln k w)

theorem Arrives.mono {a b : Nat} (arrives : Arrives a l done indents k w) (more : a ≤ b) :
    Arrives b l done indents k w := by
  obtain ⟨m, i, ln, reaches, ready⟩ := arrives
  exact ⟨m, i, ln, reaches.mono more, ready⟩

theorem Reaches.arrives {a b : Nat} (reaches : Reaches a l m) (arrives : Arrives b m done indents k w) :
    Arrives (a + b) l done indents k w := by
  obtain ⟨n, i, ln, later, ready⟩ := arrives
  exact ⟨n, i, ln, reaches.trans later, ready⟩

theorem Arrives.trans {a b : Nat} {done' : List (Token String)} {indents' : List Nat} {k' : Nat} {w' : List Char}
    (first : Arrives a l done indents k w) (later : ∀ m i ln, Ready m done indents (spotsFrom i ln k w) →
      Arrives b m done' indents' k' w') : Arrives (a + b) l done' indents' k' w' := by
  obtain ⟨m, i, ln, reaches, ready⟩ := first
  exact reaches.arrives (later m i ln ready)

/-- The block ends before a line that begins less deep, and at the end of the text. -/
theorem Arrives.close {a c : Nat} (arrives : Arrives a l done (c :: indents) k w) (less : w ≠ [] → k < c) :
    Arrives a l (.blockEnd :: done) indents k w := by
  obtain ⟨m, i, ln, reaches, ready⟩ := arrives
  refine ⟨m, i, ln, reaches, ready.close fun s first => ?_⟩
  cases w with
  | nil => cases first
  | cons d rest =>
    obtain rfl := Option.some.inj first
    exact less (List.cons_ne_nil d rest)

section Plain

variable {s : Spot} {rest : List Spot}

theorem token_plain (outer : l.outer = []) (mark : isDocumentMark (s :: rest) = false)
    (start : isIndicator s.char = false) (word : endsWord [s] = false)
    (goesOn : s.char = '-' ∨ s.char = '?' ∨ s.char = ':' → endsWord rest = false) :
    l.token s rest = l.plainScalar s rest := by
  have others : ∀ d, isIndicator d = true → s.char ≠ d := by
    rintro d other rfl
    rw [start] at other
    cases other
  have dash : ¬ (s.char = '-' ∧ endsWord rest = true) := fun both => by simp [goesOn (.inl both.1)] at both
  have question : ¬ (s.char = '?' ∧ endsWord rest = true) := fun both => by simp [goesOn (.inr (.inl both.1))] at both
  have colon : ¬ (s.char = ':' ∧ endsWord rest = true) := fun both => by simp [goesOn (.inr (.inr both.1))] at both
  have block : l.inFlow = false := by simp [inFlow, outer]
  simp only [token, mark, block, Bool.false_or, start, word, dash, question, colon, others '%' rfl, others '[' rfl,
    others '{' rfl, others ']' rfl, others '}' rfl, others ',' rfl, others '*' rfl, others '&' rfl, others '!' rfl,
    others '|' rfl, others '>' rfl, others '\'' rfl, others '"' rfl, and_false, false_and, if_false, Bool.false_eq_true]

theorem token_colon (colon : s.char = ':') (ended : endsWord rest = true) :
    l.token s rest = l.value s rest := by
  have mark : isDocumentMark (s :: rest) = false := isDocumentMark_of_char (by simp [colon]) (by simp [colon])
  simp [token, mark, colon, ended]

theorem token_quote (quote : s.char = '\'') :
    l.token s rest = l.quotedScalar s .singleQuoted rest := by
  have mark : isDocumentMark (s :: rest) = false := isDocumentMark_of_char (by simp [quote]) (by simp [quote])
  simp [token, mark, quote]

theorem token_open (bracket : s.char = '[') :
    l.token s rest = l.openFlow s .flowSequenceStart rest := by
  have mark : isDocumentMark (s :: rest) = false := isDocumentMark_of_char (by simp [bracket]) (by simp [bracket])
  simp [token, mark, bracket]

theorem token_close (bracket : s.char = ']') :
    l.token s rest = l.closeFlow .flowSequenceEnd rest := by
  have mark : isDocumentMark (s :: rest) = false := isDocumentMark_of_char (by simp [bracket]) (by simp [bracket])
  simp [token, mark, bracket]

/-- A dash before a gap is no mark of a document. -/
theorem token_dash {t : Spot} (dash : s.char = '-') (gap : t.char = ' ') :
    l.token s (t :: rest) = l.blockEntry s (t :: rest) := by
  have mark : isDocumentMark (s :: t :: rest) = false := by
    refine Bool.eq_false_iff.mpr fun marked => ?_
    obtain ⟨_, _, u, more, same, repeated⟩ := of_isDocumentMark marked
    obtain ⟨rfl, _⟩ := List.cons.inj same
    simp [dash, gap] at repeated
  simp [token, mark, dash, endsWord, isGap, gap]

end Plain

/-- The tokens and the columns with which the members of a mapping at a column begin or go on. -/
inductive Enters (c : Nat) : List (Token String) → List Nat → List (Token String) → List Nat → Prop
  | starts {done : List (Token String)} {indents : List Nat} (deeper : ∀ d ∈ indents.head?, d < c) :
      Enters c done indents (.mappingStart :: done) (c :: indents)
  | goesOn {done : List (Token String)} {indents : List Nat} : Enters c done (c :: indents) done (c :: indents)

/-- The colon after a scalar that may be a key makes it one. -/
theorem value_of_candidate {c : Candidate} {t : Token String} {start : List (Token String)} {inside : List Nat}
    {old rest : List Spot} {s : Spot} (position : c.position = done.length)
    (enters : Enters c.spot.column done indents start inside) :
    ({ inLine old (t :: done) indents with candidate := some c } : Lexer).value s rest =
      some (inLine rest (.value :: t :: .key :: start) inside) := by
  have one : done.length + 1 - done.length = 1 := by omega
  have two : done.length + 1 + 1 - done.length = 2 := by omega
  cases enters with
  | starts deeper =>
    have opens : indents.head?.all (· < c.spot.column) = true := by
      cases indents with
      | nil => rfl
      | cons d more => exact decide_eq_true (deeper d rfl)
    simp [value, inLine, insert, openBlock, inFlow, goOn, allowKey, emit, position, opens, one, two]
  | goesOn => simp [value, inLine, insert, openBlock, inFlow, goOn, allowKey, emit, position, one]

theorem Enters.column_le {c : Nat} {start : List (Token String)} {inside : List Nat}
    (enters : Enters c done indents start inside) : ∀ d ∈ indents.head?, d ≤ c := by
  cases enters with
  | starts deeper => exact fun d member => Nat.le_of_lt (deeper d member)
  | goesOn => exact fun d member => Nat.le_of_eq (Option.some.inj member).symm

section Names

variable {name : String} {more : List Char} {i ln j : Nat} {start : List (Token String)} {inside : List Nat}

/-- Where a key may begin, the lexer keeps the place of a name in mind. -/
theorem Ready.reaches_name (named : isIdentifier name = true)
    (ready : Ready l done indents (spotsFrom i ln j (name.toList ++ ':' :: more)))
    (column : ∀ d ∈ indents.head?, d ≤ j) (ended : more.head?.all (fun c => isGap c || isBreak c) = true) :
    ∃ c, Reaches 1 l
      { inLine (spotsFrom (i + name.toList.length) ln (j + name.toList.length) (':' :: more))
          (.scalar .plain name :: done) indents with
        candidate := some ⟨done.length, ⟨c, i, ln, j⟩, indents.head? == some j⟩ } := by
  have letters := isNameRest_of_isIdentifier named
  obtain ⟨c, rest, text⟩ := exists_cons_of_isIdentifier named
  have word : isNameRest c = true := letters c (by simp [text])
  have line := isBreak_of_printable (isPrintable_of_isNameRest word)
  have places : spotsFrom i ln j (name.toList ++ ':' :: more) =
      ⟨c, i, ln, j⟩ :: spotsFrom (i + 1) ln (j + 1) (rest ++ ':' :: more) := by
    rw [text, List.cons_append, spotsFrom_cons line]
  have read : readPlain false (indents.head?.elim 0 (· + 1)) .none (spotsFrom i ln j (name.toList ++ ':' :: more)) =
      some (name.toList, false, spotsFrom (i + name.toList.length) ln (j + name.toList.length) (':' :: more)) := by
    have printable : ∀ d ∈ name.toList, isPrintable d = true := fun d member =>
      isPrintable_of_isNameRest (letters d member)
    have running := running_of_fitsPlain printable (fitsPlain_of_isIdentifier named)
    have unspaced : ' ' ∉ name.toList := fun spaced => absurd (letters ' ' spaced) (by decide)
    show readPlain false _ (.within []) _ = _
    rw [readPlain_append running [] (by simp) (by simp [unspaced]), readPlain_colon (by rw [endsWord_spotsFrom, ended])]
    simp [before]
  rw [places] at ready read
  have mark : isDocumentMark (⟨c, i, ln, j⟩ :: spotsFrom (i + 1) ln (j + 1) (rest ++ ':' :: more)) = false :=
    isDocumentMark_of_char (ne_of_class word (by decide)) (ne_of_class word (by decide))
  have solid : endsWord [⟨c, i, ln, j⟩] = false := by
    obtain ⟨gap, _⟩ := visible_of_isIdentifier named [] c (by simp [text])
    simp [endsWord, gap, line]
  have goesOn : ¬ (c = '-' ∨ c = '?' ∨ c = ':') := by
    rintro (rfl | rfl | rfl)
    · exact absurd word (by decide)
    · exact absurd word (by decide)
    · exact absurd word (by decide)
  refine ⟨c, ready.reaches column ?_⟩
  rw [token_plain rfl mark (isIndicator_of_isNameRest word) solid fun same => absurd same goesOn]
  simp [plainScalar, noteCandidate, dropCandidate, inFlow, read, emit, goOn, allowKey, inLine]

/-- A name and the colon after it are a key. -/
theorem Ready.reaches_key (field : IsFieldName name)
    (ready : Ready l done indents (spotsFrom i ln j (name.toList ++ ':' :: more)))
    (enters : Enters j done indents start inside) (ended : more.head?.all (fun c => isGap c || isBreak c) = true) :
    Reaches 2 l (inLine (spotsFrom (i + name.toList.length + 1) ln (j + name.toList.length + 1) more)
      (.value :: .scalar .plain name :: .key :: start) inside) := by
  obtain ⟨named, _, short⟩ := field
  obtain ⟨c, first⟩ := ready.reaches_name named enters.column_le ended
  have places : spotsFrom (i + name.toList.length) ln (j + name.toList.length) (':' :: more) =
      ⟨':', i + name.toList.length, ln, j + name.toList.length⟩ ::
        spotsFrom (i + name.toList.length + 1) ln (j + name.toList.length + 1) more := spotsFrom_cons (by decide)
  have visible : Visible (':' :: more) := visible_cons.mpr (by decide)
  have late : ¬ i + 1024 < i + name.toList.length := by omega
  have shallow : ∀ d ∈ indents.head?, decide (j + name.toList.length < d) = false := by
    intro d member
    have less := enters.column_le d member
    simp
    omega
  refine first.trans (.of_token ((skipToToken_visible visible).trans (by rw [places])) ?_ ?_)
  · simp [refreshAll, refresh, allowKey, inLine, late]
  · rw [Lexer.closeWhile_of_shallow shallow, token_colon rfl (by rw [endsWord_spotsFrom, ended])]
    exact value_of_candidate rfl enters

end Names

section Values

variable {cs more : List Char} {i ln j b : Nat} {outer : List Nat}

/-- A token behind the blank after a colon, in a block at the column `b`. -/
theorem reaches_of_blank {c : Char} (deep : b ≤ j) (visible : Visible (c :: cs))
    (read : (inLine (spotsFrom i ln j (' ' :: c :: cs)) done (b :: outer)).token ⟨c, i + 1, ln, j + 1⟩
      (spotsFrom (i + 1 + 1) ln (j + 1 + 1) cs) = some m) :
    Reaches 1 (inLine (spotsFrom i ln j (' ' :: c :: cs)) done (b :: outer)) m := by
  have skipped : skipToToken false false false (spotsFrom i ln j (' ' :: c :: cs)) =
      (false, ⟨c, i + 1, ln, j + 1⟩ :: spotsFrom (i + 1 + 1) ln (j + 1 + 1) cs) := by
    have blank : ' ' :: c :: cs = blanks 1 ++ (c :: cs) := rfl
    rw [blank, skipToToken_blanks, skipToToken_visible visible, spotsFrom_cons (visible c rfl).2.1]
  have shallow : ∀ d ∈ (b :: outer).head?, decide (j + 1 < d) = false := by
    intro d member
    obtain rfl := Option.some.inj member
    simp
    omega
  refine .of_token skipped ?_ ?_
  · simp [refreshAll, refresh, allowKey, inLine]
  · rw [Lexer.closeWhile_of_shallow shallow]
    exact read

/-- A text without quotes, up to the line after it. -/
theorem reaches_plain (s : String) (printable : Printable s) (fits : fitsPlain s.toList = true) (given : s.toList ≠ [])
    (deep : b ≤ j) (shallow : k ≤ b) (visible : Visible w) :
    Arrives 1 (inLine (spotsFrom i ln j (' ' :: (s.toList ++ '\n' :: (blanks k ++ w)))) done (b :: outer))
      (.scalar .plain s :: done) (b :: outer) k w := by
  obtain ⟨c, cs, text⟩ := List.exists_cons_of_ne_nil given
  obtain rfl : s = String.ofList (c :: cs) := by rw [← text, String.ofList_toList]
  rw [Printable, text] at printable
  rw [text] at fits
  rw [text, List.cons_append]
  obtain ⟨space, start, goesOn⟩ := start_of_fitsPlain printable fits
  have shown := printable c List.mem_cons_self
  have line := isBreak_of_printable shown
  have gap : isGap c = false := by rw [isGap_of_printable shown]; simp [space]
  have seen : Visible (c :: (cs ++ '\n' :: (blanks k ++ w))) := by
    refine visible_cons.mpr ⟨gap, line, ?_, ne_of_class shown (by decide)⟩
    rintro rfl
    cases start
  have read : readPlain false (b + 1) .none (spotsFrom (i + 1) ln (j + 1) (c :: (cs ++ '\n' :: (blanks k ++ w)))) =
      some (c :: cs, true, spotsFrom (i + 1 + (c :: cs).length + 1 + k) (ln + 1) k w) := by
    show readPlain false _ (.within []) (spotsFrom _ _ _ ((c :: cs) ++ _)) = _
    rw [readPlain_append (running_of_fitsPlain printable fits) [] (by simp) (fun _ => by omega),
      readPlain_line (by omega) visible]
    simp [before]
  rw [spotsFrom_cons line] at read
  have solid : endsWord [⟨c, i + 1, ln, j + 1⟩] = false := by simp [endsWord, gap, line]
  let after : Lexer :=
    { rest := spotsFrom (i + 1 + (c :: cs).length + 1 + k) (ln + 1) k w
      tokens := .scalar .plain (String.ofList (c :: cs)) :: done
      indents := b :: outer }
  have ready : Ready after after.tokens (b :: outer) after.rest :=
    ⟨rfl, rfl, skipToToken_visible visible, [], rfl, rfl, by simp⟩
  refine ⟨after, i + 1 + (c :: cs).length + 1 + k, ln + 1, reaches_of_blank deep seen ?_, ready⟩
  rw [token_plain rfl (isDocumentMark_of_column (Nat.succ_pos j)) start solid]
  · simp only [plainScalar, noteCandidate, inLine]
    show (readPlain false (b + 1) .none _ >>= _) = _
    rw [read]
    rfl
  · intro same
    obtain ⟨d, rest, rfl, word⟩ := goesOn same
    simp [word]

theorem ready_of_line (visible : Visible w) : Ready (inLine (spotsFrom i ln j ('\n' :: (blanks k ++ w))) done indents)
    done indents (spotsFrom (i + 1 + k) (ln + 1) k w) := by
  have skipped : skipToToken false false false (spotsFrom i ln j ('\n' :: (blanks k ++ w))) =
      (true, spotsFrom (i + 1 + k) (ln + 1) k w) := by
    rw [skipToToken_line, skipToToken_blanks, Nat.zero_add, skipToToken_visible visible]
  exact ⟨rfl, rfl, skipped, [], rfl, rfl, by simp⟩

/-- A text between apostrophes, up to the line after it. -/
theorem reaches_quoted {n : Nat} (s : String) (printable : Printable s) (deep : b ≤ j) (visible : Visible w) :
    Arrives 1 (inLine (spotsFrom i ln j (' ' :: '\'' :: (singleBody n false s.toList ++ '\'' :: '\n' ::
      (blanks k ++ w)))) done (b :: outer)) (.scalar .singleQuoted s :: done) (b :: outer) k w := by
  obtain ⟨cs, rfl⟩ : ∃ cs, s = String.ofList cs := ⟨s.toList, String.ofList_toList.symm⟩
  rw [Printable] at printable
  rw [String.toList_ofList] at printable ⊢
  let width := (singleBody n false cs).length
  let after := inLine (spotsFrom (i + 1 + 1 + width + 1) ln (j + 1 + 1 + width + 1) ('\n' :: (blanks k ++ w)))
    (.scalar .singleQuoted (String.ofList cs) :: done) (b :: outer)
  have read : readSingle .none false
      (spotsFrom (i + 1 + 1) ln (j + 1 + 1) (singleBody n false cs ++ '\'' :: '\n' :: (blanks k ++ w))) =
      some (cs, after.rest) := readSingle_append printable (Nat.succ_pos (j + 1)) (by simp) []
  refine ⟨after, _, _, reaches_of_blank deep (visible_cons.mpr (by decide)) ?_, ready_of_line visible⟩
  rw [token_quote rfl]
  simp only [quotedScalar, noteCandidate, inLine]
  show (readSingle .none false _ >>= _) = _
  rw [read]
  rfl

/-- An empty list, up to the line after it. -/
theorem reaches_empty (deep : b ≤ j) (visible : Visible w) :
    Arrives 2 (inLine (spotsFrom i ln j (' ' :: '[' :: ']' :: '\n' :: (blanks k ++ w))) done (b :: outer))
      (.flowSequenceEnd :: .flowSequenceStart :: done) (b :: outer) k w := by
  let tail := '\n' :: (blanks k ++ w)
  let opened : Lexer :=
    { rest := spotsFrom (i + 1 + 1) ln (j + 1 + 1) (']' :: tail)
      tokens := .flowSequenceStart :: done
      indents := b :: outer
      outer := [none] }
  let after := inLine (spotsFrom (i + 1 + 1 + 1) ln (j + 1 + 1 + 1) tail)
    (.flowSequenceEnd :: .flowSequenceStart :: done) (b :: outer)
  have first : Reaches 1 (inLine (spotsFrom i ln j (' ' :: '[' :: ']' :: tail)) done (b :: outer)) opened := by
    refine reaches_of_blank deep (visible_cons.mpr (by decide)) ?_
    rw [token_open rfl]
    simp [openFlow, noteCandidate, inLine, emit, goOn, allowKey, opened]
  have second : Reaches 1 opened after := by
    have places : opened.rest = ⟨']', i + 1 + 1, ln, j + 1 + 1⟩ :: after.rest := spotsFrom_cons (by decide)
    have skipped : skipToToken true false true opened.rest = (true, opened.rest) := by
      rw [places, skipToToken]
      simp [isBreak, byteOrderMark]
    refine .of_token (skipped.trans (by rw [places])) ?_ ?_
    · simp [refreshAll, refresh, allowKey, opened]
    · rw [token_close rfl]
      simp [closeFlow, Lexer.closeWhile, inFlow, dropCandidate, inLine, emit, goOn, allowKey, opened, after]
  exact ⟨after, _, _, first.trans second, ready_of_line visible⟩

/-! ## Items -/

/-- The dash before an item of a list in the column of its name. -/
theorem Ready.reaches_dash (ready : Ready l done (j :: outer) (spotsFrom i ln j ('-' :: ' ' :: more)))
    (visible : Visible more) :
    ∃ m, Reaches 1 l m ∧ Ready m (.entry :: done) (j :: outer) (spotsFrom (i + 1 + 1) ln (j + 1 + 1) more) := by
  let after : Lexer :=
    { rest := spotsFrom (i + 1) ln (j + 1) (' ' :: more)
      tokens := .entry :: done
      indents := j :: outer }
  have skipped : skipToToken false false true after.rest = (true, spotsFrom (i + 1 + 1) ln (j + 1 + 1) more) := by
    have blank : ' ' :: more = blanks 1 ++ more := rfl
    show skipToToken false false true (spotsFrom _ _ _ (' ' :: more)) = _
    rw [blank, skipToToken_blanks, skipToToken_visible visible]
  rw [spotsFrom_cons (by decide), spotsFrom_cons (by decide)] at ready
  refine ⟨after, ready.reaches (fun d member => ?_) ?_, rfl, rfl, skipped, [], rfl, rfl, by simp⟩
  · exact Nat.le_of_eq (Option.some.inj member).symm
  · have places : after.rest = ⟨' ', i + 1, ln, j + 1⟩ :: spotsFrom (i + 1 + 1) ln (j + 1 + 1) more :=
      spotsFrom_cons (by decide)
    rw [token_dash rfl rfl, ← places]
    simp [blockEntry, openBlock, dropCandidate, inFlow, emit, goOn, allowKey, after]

end Values

end Lexer

end Tabular.Yaml
