import Tabular.Proofs.Checks
import Tabular.Sql.Request
import Tabular.Sql.Token

/-!
# The tokens of statements

Reading the text of a statement token by token meets its names, its keywords and its placeholders, each
where it was written (`lexes_statement`): a name is one token whatever it holds. The placeholders met from left
to right are numbered from one on, and there are as many of them as bound values (`prepare_numbered`).
-/

namespace Tabular.Sql
open Token

structure Lexes (text : String) (ts : List Token) : Prop where
  read : lex text = some ts

/-- A text that consists of these tokens and leaves none of them open. -/
structure Settles (text : String) (ts : List Token) : Prop where
  read : Partial.nothing.feed text.toList = (ts, .nothing)

/-- A character that belongs to no longer token. -/
def isBreak (c : Char) : Bool :=
  c = ' ' || c = ',' || c = '(' || c = ')'

/-- A text whose first character, if it has one, ends every token before it. -/
def breaks (text : String) : Bool :=
  text.toList.head?.all isBreak

private theorem feed_append (p : Partial) (a b : List Char) :
    p.feed (a ++ b) = ((p.feed a).1 ++ ((p.feed a).2.feed b).1, ((p.feed a).2.feed b).2) := by
  induction a generalizing p with
  | nil => rfl
  | cons c rest ih => simp only [List.cons_append, Partial.feed, ih, List.append_assoc]

private theorem extend_break {p : Partial} (ended : p.mayEnd = true) {c : Char} (stops : isBreak c = true) :
    p.extend? c = none := by
  have characters : c = ' ' ∨ c = ',' ∨ c = '(' ∨ c = ')' := by simpa [isBreak, or_assoc] using stops
  cases p with
  | name cs => simp [Partial.mayEnd] at ended
  | nothing => rfl
  | quote cs => rcases characters with rfl | rfl | rfl | rfl <;> rfl
  | placeholder cs => rcases characters with rfl | rfl | rfl | rfl <;> rfl
  | word cs => rcases characters with rfl | rfl | rfl | rfl <;> rfl
  | sign cs => rcases characters with rfl | rfl | rfl | rfl <;> rfl

/-- A break completes what was open before it, and the text goes on as if it began there. -/
private theorem feed_break {p : Partial} (ended : p.mayEnd = true) {c : Char} (stops : isBreak c = true)
    (rest : List Char) :
    p.feed (c :: rest) =
      (p.tokens ++ (Partial.nothing.feed (c :: rest)).1, (Partial.nothing.feed (c :: rest)).2) := by
  have step : p.step c = (p.tokens ++ (Partial.start c).1, (Partial.start c).2) := by
    rw [Partial.step, extend_break ended stops]
  have fresh : Partial.nothing.step c = Partial.start c := rfl
  simp only [Partial.feed, step, fresh, List.append_assoc]

private theorem lexes_iff {text : String} {ts : List Token} :
    Lexes text ts ↔ (Partial.nothing.feed text.toList).2.mayEnd = true ∧
      ts = (Partial.nothing.feed text.toList).1 ++ (Partial.nothing.feed text.toList).2.tokens := by
  have unfolded : Lexes text ts ↔ lex text = some ts := ⟨Lexes.read, Lexes.mk⟩
  rw [unfolded, lex]
  by_cases ended : (Partial.nothing.feed text.toList).2.mayEnd = true
  · simp [ended, eq_comm]
  · simp [ended]

theorem Settles.lexes {a b : String} {ts us : List Token} (first : Settles a ts) (last : Lexes b us) :
    Lexes (a ++ b) (ts ++ us) := by
  obtain ⟨ended, rfl⟩ := lexes_iff.mp last
  rw [lexes_iff, String.toList_append, feed_append, first.read]
  exact ⟨ended, (List.append_assoc ..).symm⟩

/-- A text may go on after an open token when a break comes next. -/
theorem Lexes.append {a b : String} {ts us : List Token} (first : Lexes a ts) (last : Lexes b us)
    (stops : breaks b = true) : Lexes (a ++ b) (ts ++ us) := by
  obtain ⟨ended, rfl⟩ := lexes_iff.mp first
  obtain ⟨lastEnded, rfl⟩ := lexes_iff.mp last
  rw [lexes_iff, String.toList_append, feed_append]
  cases characters : b.toList with
  | nil => exact ⟨ended, by simp [Partial.feed, Partial.tokens]⟩
  | cons c rest =>
    have stop : isBreak c = true := by simpa [breaks, characters] using stops
    rw [characters] at lastEnded
    rw [feed_break ended stop]
    exact ⟨lastEnded, by simp only [List.append_assoc]⟩

/-- A text that begins with a break and ends settled settles what was open before it. -/
theorem Lexes.settle {a b : String} {ts us : List Token} (first : Lexes a ts) (last : Settles b us)
    (stops : b.toList.head?.any isBreak = true) : Settles (a ++ b) (ts ++ us) := by
  obtain ⟨ended, rfl⟩ := lexes_iff.mp first
  have settled := last.read
  constructor
  rw [String.toList_append, feed_append]
  cases characters : b.toList with
  | nil => simp [characters] at stops
  | cons c rest =>
    have stop : isBreak c = true := by simpa [characters] using stops
    rw [characters] at settled
    rw [feed_break ended stop, settled, List.append_assoc]

/-- Texts with a separator between any two consist of their tokens with its tokens in between. -/
theorem lexes_intercalate {separator : String} {between : List Token} (settled : Settles separator between)
    (stops : separator.toList.head?.any isBreak = true) {texts : List String} {tss : List (List Token)}
    (each : List.Forall₂ Lexes texts tss) :
    Lexes (separator.intercalate texts) (between.intercalate tss) := by
  induction each with
  | nil => exact ⟨rfl⟩
  | @cons text ts texts tss first rest ih =>
    cases rest with
    | nil => simpa using first
    | cons second others =>
      rw [String.intercalate_cons_cons, List.intercalate_cons_cons]
      exact (first.settle settled stops).lexes ih

def Token.numbered (n : Nat) : Token :=
  .placeholder (toString n)

private theorem feed_double (read cs : List Char) :
    (Partial.name read).feed (Quoted.double cs ++ ['"']) = ([], .quote (read ++ cs)) := by
  induction cs generalizing read with
  | nil => simp [Quoted.double, Partial.feed, Partial.step, Partial.extend?]
  | cons c rest ih =>
    by_cases quoted : c = '"'
    · simp [Quoted.double, quoted, Partial.feed, Partial.step, Partial.extend?, ih]
    · simp [Quoted.double, quoted, Partial.feed, Partial.step, Partial.extend?, ih]

/-- A quoted name is one token, whatever the name holds. -/
theorem lexes_quote (s : String) : Lexes (Quoted.quote s) [.name s] := by
  have read : Partial.nothing.feed (Quoted.quote s).toList = ([], .quote s.toList) := by
    rw [Quoted.quote, String.toList_ofList, List.cons_append]
    exact feed_double [] s.toList
  rw [lexes_iff, read]
  exact ⟨rfl, by simp [Partial.tokens]⟩

private theorem feed_digits (read digits : List Char) (all : ∀ c ∈ digits, c.isDigit = true) :
    (Partial.placeholder read).feed digits = ([], .placeholder (read ++ digits)) := by
  induction digits generalizing read with
  | nil => simp [Partial.feed]
  | cons c rest ih =>
    have digit : c.isDigit = true := all c (by simp)
    simp [Partial.feed, Partial.step, Partial.extend?, digit, ih _ fun d member => all d (by simp [member])]

theorem lexes_placeholder (n : Nat) : Lexes (placeholder n) [.numbered n] := by
  have digits : ∀ c ∈ (toString n).toList, c.isDigit = true := by
    intro c member
    exact Nat.isDigit_of_mem_toDigits (by decide) (by decide) (Nat.toList_repr ▸ member)
  have read : Partial.nothing.feed (placeholder n).toList = ([], .placeholder (toString n).toList) := by
    rw [placeholder, String.toList_append]
    exact feed_digits [] _ digits
  rw [lexes_iff, read]
  exact ⟨rfl, by rw [Partial.tokens, String.ofList_toList, List.nil_append, Token.numbered]⟩

/-- The placeholders of `count` values, each by itself. -/
def placeholderTokens (start count : Nat) : List (List Token) :=
  (List.range' start count).map fun n => [.numbered n]

def nameTokens (names : List String) : List (List Token) :=
  names.map fun s => [.name s]

def enclosedTokens (tss : List (List Token)) : List Token :=
  .mark '(' :: [Token.mark ','].intercalate tss ++ [.mark ')']

/-- The tokens of the operator of a test. -/
def Test.operatorTokens : Test → List Token
  | .compare op _ => [.sign op.sign]
  | .among _ => [.word "IN"]
  | .notAmong _ => [.word "NOT", .word "IN"]
  | .between _ _ => [.word "BETWEEN"]
  | .isNull => [.word "IS", .word "NULL"]
  | .isNotNull => [.word "IS", .word "NOT", .word "NULL"]

/-- The tokens of the values of a test, of which the first has the placeholder with the number `next`. -/
def Test.valueTokens (next : Nat) : Test → List Token
  | .compare _ _ => [.numbered next]
  | .among vs => enclosedTokens (placeholderTokens next vs.length)
  | .notAmong vs => enclosedTokens (placeholderTokens next vs.length)
  | .between _ _ => [.numbered next, .word "AND", .numbered (next + 1)]
  | .isNull => []
  | .isNotNull => []

def Condition.tokens (next : Nat) (c : Condition) : List Token :=
  .name c.column :: (Test.operatorTokens c.test ++ Test.valueTokens next c.test)

/-- The tokens of conditions, each with the placeholders after those of the conditions before it. -/
def conditionTokens (next : Nat) : List Condition → List (List Token)
  | [] => []
  | c :: rest => Condition.tokens next c :: conditionTokens (next + c.test.operands.length) rest

/-- The tokens of the clause that restricts a statement to some rows. -/
def whereTokens (next : Nat) (cs : List Condition) : List Token :=
  if cs.isEmpty then [] else .word "WHERE" :: [Token.word "AND"].intercalate (conditionTokens next cs)

def assignmentTokens (next : Nat) : List (String × Value) → List (List Token)
  | [] => []
  | (column, _) :: rest =>
    [.name column, .sign "=", .numbered next] :: assignmentTokens (next + 1) rest

def SortKey.tokens (k : SortKey) : List Token :=
  .name k.column :: k.direction.elim [] fun d => [.word d.word]

/-- The tokens of the clause that sorts a result. -/
def orderTokens (keys : List SortKey) : List Token :=
  if keys.isEmpty then []
  else .word "ORDER" :: .word "BY" :: [Token.mark ','].intercalate (keys.map SortKey.tokens)

/-- The tokens of the clause that cuts out a page. -/
def pageTokens (next : Nat) (p : Page) : List Token :=
  match p.limit, p.offset with
  | none, none => []
  | some _, none => [.word "LIMIT", .numbered next]
  | some _, some _ =>
    [.word "LIMIT", .numbered next, .word "OFFSET", .numbered (next + 1)]
  | none, some _ =>
    [.word "LIMIT", .mark '-', .word "1", .word "OFFSET", .numbered next]

/-- The tokens of the mode of an insertion. -/
def Conflict.tokens : Conflict → List Token
  | .unspecified => []
  | .abort => [.word "OR", .word "ABORT"]
  | .fail => [.word "OR", .word "FAIL"]
  | .ignore => [.word "OR", .word "IGNORE"]
  | .replace => [.word "OR", .word "REPLACE"]
  | .rollback => [.word "OR", .word "ROLLBACK"]

/-- The tokens of the columns and values of an insertion. -/
def rowTokens (values : List (String × Value)) : List Token :=
  if values.isEmpty then [.word "DEFAULT", .word "VALUES"]
  else
    enclosedTokens (nameTokens (values.map (·.1))) ++
      .word "VALUES" :: enclosedTokens (placeholderTokens 1 values.length)

/-- The values that conditions compare with, in the order of their placeholders. -/
def operands (cs : List Condition) : List Value :=
  cs.flatMap (·.test.operands)

def Insertion.tokens (i : Insertion) : List Token :=
  .word "INSERT" :: (i.mode.tokens ++ .word "INTO" :: .name i.table :: rowTokens i.values)

def Selection.tokens (s : Selection) : List Token :=
  .word "SELECT" :: ([Token.mark ','].intercalate (nameTokens s.columns) ++ .word "FROM" :: .name s.table ::
    (whereTokens 1 s.conditions ++ (orderTokens s.order ++
      pageTokens ((operands s.conditions).length + 1) s.page)))

def Tally.tokens (t : Tally) : List Token :=
  .word "SELECT" :: .word "COUNT" :: .mark '(' :: .mark '*' :: .mark ')' :: .word "FROM" :: .name t.table ::
    whereTokens 1 t.conditions

def Revision.tokens (r : Revision) : List Token :=
  .word "UPDATE" :: .name r.table :: .word "SET" ::
    ([Token.mark ','].intercalate (assignmentTokens 1 r.values) ++
      whereTokens (r.values.length + 1) r.conditions)

def Removal.tokens (r : Removal) : List Token :=
  .word "DELETE" :: .word "FROM" :: .name r.table :: whereTokens 1 r.conditions

def Statement.tokens : Statement → List Token
  | insert i => i.tokens
  | select s => s.tokens
  | count t => t.tokens
  | update r => r.tokens
  | delete r => r.tokens

/-! ## The tokens of each clause -/

private theorem lexes_empty : Lexes "" [] := ⟨rfl⟩
private theorem settles_comma : Settles ", " [.mark ','] := ⟨rfl⟩
private theorem settles_blank : Settles " " [] := ⟨rfl⟩
private theorem settles_and : Settles " AND " [.word "AND"] := ⟨rfl⟩
private theorem settles_open : Settles " (" [.mark '('] := ⟨rfl⟩
private theorem lexes_close : Lexes ")" [.mark ')'] := ⟨rfl⟩

private theorem lexes_commas {α : Type} {text : α → String} {tokens : α → List Token}
    (each : ∀ a, Lexes (text a) (tokens a)) (as : List α) :
    Lexes (", ".intercalate (as.map text)) ([Token.mark ','].intercalate (as.map tokens)) := by
  refine lexes_intercalate settles_comma rfl ?_
  rw [List.forall₂_map_left_iff, List.forall₂_map_right_iff, List.forall₂_same]
  exact fun a _ => each a

private theorem lexes_placeholders (start count : Nat) :
    Lexes (placeholders start count) ([Token.mark ','].intercalate (placeholderTokens start count)) :=
  lexes_commas lexes_placeholder (List.range' start count)

private theorem lexes_nameList (names : List String) :
    Lexes (nameList names) ([Token.mark ','].intercalate (nameTokens names)) :=
  lexes_commas lexes_quote names

private theorem lexes_enclosed {before text : String} {ts : List Token} {tss : List (List Token)}
    (first : Lexes before ts) (inner : Lexes text ([Token.mark ','].intercalate tss)) :
    Lexes (before ++ " (" ++ text ++ ")") (ts ++ enclosedTokens tss) := by
  have read := (((first.settle settles_open rfl).lexes inner).append lexes_close rfl)
  simpa [enclosedTokens] using read

private theorem lexes_sign (op : Comparison) : Lexes op.sign [.sign op.sign] := by
  cases op <;> exact ⟨by simp only [Comparison.sign]; rfl⟩

private theorem lexes_operator (t : Test) : Lexes t.operator (Test.operatorTokens t) := by
  cases t with
  | compare op v => exact lexes_sign op
  | among vs => exact (⟨rfl⟩ : Lexes "IN" [.word "IN"])
  | notAmong vs => exact (⟨rfl⟩ : Lexes "NOT IN" [.word "NOT", .word "IN"])
  | between low high => exact (⟨rfl⟩ : Lexes "BETWEEN" [.word "BETWEEN"])
  | isNull => exact (⟨rfl⟩ : Lexes "IS NULL" [.word "IS", .word "NULL"])
  | isNotNull => exact (⟨rfl⟩ : Lexes "IS NOT NULL" [.word "IS", .word "NOT", .word "NULL"])

private theorem lexes_condition (next : Nat) (c : Condition) :
    Lexes (Condition.sql next c) (Condition.tokens next c) := by
  obtain ⟨column, t⟩ := c
  have subject : Lexes (Quoted.quote column ++ " " ++ t.operator) (.name column :: Test.operatorTokens t) :=
    ((lexes_quote column).settle settles_blank rfl).lexes (lexes_operator t)
  cases t with
  | compare op v => exact (subject.settle settles_blank rfl).lexes (lexes_placeholder next)
  | among vs => exact lexes_enclosed subject (lexes_placeholders next vs.length)
  | notAmong vs => exact lexes_enclosed subject (lexes_placeholders next vs.length)
  | between low high =>
    exact ((((subject.settle settles_blank rfl).lexes (lexes_placeholder next)).settle settles_and rfl).lexes
      (lexes_placeholder (next + 1)))
  | isNull => exact subject
  | isNotNull => exact subject

private theorem lexes_predicates (params : List Value) (cs : List Condition) :
    List.Forall₂ Lexes (predicates params cs).1 (conditionTokens (params.length + 1) cs) := by
  induction cs generalizing params with
  | nil => exact .nil
  | cons c rest ih =>
    have following := ih (params ++ c.test.operands)
    rw [List.length_append, Nat.add_right_comm] at following
    exact .cons (lexes_condition _ c) following

theorem predicates_params (params : List Value) (cs : List Condition) :
    (predicates params cs).2 = params ++ operands cs := by
  induction cs generalizing params with
  | nil => simp [predicates, operands]
  | cons c rest ih => simp [predicates, operands, ih]

theorem whereClause_params (params : List Value) (cs : List Condition) :
    (whereClause params cs).params = params ++ operands cs :=
  predicates_params params cs

private theorem lexes_where (params : List Value) (cs : List Condition) :
    Lexes (whereClause params cs).sql (whereTokens (params.length + 1) cs) := by
  cases cs with
  | nil => exact lexes_empty
  | cons c rest =>
    have settled : Settles " WHERE " [.word "WHERE"] := ⟨rfl⟩
    have tests := lexes_intercalate settles_and rfl (lexes_predicates params (c :: rest))
    have some : (predicates params (c :: rest)).1.isEmpty = false := rfl
    simp only [whereClause, some, whereTokens, List.isEmpty_cons, Bool.false_eq_true, if_false]
    exact settled.lexes tests

private theorem breaks_where (params : List Value) (cs : List Condition) :
    breaks (whereClause params cs).sql = true := by
  cases cs with
  | nil => rfl
  | cons c rest => simp [whereClause, predicates, breaks, isBreak]

private theorem lexes_assignments (params : List Value) (values : List (String × Value)) :
    List.Forall₂ Lexes (assignments params values).1 (assignmentTokens (params.length + 1) values) := by
  induction values generalizing params with
  | nil => exact .nil
  | cons head rest ih =>
    obtain ⟨column, v⟩ := head
    have following := ih (params ++ [v])
    rw [List.length_append, List.length_singleton] at following
    have equals : Settles " = " [.sign "="] := ⟨rfl⟩
    have written := ((lexes_quote column).settle equals rfl).lexes (lexes_placeholder (params.length + 1))
    rw [assignments, assignmentTokens, List.length_append, List.length_singleton]
    exact .cons written following

theorem assignments_params (params : List Value) (values : List (String × Value)) :
    (assignments params values).2 = params ++ values.map (·.2) := by
  induction values generalizing params with
  | nil => simp [assignments]
  | cons head rest ih => simp [assignments, ih]

private theorem lexes_sortKey (k : SortKey) : Lexes k.sql k.tokens := by
  obtain ⟨column, direction⟩ := k
  cases direction with
  | none => exact lexes_quote column
  | some d =>
    have word : Lexes d.word [.word d.word] := by
      cases d <;> exact ⟨by simp only [Direction.word]; rfl⟩
    exact ((lexes_quote column).settle settles_blank rfl).lexes word

private theorem lexes_order (keys : List SortKey) : Lexes (orderClause keys) (orderTokens keys) := by
  cases keys with
  | nil => exact lexes_empty
  | cons k rest =>
    have settled : Settles " ORDER BY " [.word "ORDER", .word "BY"] := ⟨rfl⟩
    exact settled.lexes (lexes_commas lexes_sortKey (k :: rest))

private theorem breaks_order (keys : List SortKey) : breaks (orderClause keys) = true := by
  cases keys with
  | nil => rfl
  | cons k rest => simp [orderClause, breaks, isBreak]

private theorem lexes_page (params : List Value) (p : Page) :
    Lexes (pageClause params p).sql (pageTokens (params.length + 1) p) := by
  obtain ⟨limit, offset⟩ := p
  have limited : Settles " LIMIT " [.word "LIMIT"] := ⟨rfl⟩
  have skipped : Settles " OFFSET " [.word "OFFSET"] := ⟨rfl⟩
  have unlimited : Settles " LIMIT -1 OFFSET " [.word "LIMIT", .mark '-', .word "1", .word "OFFSET"] := ⟨rfl⟩
  cases limit with
  | none =>
    cases offset with
    | none => exact lexes_empty
    | some o => simpa [pageClause, pageTokens] using unlimited.lexes (lexes_placeholder (params.length + 1))
  | some l =>
    have first := limited.lexes (lexes_placeholder (params.length + 1))
    cases offset with
    | none => simpa [pageClause, pageTokens] using first
    | some o =>
      simpa [pageClause, pageTokens] using (first.settle skipped rfl).lexes (lexes_placeholder (params.length + 2))

private theorem breaks_page (params : List Value) (p : Page) : breaks (pageClause params p).sql = true := by
  obtain ⟨_ | l, _ | o⟩ := p
  · rfl
  all_goals simp [pageClause, breaks, isBreak]

private theorem lexes_mode (m : Conflict) :
    Lexes ("INSERT" ++ m.clause) (.word "INSERT" :: m.tokens) := by
  cases m with
  | unspecified => exact (⟨rfl⟩ : Lexes "INSERT" [.word "INSERT"])
  | abort => exact (⟨rfl⟩ : Lexes "INSERT OR ABORT" [.word "INSERT", .word "OR", .word "ABORT"])
  | fail => exact (⟨rfl⟩ : Lexes "INSERT OR FAIL" [.word "INSERT", .word "OR", .word "FAIL"])
  | ignore => exact (⟨rfl⟩ : Lexes "INSERT OR IGNORE" [.word "INSERT", .word "OR", .word "IGNORE"])
  | replace => exact (⟨rfl⟩ : Lexes "INSERT OR REPLACE" [.word "INSERT", .word "OR", .word "REPLACE"])
  | rollback => exact (⟨rfl⟩ : Lexes "INSERT OR ROLLBACK" [.word "INSERT", .word "OR", .word "ROLLBACK"])

/-- The columns and values of an insertion, after any text that may end. -/
private theorem lexes_row {before : String} {ts : List Token} (first : Lexes before ts)
    (values : List (String × Value)) :
    Lexes (before ++ (rowClause values).sql) (ts ++ rowTokens values) := by
  cases values with
  | nil =>
    have defaults : Lexes " DEFAULT VALUES" [.word "DEFAULT", .word "VALUES"] := ⟨rfl⟩
    simpa [rowClause, rowTokens] using first.append defaults rfl
  | cons head rest =>
    have between : Settles ") VALUES (" [.mark ')', .word "VALUES", .mark '('] := ⟨rfl⟩
    have names := (first.settle settles_open rfl).lexes (lexes_nameList ((head :: rest).map (·.1)))
    have placed := (names.settle between rfl).lexes (lexes_placeholders 1 (head :: rest).length)
    simpa [rowClause, rowTokens, enclosedTokens, String.append_assoc] using placed.append lexes_close rfl

private theorem lexes_insertion (i : Insertion) : Lexes i.prepare.sql i.tokens := by
  have into : Settles " INTO " [.word "INTO"] := ⟨rfl⟩
  have table := ((lexes_mode i.mode).settle into rfl).lexes (lexes_quote i.table)
  simpa [Insertion.prepare, Insertion.tokens] using lexes_row table i.values

private theorem lexes_selection (s : Selection) : Lexes s.prepare.sql s.tokens := by
  have first : Settles "SELECT " [.word "SELECT"] := ⟨rfl⟩
  have source : Settles " FROM " [.word "FROM"] := ⟨rfl⟩
  have table := ((first.lexes (lexes_nameList s.columns)).settle source rfl).lexes (lexes_quote s.table)
  have filtered := table.append (lexes_where [] s.conditions) (breaks_where _ _)
  have ordered := filtered.append (lexes_order s.order) (breaks_order _)
  have paged := ordered.append (lexes_page (whereClause [] s.conditions).params s.page) (breaks_page _ _)
  rw [whereClause_params, List.nil_append] at paged
  simpa [Selection.prepare, Selection.tokens, whereClause_params] using paged

private theorem lexes_tally (t : Tally) : Lexes t.prepare.sql t.tokens := by
  have first : Settles "SELECT COUNT(*) FROM "
    [.word "SELECT", .word "COUNT", .mark '(', .mark '*', .mark ')', .word "FROM"] := ⟨rfl⟩
  exact (first.lexes (lexes_quote t.table)).append (lexes_where [] t.conditions) (breaks_where _ _)

private theorem lexes_revision (r : Revision) : Lexes r.prepare.sql r.tokens := by
  have first : Settles "UPDATE " [.word "UPDATE"] := ⟨rfl⟩
  have sets : Settles " SET " [.word "SET"] := ⟨rfl⟩
  have opened := (first.lexes (lexes_quote r.table)).settle sets rfl
  have assigned := opened.lexes (lexes_intercalate settles_comma rfl (lexes_assignments [] r.values))
  have filtered := assigned.append (lexes_where (assignments [] r.values).2 r.conditions) (breaks_where _ _)
  rw [assignments_params] at filtered
  simpa [Revision.prepare, Revision.tokens, assignments_params] using filtered

private theorem lexes_removal (r : Removal) : Lexes r.prepare.sql r.tokens := by
  have first : Settles "DELETE FROM " [.word "DELETE", .word "FROM"] := ⟨rfl⟩
  exact (first.lexes (lexes_quote r.table)).append (lexes_where [] r.conditions) (breaks_where _ _)

/-- The text of a statement consists of the statement's tokens. -/
theorem lexes_statement (s : Statement) : Lexes s.prepare.sql s.tokens := by
  cases s with
  | insert i => exact lexes_insertion i
  | select s => exact lexes_selection s
  | count t => exact lexes_tally t
  | update r => exact lexes_revision r
  | delete r => exact lexes_removal r

/-! ## The values that are bound -/

/-- The values that are bound for a page. -/
def pageValues (p : Page) : List Value :=
  p.limit.toList.map rowCount ++ p.offset.toList.map rowCount

theorem pageClause_params (params : List Value) (p : Page) :
    (pageClause params p).params = params ++ pageValues p := by
  obtain ⟨_ | l, _ | o⟩ := p <;> simp [pageClause, pageValues]

theorem rowClause_params (values : List (String × Value)) : (rowClause values).params = values.map (·.2) := by
  cases values <;> rfl

/-- The values that a statement binds, in the order in which the clauses of the statement stand. -/
theorem prepare_params (s : Statement) :
    s.prepare.params =
      match s with
      | .insert i => i.values.map (·.2)
      | .select s => operands s.conditions ++ pageValues s.page
      | .count t => operands t.conditions
      | .update r => r.values.map (·.2) ++ operands r.conditions
      | .delete r => operands r.conditions := by
  cases s with
  | insert i => exact rowClause_params i.values
  | select s =>
    rw [Statement.prepare, Selection.prepare, pageClause_params, whereClause_params, List.nil_append]
  | count t => exact whereClause_params [] t.conditions
  | update r =>
    rw [Statement.prepare, Revision.prepare, whereClause_params, assignments_params, List.nil_append]
  | delete r => exact whereClause_params [] r.conditions

/-! ## The numbers of the placeholders -/

/-- The placeholders among tokens, each by its digits. -/
def placeholdersIn (ts : List Token) : List String :=
  ts.filterMap Token.placeholder?

/-- The digits of `count` numbers from `start` on. -/
def numbers (start count : Nat) : List String :=
  (List.range' start count).map toString

private theorem numbers_add (start a b : Nat) :
    numbers start (a + b) = numbers start a ++ numbers (start + a) b := by
  rw [numbers, numbers, numbers, ← List.map_append, List.range'_append_1]

private theorem placeholdersIn_append (ts us : List Token) :
    placeholdersIn (ts ++ us) = placeholdersIn ts ++ placeholdersIn us :=
  List.filterMap_append ..

/-- Separators without placeholders leave the placeholders between them as they are. -/
private theorem placeholdersIn_intercalate {between : List Token} (bare : placeholdersIn between = [])
    (tss : List (List Token)) : placeholdersIn (between.intercalate tss) = tss.flatMap placeholdersIn := by
  induction tss with
  | nil => rfl
  | cons ts rest ih =>
    cases rest with
    | nil => simp
    | cons second others =>
      rw [List.intercalate_cons_cons, placeholdersIn_append, placeholdersIn_append, bare, ih]
      simp

private theorem placeholdersIn_placeholders (start count : Nat) :
    (placeholderTokens start count).flatMap placeholdersIn = numbers start count := by
  rw [numbers, List.map_eq_flatMap, placeholderTokens, List.flatMap_map]
  rfl

private theorem placeholdersIn_names (names : List String) :
    (nameTokens names).flatMap placeholdersIn = [] := by
  rw [nameTokens, List.flatMap_map, List.flatMap_eq_nil_iff]
  exact fun s _ => rfl

private theorem placeholdersIn_enclosed (tss : List (List Token)) :
    placeholdersIn (enclosedTokens tss) = tss.flatMap placeholdersIn := by
  have opening : placeholdersIn [.mark '('] = [] := rfl
  have closing : placeholdersIn [.mark ')'] = [] := rfl
  have comma : placeholdersIn [.mark ','] = [] := rfl
  rw [enclosedTokens, List.cons_append, ← List.singleton_append, placeholdersIn_append, placeholdersIn_append,
    opening, closing, placeholdersIn_intercalate comma, List.nil_append, List.append_nil]

private theorem placeholdersIn_condition (next : Nat) (c : Condition) :
    placeholdersIn (Condition.tokens next c) = numbers next c.test.operands.length := by
  obtain ⟨column, t⟩ := c
  have operator : placeholdersIn (.name column :: Test.operatorTokens t) = [] := by cases t <;> rfl
  rw [Condition.tokens, ← List.cons_append, placeholdersIn_append, operator, List.nil_append]
  cases t with
  | compare op v => rfl
  | among vs => exact (placeholdersIn_enclosed _).trans (placeholdersIn_placeholders next vs.length)
  | notAmong vs => exact (placeholdersIn_enclosed _).trans (placeholdersIn_placeholders next vs.length)
  | between low high => rfl
  | isNull => rfl
  | isNotNull => rfl

private theorem placeholdersIn_conditions (next : Nat) (cs : List Condition) :
    (conditionTokens next cs).flatMap placeholdersIn = numbers next (operands cs).length := by
  induction cs generalizing next with
  | nil => rfl
  | cons c rest ih =>
    rw [conditionTokens, List.flatMap_cons, placeholdersIn_condition, ih, ← numbers_add]
    simp [operands]

private theorem placeholdersIn_where (next : Nat) (cs : List Condition) :
    placeholdersIn (whereTokens next cs) = numbers next (operands cs).length := by
  cases cs with
  | nil => rfl
  | cons c rest =>
    have and : placeholdersIn [.word "AND"] = [] := rfl
    rw [← placeholdersIn_conditions, ← placeholdersIn_intercalate and]
    rfl

private theorem placeholdersIn_assignments (next : Nat) (values : List (String × Value)) :
    (assignmentTokens next values).flatMap placeholdersIn = numbers next values.length := by
  induction values generalizing next with
  | nil => rfl
  | cons head rest ih =>
    have first : placeholdersIn [.name head.1, .sign "=", .numbered next] = numbers next 1 := rfl
    rw [assignmentTokens, List.flatMap_cons, first, ih, ← numbers_add, List.length_cons, Nat.add_comm 1]

private theorem placeholdersIn_order (keys : List SortKey) : placeholdersIn (orderTokens keys) = [] := by
  cases keys with
  | nil => rfl
  | cons k rest =>
    have comma : placeholdersIn [.mark ','] = [] := rfl
    have sorted : ((k :: rest).map SortKey.tokens).flatMap placeholdersIn = [] := by
      rw [List.flatMap_map, List.flatMap_eq_nil_iff]
      rintro ⟨column, _ | d⟩ _ <;> rfl
    exact (placeholdersIn_intercalate comma _).trans sorted

private theorem placeholdersIn_page (next : Nat) (p : Page) :
    placeholdersIn (pageTokens next p) = numbers next (pageValues p).length := by
  obtain ⟨_ | l, _ | o⟩ := p <;> rfl

private theorem placeholdersIn_row (values : List (String × Value)) :
    placeholdersIn (rowTokens values) = numbers 1 values.length := by
  cases values with
  | nil => rfl
  | cons head rest =>
    have word : placeholdersIn [.word "VALUES"] = [] := rfl
    have split : rowTokens (head :: rest) = enclosedTokens (nameTokens ((head :: rest).map (·.1))) ++
      ([.word "VALUES"] ++ enclosedTokens (placeholderTokens 1 (head :: rest).length)) := rfl
    rw [split, placeholdersIn_append, placeholdersIn_append, placeholdersIn_enclosed, placeholdersIn_enclosed,
      placeholdersIn_names, placeholdersIn_placeholders, word, List.nil_append, List.nil_append]

/-- The placeholders of a statement are numbered from one on, one for each value that is bound. -/
theorem placeholdersIn_statement (s : Statement) :
    placeholdersIn s.tokens = numbers 1 s.prepare.params.length := by
  rw [prepare_params]
  cases s with
  | insert i =>
    have mode : placeholdersIn (.word "INSERT" :: (i.mode.tokens ++ [.word "INTO", .name i.table])) = [] := by
      cases i.mode <;> rfl
    have split : i.tokens =
      (.word "INSERT" :: (i.mode.tokens ++ [.word "INTO", .name i.table])) ++ rowTokens i.values := by
      simp [Insertion.tokens]
    rw [Statement.tokens, split, placeholdersIn_append, mode, placeholdersIn_row, List.nil_append, List.length_map]
  | select s =>
    have comma : placeholdersIn [.mark ','] = [] := rfl
    have columns : placeholdersIn (.word "SELECT" :: [Token.mark ','].intercalate (nameTokens s.columns)) = [] :=
      (placeholdersIn_intercalate comma _).trans (placeholdersIn_names s.columns)
    have source : placeholdersIn [.word "FROM", .name s.table] = [] := rfl
    have split : s.tokens = (.word "SELECT" :: [Token.mark ','].intercalate (nameTokens s.columns)) ++
      ([.word "FROM", .name s.table] ++ (whereTokens 1 s.conditions ++ (orderTokens s.order ++
        pageTokens ((operands s.conditions).length + 1) s.page))) := by
      simp [Selection.tokens]
    rw [Statement.tokens, split, placeholdersIn_append, placeholdersIn_append, placeholdersIn_append,
      placeholdersIn_append, columns, source, placeholdersIn_where, placeholdersIn_order, placeholdersIn_page,
      List.nil_append, List.nil_append, List.nil_append, List.length_append, numbers_add, Nat.add_comm 1]
  | count t => exact placeholdersIn_where 1 t.conditions
  | update r =>
    have comma : placeholdersIn [.mark ','] = [] := rfl
    have table : placeholdersIn [.word "UPDATE", .name r.table, .word "SET"] = [] := rfl
    have split : r.tokens = [.word "UPDATE", .name r.table, .word "SET"] ++
      ([Token.mark ','].intercalate (assignmentTokens 1 r.values) ++
        whereTokens (r.values.length + 1) r.conditions) := rfl
    rw [Statement.tokens, split, placeholdersIn_append, placeholdersIn_append, table,
      placeholdersIn_intercalate comma, placeholdersIn_assignments, placeholdersIn_where, List.nil_append,
      List.length_append, List.length_map, numbers_add, Nat.add_comm 1]
  | delete r => exact placeholdersIn_where 1 r.conditions

/-- Whatever is asked about an entity, whose names may hold any characters: the placeholders that are met
in the text from left to right are `?1`, `?2` and so on, one for each value that is bound. -/
theorem prepare_numbered {e : Entity} {r : Request} {p : Prepared} (prepared : e.prepare r = .ok p) :
    ∃ ts, Token.lex p.sql = some ts ∧
      ts.filterMap Token.placeholder? = (List.range' 1 p.params.length).map toString := by
  obtain ⟨s, _, rfl⟩ := Checks.map_eq_ok.mp prepared
  exact ⟨s.tokens, (lexes_statement s).read, placeholdersIn_statement s⟩

/-- Quotes and question marks in names are not met as placeholders. -/
theorem prepare_numbered_quoted :
    let e : Entity := ⟨"t?9\"SET", none, false, [⟨"id", .integer, false, true, false, false, none⟩,
      ⟨"a\"?1", .text, true, false, false, false, none⟩]⟩
    let r : Request := .reviseWhere [("a\"?1", .text "?7")]
      [⟨"id", .among [.integer 1, .integer 2]⟩, ⟨"a\"?1", .isNull⟩]
    let p : Prepared :=
      ⟨"UPDATE \"t?9\"\"SET\" SET \"a\"\"?1\" = ?1 WHERE \"id\" IN (?2, ?3) AND \"a\"\"?1\" IS NULL",
        [.text "?7", .integer 1, .integer 2]⟩
    e.prepare r = .ok p ∧ ∃ ts, Token.lex p.sql = some ts ∧ ts.filterMap Token.placeholder? = ["1", "2", "3"] := by
  intro e r p
  have prepared : e.prepare r = .ok p := by decide +kernel
  obtain ⟨ts, read, numbered⟩ := prepare_numbered prepared
  exact ⟨prepared, ts, read, numbered⟩

end Tabular.Sql
