import Tabular.Proofs.Creation
import Tabular.Proofs.StatementTokens

/-!
# The texts of tables

The text that creates a table determines the table: a column ends where the next mark stands, and its name, its
storage and each of its constraints are read off its tokens (`ColumnDefinition.tokens_injective`,
`TableDefinition.sql_injective`). Two valid entities are therefore created by the same text exactly when their tables
are declared alike (`Entity.creation_text`).
-/

namespace Tabular

namespace Sql

open Token

theorem Lexes.unique {text : String} {ts us : List Token} (first : Lexes text ts) (last : Lexes text us) : ts = us :=
  Option.some.inj (first.read.symm.trans last.read)

theorem Storage.word_injective : Function.Injective Storage.word := by
  intro s s' same
  cases s <;> cases s' <;> simp_all [Storage.word]

/-- The name in a quoted name. -/
def Token.name? : Token → Option String
  | name s => some s
  | _ => none

/-- The tokens of a clause that is given or left out. -/
def clauseTokens (given : Bool) (words : List String) : List Token :=
  if given then words.map .word else []

theorem word_mem_clauseTokens {given : Bool} {words : List String} {w : String} :
    .word w ∈ clauseTokens given words ↔ given = true ∧ w ∈ words := by
  cases given <;> simp [clauseTokens]

theorem mark_notMem_clauseTokens (given : Bool) (words : List String) (m : Char) :
    .mark m ∉ clauseTokens given words := by
  cases given <;> simp [clauseTokens]

theorem filterMap_name?_clauseTokens (given : Bool) (words : List String) :
    (clauseTokens given words).filterMap Token.name? = [] := by
  cases given with
  | false => rfl
  | true =>
    rw [clauseTokens, if_pos rfl, List.filterMap_map, List.filterMap_eq_nil_iff]
    exact fun _ _ => rfl

/-- A clause after any text that may end. -/
private theorem lexes_clause {before text : String} {ts : List Token} {words : List String} (first : Lexes before ts)
    (clause : Lexes text (words.map .word)) (stops : breaks text = true) (given : Bool) :
    Lexes (before ++ if given then text else "") (ts ++ clauseTokens given words) := by
  cases given with
  | false => simpa [clauseTokens] using first
  | true => exact first.append clause stops

/-- The tokens of what is demanded of the values of a column. -/
def ColumnDefinition.constraintTokens (c : ColumnDefinition) : List Token :=
  clauseTokens c.isKey ["PRIMARY", "KEY"] ++ clauseTokens c.autoincrement ["AUTOINCREMENT"] ++
    clauseTokens c.unique ["UNIQUE"] ++ clauseTokens c.notNull ["NOT", "NULL"] ++
    c.references.elim [] fun table => [.word "REFERENCES", .name table]

def ColumnDefinition.tokens (c : ColumnDefinition) : List Token :=
  .name c.name :: .word c.storage.word :: c.constraintTokens

theorem lexes_columnDefinition (c : ColumnDefinition) : Lexes c.sql c.tokens := by
  have blank : Settles " " [] := ⟨rfl⟩
  have word : Lexes c.storage.word [.word c.storage.word] := by
    cases c.storage <;> exact ⟨by simp only [Storage.word]; rfl⟩
  have key : Lexes " PRIMARY KEY" (["PRIMARY", "KEY"].map .word) := ⟨rfl⟩
  have counted : Lexes " AUTOINCREMENT" (["AUTOINCREMENT"].map .word) := ⟨rfl⟩
  have unique : Lexes " UNIQUE" (["UNIQUE"].map .word) := ⟨rfl⟩
  have required : Lexes " NOT NULL" (["NOT", "NULL"].map .word) := ⟨rfl⟩
  have refers : Settles " REFERENCES " [.word "REFERENCES"] := ⟨rfl⟩
  have named := ((lexes_quote c.name).settle blank rfl).lexes word
  have flagged := lexes_clause (lexes_clause (lexes_clause (lexes_clause named key rfl c.isKey) counted rfl
    c.autoincrement) unique rfl c.unique) required rfl c.notNull
  cases references : c.references with
  | none =>
    simpa [ColumnDefinition.sql, ColumnDefinition.tokens, ColumnDefinition.constraintTokens, references] using flagged
  | some table =>
    simpa [ColumnDefinition.sql, ColumnDefinition.tokens, ColumnDefinition.constraintTokens, references,
      String.append_assoc] using (flagged.settle refers rfl).lexes (lexes_quote table)

theorem word_mem_constraintTokens (c : ColumnDefinition) :
    (.word "PRIMARY" ∈ c.constraintTokens ↔ c.isKey = true) ∧
      (.word "AUTOINCREMENT" ∈ c.constraintTokens ↔ c.autoincrement = true) ∧
      (.word "UNIQUE" ∈ c.constraintTokens ↔ c.unique = true) ∧
      (.word "NOT" ∈ c.constraintTokens ↔ c.notNull = true) := by
  cases references : c.references <;> simp [ColumnDefinition.constraintTokens, word_mem_clauseTokens, references]

theorem filterMap_name?_constraintTokens (c : ColumnDefinition) :
    c.constraintTokens.filterMap Token.name? = c.references.toList := by
  simp only [ColumnDefinition.constraintTokens, List.filterMap_append, filterMap_name?_clauseTokens, List.nil_append]
  cases c.references <;> rfl

theorem mark_notMem_tokens (c : ColumnDefinition) (m : Char) : .mark m ∉ c.tokens := by
  cases references : c.references <;>
    simp [ColumnDefinition.tokens, ColumnDefinition.constraintTokens, mark_notMem_clauseTokens, references]

/-- A column is known by its tokens. -/
theorem ColumnDefinition.tokens_injective : Function.Injective ColumnDefinition.tokens := by
  intro c d same
  rw [tokens, tokens, List.cons.injEq, List.cons.injEq, Token.name.injEq, Token.word.injEq] at same
  obtain ⟨name, word, constraints⟩ := same
  have storage : c.storage = d.storage := Storage.word_injective word
  obtain ⟨key, counted, unique, required⟩ := word_mem_constraintTokens c
  rw [constraints] at key counted unique required
  obtain ⟨key', counted', unique', required'⟩ := word_mem_constraintTokens d
  have references : c.references.toList = d.references.toList := by
    rw [← filterMap_name?_constraintTokens, constraints, filterMap_name?_constraintTokens]
  have isKey : c.isKey = d.isKey := Bool.eq_iff_iff.mpr (key.symm.trans key')
  have autoincrement : c.autoincrement = d.autoincrement := Bool.eq_iff_iff.mpr (counted.symm.trans counted')
  have isUnique : c.unique = d.unique := Bool.eq_iff_iff.mpr (unique.symm.trans unique')
  have notNull : c.notNull = d.notNull := Bool.eq_iff_iff.mpr (required.symm.trans required')
  have target : c.references = d.references := by simpa using congrArg List.head? references
  cases c
  cases d
  exact (ColumnDefinition.mk.injEq ..).mpr ⟨name, storage, isKey, autoincrement, isUnique, notNull, target⟩

/-! ## The tokens of a table -/

def TableDefinition.tokens (d : TableDefinition) : List Token :=
  .word "CREATE" :: .word "TABLE" :: .word "IF" :: .word "NOT" :: .word "EXISTS" :: .name d.name ::
    enclosedTokens (d.columns.map ColumnDefinition.tokens)

theorem lexes_createTable (d : TableDefinition) : Lexes (Definition.createTable d).sql d.tokens := by
  have create : Settles "CREATE TABLE IF NOT EXISTS "
    [.word "CREATE", .word "TABLE", .word "IF", .word "NOT", .word "EXISTS"] := ⟨rfl⟩
  have opening : Settles " (" [.mark '('] := ⟨rfl⟩
  have comma : Settles ", " [.mark ','] := ⟨rfl⟩
  have closing : Lexes ")" [.mark ')'] := ⟨rfl⟩
  have columns : List.Forall₂ Lexes (d.columns.map ColumnDefinition.sql) (d.columns.map ColumnDefinition.tokens) := by
    rw [List.forall₂_map_left_iff, List.forall₂_map_right_iff, List.forall₂_same]
    exact fun c _ => lexes_columnDefinition c
  have opened := (create.lexes (lexes_quote d.name)).settle opening rfl
  have listed := (opened.lexes (lexes_intercalate comma rfl columns)).append closing rfl
  exact listed

/-- Columns are told apart by the commas between them. -/
theorem intercalate_tokens_injective {cs ds : List ColumnDefinition}
    (same : [Token.mark ','].intercalate (cs.map ColumnDefinition.tokens) =
      [Token.mark ','].intercalate (ds.map ColumnDefinition.tokens)) : cs = ds := by
  have bare (cs : List ColumnDefinition) : ∀ ts ∈ cs.map ColumnDefinition.tokens, .mark ',' ∉ ts := by
    intro ts member
    obtain ⟨c, _, rfl⟩ := List.mem_map.mp member
    exact mark_notMem_tokens c ','
  have filled (c : ColumnDefinition) (rest : List ColumnDefinition) :
      [Token.mark ','].intercalate ((c :: rest).map ColumnDefinition.tokens) ≠ [] := by
    cases rest <;> simp [ColumnDefinition.tokens]
  cases cs with
  | nil =>
    cases ds with
    | nil => rfl
    | cons d ds => exact absurd same.symm (filled d ds)
  | cons c cs =>
    cases ds with
    | nil => exact absurd same (filled c cs)
    | cons d ds =>
      have pieces := congrArg (List.splitOn (Token.mark ',')) same
      rw [List.splitOn_intercalate _ (bare _) (by simp), List.splitOn_intercalate _ (bare _) (by simp)] at pieces
      exact List.map_injective_iff.mpr ColumnDefinition.tokens_injective pieces

/-- A table is known by the text that creates it. -/
theorem TableDefinition.sql_injective {d d' : TableDefinition}
    (same : (Definition.createTable d).sql = (Definition.createTable d').sql) : d = d' := by
  have read := lexes_createTable d
  rw [same] at read
  have tokens : d.tokens = d'.tokens := read.unique (lexes_createTable d')
  obtain ⟨name, columns⟩ := d
  obtain ⟨name', columns'⟩ := d'
  simp only [TableDefinition.tokens, enclosedTokens, List.cons_append, List.cons.injEq, true_and,
    Token.name.injEq, List.append_left_inj] at tokens
  obtain ⟨rfl, listed⟩ := tokens
  rw [intercalate_tokens_injective listed]

end Sql

namespace Entity

open Sql

/-- Columns that a table declares alike. Only of a column that is no key it matters whether its values may be absent or
shared and what they refer to. -/
structure DeclaredAlike (c d : Column) : Prop where
  name : c.name = d.name
  storage : c.kind.storage = d.kind.storage
  isKey : c.isKey = d.isKey
  constraints : c.isKey = false → c.unique = d.unique ∧ c.nullable = d.nullable ∧ c.references = d.references

theorem columnDefinition_eq_iff {e f : Entity} {c d : Column} : e.columnDefinition c = f.columnDefinition d ↔
    DeclaredAlike c d ∧ (c.isKey = true → e.autoincrement = f.autoincrement) := by
  rw [columnDefinition, columnDefinition]
  cases key : c.isKey with
  | false =>
    cases key' : d.isKey with
    | false =>
      simp only [Bool.false_eq_true, if_false, ColumnDefinition.mk.injEq, Bool.not_inj_iff, true_and]
      constructor
      · rintro ⟨name, storage, unique, nullable, references⟩
        exact ⟨⟨name, storage, key.trans key'.symm, fun _ => ⟨unique, nullable, references⟩⟩,
          fun flagged => flagged.elim⟩
      · rintro ⟨alike, _⟩
        obtain ⟨unique, nullable, references⟩ := alike.constraints key
        exact ⟨alike.name, alike.storage, unique, nullable, references⟩
    | true =>
      refine iff_of_false (by simp) ?_
      rintro ⟨alike, _⟩
      exact absurd alike.isKey (by simp [key, key'])
  | true =>
    cases key' : d.isKey with
    | false =>
      refine iff_of_false (by simp) ?_
      rintro ⟨alike, _⟩
      exact absurd alike.isKey (by simp [key, key'])
    | true =>
      simp only [if_true, ColumnDefinition.mk.injEq, and_true, true_and, forall_const]
      constructor
      · rintro ⟨name, storage, counted⟩
        exact ⟨⟨name, storage, key.trans key'.symm, by simp [key]⟩, counted⟩
      · rintro ⟨alike, counted⟩
        exact ⟨alike.name, alike.storage, counted⟩

/-- Tables are declared alike when they have the same name and leave the keys to storage alike, and their columns are
declared alike one by one. -/
theorem Valid.tableDefinition_eq_iff {e f : Entity} (valid : e.Valid) : e.tableDefinition = f.tableDefinition ↔
    e.tableName = f.tableName ∧ e.autoincrement = f.autoincrement ∧
      List.Forall₂ DeclaredAlike e.columns f.columns := by
  have columns : e.columns.map e.columnDefinition = f.columns.map f.columnDefinition ↔
      List.Forall₂ (fun c d => DeclaredAlike c d ∧ (c.isKey = true → e.autoincrement = f.autoincrement))
        e.columns f.columns := by
    rw [← List.forall₂_eq_eq_eq, List.forall₂_map_left_iff, List.forall₂_map_right_iff]
    simp only [columnDefinition_eq_iff]
  rw [tableDefinition, tableDefinition, TableDefinition.mk.injEq, columns]
  constructor
  · rintro ⟨name, alike⟩
    -- The flag is read off the one column that is a key.
    obtain ⟨k, single, _⟩ := valid.key
    obtain ⟨known, isKey⟩ := List.mem_filter.mp (show k ∈ e.columns.filter (·.isKey) by simp [single])
    have member : e.columnDefinition k ∈ f.columns.map f.columnDefinition := by
      rw [← columns.mpr alike]
      exact List.mem_map_of_mem known
    obtain ⟨d, _, same⟩ := List.mem_map.mp member
    exact ⟨name, (columnDefinition_eq_iff.mp same.symm).2 isKey, alike.imp fun _ _ both => both.1⟩
  · rintro ⟨name, counted, alike⟩
    exact ⟨name, alike.imp fun _ _ declared => ⟨declared, fun _ => counted⟩⟩

theorem creation_text_eq_ok {e : Entity} {text : String} : Definition.sql <$> e.creation = .ok text ↔
    e.Valid ∧ text = (Definition.createTable e.tableDefinition).sql := by
  rw [Checks.map_eq_ok]
  simp only [creation_eq_ok, violations_eq_nil]
  constructor
  · rintro ⟨_, ⟨valid, rfl⟩, rfl⟩
    exact ⟨valid, rfl⟩
  · rintro ⟨valid, rfl⟩
    exact ⟨_, ⟨valid, rfl⟩, rfl⟩

/-- There is a text that creates the table of an entity exactly when the entity is valid. The texts of two valid
entities are the same exactly when their tables have one name, leave the keys to storage alike and have columns that
are declared alike, in the same order. -/
theorem creation_text (e f : Entity) :
    ((∃ text, Definition.sql <$> e.creation = .ok text) ↔ e.Valid) ∧
    (e.Valid → f.Valid → ∃ text text', Definition.sql <$> e.creation = .ok text ∧
      Definition.sql <$> f.creation = .ok text' ∧
      (text = text' ↔ e.tableName = f.tableName ∧ e.autoincrement = f.autoincrement ∧
        List.Forall₂ DeclaredAlike e.columns f.columns)) := by
  constructor
  · constructor
    · rintro ⟨text, made⟩
      exact (creation_text_eq_ok.mp made).1
    · intro valid
      exact ⟨_, creation_text_eq_ok.mpr ⟨valid, rfl⟩⟩
  · intro valid valid'
    have made := creation_text_eq_ok.mpr ⟨valid, rfl⟩
    have made' := creation_text_eq_ok.mpr ⟨valid', rfl⟩
    refine ⟨_, _, made, made', ?_⟩
    rw [← valid.tableDefinition_eq_iff]
    constructor
    · exact TableDefinition.sql_injective
    · intro same
      rw [same]

/-- Neither the name of an entity nor an index is seen in the text, nor that a key is unique, nor that a number is a
point in time; that a value may be absent is seen. -/
theorem creation_text_alike :
    let e : Entity := ⟨"A", some "t", false, [⟨"id", .integer, false, true, true, false, none⟩,
      ⟨"a", .integer, false, false, false, true, some "t"⟩]⟩
    let f : Entity := ⟨"t", none, false, [⟨"id", .timestamp, false, true, false, true, some "u"⟩,
      ⟨"a", .timestamp, false, false, false, false, some "t"⟩]⟩
    let g : Entity := ⟨"t", none, false, [⟨"id", .integer, false, true, false, false, none⟩,
      ⟨"a", .integer, true, false, false, false, some "t"⟩]⟩
    (e.Valid ∧ f.Valid ∧ g.Valid) ∧ Definition.sql <$> e.creation = Definition.sql <$> f.creation ∧
      Definition.sql <$> e.creation ≠ Definition.sql <$> g.creation := by
  intro e f g
  have first : e.Valid := violations_eq_nil.mp (by decide)
  have second : f.Valid := violations_eq_nil.mp (by decide)
  have third : g.Valid := violations_eq_nil.mp (by decide)
  refine ⟨⟨first, second, third⟩, ?_, ?_⟩
  · obtain ⟨text, text', made, made', same⟩ := (creation_text e f).2 first second
    have key : DeclaredAlike e.columns[0] f.columns[0] := ⟨rfl, rfl, rfl, nofun⟩
    have other : DeclaredAlike e.columns[1] f.columns[1] := ⟨rfl, rfl, rfl, fun _ => ⟨rfl, rfl, rfl⟩⟩
    rw [made, made', same.mpr ⟨rfl, rfl, .cons key (.cons other .nil)⟩]
  · obtain ⟨text, text', made, made', same⟩ := (creation_text e g).2 first third
    rw [made, made']
    intro equal
    obtain ⟨_, _, alike⟩ := same.mp (Except.ok.inj equal)
    cases alike with
    | cons _ others =>
      cases others with
      | cons last _ => exact absurd (last.constraints rfl).2.1 (by decide)

end Entity

end Tabular
