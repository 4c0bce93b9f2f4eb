import Tabular.Proofs.SettledDefinitions

/-!
# Names of indexes

The name of an index is put together from the names of its column and its table, both of which may hold the words
between them. So indexes of different tables share a name when one name can be split in two places
(`indexName_eq_iff`), and a database then creates only the first of them (`index_names`).
-/

namespace Tabular

open Sql Text

/-- A column and its table whose index is named like that of a longer column and its table: the longer column goes on
after the shorter one with what stands in front of the table. -/
inductive Straddles (c t k u : String) : Prop
  | whole (more : String) (column : k = c ++ "_on_" ++ more) (table : t = more ++ "_on_" ++ u)
  | shared (column : k = c ++ "_on") (table : t = "on_" ++ u)

/-- Where a separator is met again behind some characters, these are none, or the separator and more, or all of it
but the last character, which both places share. -/
private theorem append_separator_iff {as ts us : List Char} :
    "_on_".toList ++ ts = as ++ ("_on_".toList ++ us) ↔ as = [] ∧ ts = us ∨
      (∃ more, as = "_on_".toList ++ more ∧ ts = more ++ ("_on_".toList ++ us)) ∨
      as = "_on".toList ∧ ts = "on_".toList ++ us := by
  match as with
  | [] => simp
  | [a] => simp
  | [a, b] => simp
  | [a, b, d] =>
    constructor
    · intro same
      simp only [String.reduceToList, List.cons_append, List.nil_append, List.cons.injEq] at same
      obtain ⟨rfl, rfl, rfl, _, rest⟩ := same
      exact .inr (.inr ⟨rfl, rest⟩)
    · rintro (⟨none, _⟩ | ⟨more, long, _⟩ | ⟨same, rfl⟩)
      · cases none
      · simp at long
      · rw [same]
        rfl
  | a :: b :: d :: f :: more =>
    constructor
    · intro same
      simp only [String.reduceToList, List.cons_append, List.nil_append, List.cons.injEq] at same
      obtain ⟨rfl, rfl, rfl, rfl, rest⟩ := same
      exact .inr (.inl ⟨more, rfl, rest⟩)
    · rintro (⟨none, _⟩ | ⟨more', same, rfl⟩ | ⟨short, _⟩)
      · cases none
      · rw [same, List.append_assoc]
      · simp at short

private theorem straddles_iff {c t k u : String} : Straddles c t k u ↔ ∃ as, k.toList = c.toList ++ as ∧ as ≠ [] ∧
    "_on_".toList ++ t.toList = as ++ ("_on_".toList ++ u.toList) := by
  constructor
  · rintro (⟨more, rfl, rfl⟩ | ⟨rfl, rfl⟩)
    · exact ⟨"_on_".toList ++ more.toList, by simp, by simp, by simp⟩
    · exact ⟨"_on".toList, by simp, by simp, by simp⟩
  · rintro ⟨as, column, some, same⟩
    rcases append_separator_iff.mp same with ⟨none, _⟩ | ⟨more, rfl, table⟩ | ⟨rfl, table⟩
    · exact absurd none some
    · refine .whole (String.ofList more) ?_ ?_
      · rw [← String.toList_inj, column]
        simp
      · rw [← String.toList_inj, table]
        simp
    · refine .shared ?_ ?_
      · rw [← String.toList_inj, column]
        simp
      · rw [← String.toList_inj, table]
        simp

theorem Straddles.ne {c t k u : String} (straddles : Straddles c t k u) : c ≠ k := by
  obtain ⟨as, longer, some, _⟩ := straddles_iff.mp straddles
  rintro rfl
  exact some (by simpa using longer)

namespace Entity

variable {d e : Entity} {c k : Column}

/-- Two indexes have one name when their columns and tables have, or when the name can be split in two places. -/
theorem indexName_eq_iff : d.indexName c = e.indexName k ↔ c.name = k.name ∧ d.tableName = e.tableName ∨
    Straddles c.name d.tableName k.name e.tableName ∨ Straddles k.name e.tableName c.name d.tableName := by
  rw [straddles_iff, straddles_iff, indexName, indexName, ← String.toList_inj]
  simp only [String.toList_append, List.append_assoc, List.append_cancel_left_eq]
  rw [List.append_eq_append_iff]
  constructor
  · rintro (⟨as, longer, same⟩ | ⟨as, longer, same⟩)
    · by_cases none : as = []
      · subst none
        exact .inl ⟨by simpa [String.toList_inj, eq_comm] using longer, by simpa [String.toList_inj] using same⟩
      · exact .inr (.inl ⟨as, longer, none, same⟩)
    · by_cases none : as = []
      · subst none
        exact .inl ⟨by simpa [String.toList_inj] using longer, by simpa [String.toList_inj, eq_comm] using same⟩
      · exact .inr (.inr ⟨as, longer, none, same⟩)
  · rintro (⟨column, table⟩ | ⟨as, longer, _, same⟩ | ⟨as, longer, _, same⟩)
    · exact .inl ⟨[], by simp [column], by simp [table]⟩
    · exact .inl ⟨as, longer, same⟩
    · exact .inr ⟨as, longer, same⟩

end Entity

namespace Schema

variable {s : Schema} {es : List Entity}

/-- The columns that ask for an index, each with its entity. -/
def indexedColumns (s : Schema) : List (Entity × Column) :=
  s.entities.flatMap fun e => (e.columns.filter fun c => c.indexed && !c.isKey).map fun c => (e, c)

def indexDefinitions (s : Schema) : List IndexDefinition :=
  s.entities.flatMap (·.indexDefinitions)

theorem mem_indexedColumns {e : Entity} {c : Column} :
    (e, c) ∈ s.indexedColumns ↔ e ∈ s.entities ∧ c ∈ e.columns ∧ c.indexed = true ∧ c.isKey = false := by
  simp only [indexedColumns, List.mem_flatMap, List.mem_map, List.mem_filter, Bool.and_eq_true, Bool.not_eq_true',
    Prod.mk.injEq]
  constructor
  · rintro ⟨e', known, c', member, rfl, rfl⟩
    exact ⟨known, member⟩
  · rintro ⟨known, member⟩
    exact ⟨e, known, c, member, rfl, rfl⟩

theorem indexNames_eq (s : Schema) :
    s.indexDefinitions.map (·.name) = s.indexedColumns.map fun p => p.1.indexName p.2 := by
  rw [indexDefinitions, indexedColumns, List.map_flatMap, List.map_flatMap]
  refine congrArg (List.flatMap · s.entities) (funext fun e => ?_)
  rw [Entity.indexDefinitions, List.map_map, List.map_map]
  rfl

theorem Consistent.eq_of_names (consistent : s.Consistent) {p q : Entity × Column} (one : p ∈ s.indexedColumns)
    (two : q ∈ s.indexedColumns) (column : p.2.name = q.2.name) (table : p.1.tableName = q.1.tableName) : p = q := by
  obtain ⟨d, c⟩ := p
  obtain ⟨e, k⟩ := q
  obtain ⟨known, member, _⟩ := mem_indexedColumns.mp one
  obtain ⟨known', member', _⟩ := mem_indexedColumns.mp two
  obtain rfl : d = e := List.inj_on_of_nodup_map consistent.tables known known' table
  have distinct := (Entity.violations_eq_nil.mp (consistent.valid d known)).distinct
  obtain rfl : c = k := List.inj_on_of_nodup_map distinct member member' column
  rfl

theorem Consistent.nodup_indexedColumns (consistent : s.Consistent) : s.indexedColumns.Nodup := by
  rw [indexedColumns, List.nodup_flatMap]
  constructor
  · intro e known
    have distinct := (Entity.violations_eq_nil.mp (consistent.valid e known)).distinct
    exact ((distinct.of_map _).filter _).map fun _ _ same => (Prod.mk.inj same).2
  · refine (consistent.names.of_map _).imp fun different p one two => ?_
    obtain ⟨_, _, rfl⟩ := List.mem_map.mp one
    obtain ⟨_, _, same⟩ := List.mem_map.mp two
    exact different (congrArg Prod.fst same).symm

end Schema

/-- The first of some indexes with its name, as far as a database tells names apart. -/
def FirstNamed (is : List IndexDefinition) (i : IndexDefinition) : Prop :=
  ∃ before after, is = before ++ i :: after ∧ ∀ j ∈ before, foldCase j.name ≠ foldCase i.name

theorem firstNamed_cons {i j : IndexDefinition} {is : List IndexDefinition} :
    FirstNamed (j :: is) i ↔ j = i ∨ foldCase j.name ≠ foldCase i.name ∧ FirstNamed is i := by
  constructor
  · rintro ⟨_ | ⟨k, before⟩, after, split, others⟩
    · exact .inl (List.cons.inj split).1
    · obtain ⟨rfl, rest⟩ := List.cons.inj split
      obtain ⟨own, later⟩ := List.forall_mem_cons.mp others
      exact .inr ⟨own, before, after, rest, later⟩
  · rintro (rfl | ⟨own, before, after, rfl, later⟩)
    · exact ⟨[], is, rfl, by simp⟩
    · exact ⟨j :: before, after, rfl, List.forall_mem_cons.mpr ⟨own, later⟩⟩

namespace Database

variable {db db' : Database} {ds : List Definition}

def createdIndexes (ds : List Definition) : List IndexDefinition :=
  ds.filterMap fun
    | .createIndex i => some i
    | _ => none

theorem indexes_createTable {d : TableDefinition} (created : db.createTable d = .ok db') :
    db'.indexes = db.indexes := by
  cases here : db.table? d.name with
  | some t => rw [((createTable_of_taken (by simp [here])).mp created).2]
  | none =>
    obtain ⟨_, _, _, _, rfl⟩ := (createTable_of_free here).mp created
    rfl

/-- One index is created unless an index has its name already. -/
theorem mem_indexes_createIndex {i j : IndexDefinition} (created : db.createIndex j = .ok db') :
    i ∈ db'.indexes ↔ i ∈ db.indexes ∨ i = j ∧ ¬ db.HasIndex j.name := by
  obtain ⟨_, rfl⟩ := (createIndex_iff (isSome_of_createIndex created)).mp created
  have named : db.indexes.any (sameName ·.name j.name) = true ↔ db.HasIndex j.name := by
    simp [HasIndex, List.any_eq_true, sameName_iff]
  by_cases taken : db.HasIndex j.name
  · rw [if_pos (named.mpr taken)]
    simp [taken]
  · rw [if_neg (mt named.mp taken), List.mem_append, List.mem_singleton]
    simp [taken]

/-- Of the indexes that definitions would create, the first ones with names that no index has yet are created. -/
theorem mem_indexes_defineAll (creating : ∀ name, .dropTable name ∉ ds) (defined : db.defineAll ds = .ok db')
    (i : IndexDefinition) : i ∈ db'.indexes ↔
      i ∈ db.indexes ∨ ¬ db.HasIndex i.name ∧ FirstNamed (createdIndexes ds) i := by
  induction ds generalizing db with
  | nil =>
    obtain rfl := Except.ok.inj defined
    simp [createdIndexes, FirstNamed]
  | cons first rest ih =>
    obtain ⟨next, made, later⟩ := Checks.bind_eq_ok.mp defined
    rw [ih (fun name => List.not_mem_of_not_mem_cons (creating name)) later]
    cases first with
    | createTable d =>
      rw [HasIndex, HasIndex, indexes_createTable made]
      rfl
    | createIndex j =>
      have names := hasIndex_createIndex (isSome_of_createIndex made) made i.name
      have split : createdIndexes (.createIndex j :: rest) = j :: createdIndexes rest := rfl
      rw [mem_indexes_createIndex made, names, split, firstNamed_cons]
      constructor
      · rintro ((old | ⟨rfl, free⟩) | ⟨free, first⟩)
        · exact .inl old
        · exact .inr ⟨free, .inl rfl⟩
        · rw [not_or] at free
          exact .inr ⟨free.1, .inr ⟨free.2, first⟩⟩
      · rintro (old | ⟨free, rfl | ⟨apart, first⟩⟩)
        · exact .inl (.inl old)
        · exact .inl (.inr ⟨rfl, free⟩)
        · exact .inr ⟨not_or.mpr ⟨free, apart⟩, first⟩
    | dropTable name => exact absurd List.mem_cons_self (creating name)

end Database

namespace Migration

open Database

variable {m : Migration} {db : Database}

theorem createdIndexes_definitions :
    createdIndexes (.createTable metaDefinition :: m.definitions) = m.schema.indexDefinitions := by
  have entities : ∀ es : List Entity,
      createdIndexes (es.flatMap entityDefinitions) = es.flatMap (·.indexDefinitions) := by
    intro es
    induction es with
    | nil => rfl
    | cons e rest ih =>
      have own : createdIndexes (entityDefinitions e) = e.indexDefinitions := by
        simp [createdIndexes, entityDefinitions, List.filterMap_map]
      rw [List.flatMap_cons, List.flatMap_cons, createdIndexes, List.filterMap_append, ← ih]
      exact congrArg (· ++ _) own
  exact entities m.schema.entities

/-- A migration of an empty database creates of the indexes with one name the first. -/
theorem mem_indexes_up (done : m.up.outcome {} = (.ok (), db)) (i : IndexDefinition) :
    i ∈ db.indexes ↔ FirstNamed m.schema.indexDefinitions i := by
  obtain ⟨_, made, _, defined, inserted⟩ := up_eq_ok.mp done
  obtain ⟨t, t', _, _, replaces, _⟩ := insert_eq_ok inserted
  have kept : db.indexes = made.indexes := by
    rw [replaces.replaced]
    rfl
  rw [kept, mem_indexes_defineAll dropTable_not_mem_definitions defined, createdIndexes_definitions]
  have none : ¬ HasIndex {} i.name := by simp [HasIndex]
  simp [none]

end Migration

namespace Schema

variable {s : Schema} {es : List Entity}

/-- Two columns of a schema that ask for an index get indexes of one name exactly when that name can be split in two
places; so the names are distinct when none can. A migration of an empty database creates of the indexes whose names
are the same but for case the first, and leaves out the others. -/
theorem index_names (made : ofEntities es = .ok s) (fingerprint : String) :
    (∀ p ∈ s.indexedColumns, ∀ q ∈ s.indexedColumns, p.1.indexName p.2 = q.1.indexName q.2 ↔
      p = q ∨ Straddles p.2.name p.1.tableName q.2.name q.1.tableName ∨
        Straddles q.2.name q.1.tableName p.2.name p.1.tableName) ∧
    ((s.indexDefinitions.map (·.name)).Nodup ↔ ∀ p ∈ s.indexedColumns, ∀ q ∈ s.indexedColumns,
      ¬ Straddles p.2.name p.1.tableName q.2.name q.1.tableName) ∧
    ∀ db, (⟨s, fingerprint⟩ : Migration).up.outcome {} = (.ok (), db) →
      ∀ i, i ∈ db.indexes ↔ FirstNamed s.indexDefinitions i := by
  have consistent : s.Consistent := consistent_empty.foldlM made
  have named : ∀ p ∈ s.indexedColumns, ∀ q ∈ s.indexedColumns, p.1.indexName p.2 = q.1.indexName q.2 ↔
      p = q ∨ Straddles p.2.name p.1.tableName q.2.name q.1.tableName ∨
        Straddles q.2.name q.1.tableName p.2.name p.1.tableName := by
    intro p one q two
    rw [Entity.indexName_eq_iff]
    refine or_congr_left ⟨fun ⟨column, table⟩ => consistent.eq_of_names one two column table, ?_⟩
    rintro rfl
    exact ⟨rfl, rfl⟩
  refine ⟨named, ?_, fun db done => Migration.mem_indexes_up done⟩
  rw [indexNames_eq, List.nodup_map_iff_inj_on consistent.nodup_indexedColumns]
  constructor
  · intro apart p one q two straddles
    obtain rfl := apart p one q two ((named p one q two).mpr (.inr (.inl straddles)))
    exact straddles.ne rfl
  · intro apart p one q two same
    rcases (named p one q two).mp same with rfl | straddles | straddles
    · rfl
    · exact absurd straddles (apart p one q two)
    · exact absurd straddles (apart q two p one)

/-- Columns and tables that are named like the words between them, none of which can be taken for another. -/
theorem index_names_on :
    let log : Entity := ⟨"Log", some "logs", false, [⟨"id", .integer, false, true, false, false, none⟩,
      ⟨"turned_on", .timestamp, true, false, false, true, none⟩, ⟨"on", .text, true, false, false, true, none⟩]⟩
    let note : Entity := ⟨"Note", some "notes_on", true, [⟨"id", .integer, false, true, false, true, none⟩,
      ⟨"on", .text, true, false, false, true, none⟩]⟩
    let s : Schema := ⟨[log, note], [("Note", 1), ("Log", 0)]⟩
    ofEntities [log, note] = .ok s ∧
      (∀ p ∈ s.indexedColumns, ∀ q ∈ s.indexedColumns,
        ¬ Straddles p.2.name p.1.tableName q.2.name q.1.tableName) ∧
      ∃ db, (⟨s, ""⟩ : Migration).up.outcome {} = (.ok (), db) ∧
        ⟨"index_on_on_notes_on", "notes_on", "on"⟩ ∈ db.indexes := by
  intro log note s
  have made : ofEntities [log, note] = .ok s := by decide +kernel
  have done : ((⟨s, ""⟩ : Migration).up.outcome {}).1 = .ok () := by decide +kernel
  obtain ⟨_, distinct, created⟩ := index_names made ""
  refine ⟨made, distinct.mp (by decide +kernel), _, Prod.ext done rfl, (created _ (Prod.ext done rfl) _).mpr ?_⟩
  exact ⟨[⟨"index_turned_on_on_logs", "logs", "turned_on"⟩, ⟨"index_on_on_logs", "logs", "on"⟩], [], by decide +kernel,
    by decide +kernel⟩

/-- Two columns of two tables, of which only the first gets its index. -/
theorem index_names_shared :
    let tag : Entity := ⟨"Tag", some "c", false, [⟨"id", .integer, false, true, false, false, none⟩,
      ⟨"a_on_b", .text, false, false, false, true, none⟩]⟩
    let note : Entity := ⟨"Note", some "b_on_c", false, [⟨"id", .integer, false, true, false, false, none⟩,
      ⟨"a", .text, false, false, false, true, none⟩]⟩
    let s : Schema := ⟨[tag, note], [("Note", 1), ("Tag", 0)]⟩
    ofEntities [tag, note] = .ok s ∧ ¬ (s.indexDefinitions.map (·.name)).Nodup ∧
      ((⟨s, ""⟩ : Migration).up.outcome {}).1 = .ok () ∧
      ((⟨s, ""⟩ : Migration).up.outcome {}).2.indexes = [⟨"index_a_on_b_on_c", "c", "a_on_b"⟩] := by
  decide +kernel

end Schema

end Tabular
