import Tabular.Proofs.Lifecycle
import Tabular.Proofs.MigratedTables
import Mathlib.Data.List.Induction

/-!
# Migrations of an empty database

A schema that is accepted names its tables and columns as it likes, while a database knows reserved names, ignores the
case of names and keeps tables and indexes apart. When its tables have names of their own for the database, a catalog
can be migrated on an empty one exactly when it is `Creatable`, and then every entity has its table without rows
(`up_of_empty`).
-/

namespace Tabular

open Sql Text

namespace Database

variable {db db' : Database} {i : IndexDefinition} {is : List IndexDefinition} {ds more : List Definition}

theorem defineAll_append : db.defineAll (ds ++ more) = db.defineAll ds >>= (·.defineAll more) :=
  List.foldlM_append

def HasIndex (db : Database) (name : String) : Prop :=
  ∃ i ∈ db.indexes, foldCase i.name = foldCase name

theorem createIndex_iff (known : (db.table? i.table).isSome = true) :
    db.createIndex i = .ok db' ↔ db.table? i.name = none ∧
      db' = if db.indexes.any (sameName ·.name i.name) then db else { db with indexes := db.indexes ++ [i] } := by
  obtain ⟨t, found⟩ := Option.isSome_iff_exists.mp known
  rw [createIndex, require_eq_ok.mpr found]
  show (if (db.table? i.name).isSome = true then _ else _) = _ ↔ _
  by_cases table : (db.table? i.name).isSome = true
  · rw [if_pos table]
    refine iff_of_false (by simp [throw, throwThe, MonadExceptOf.throw]) ?_
    rintro ⟨unnamed, _⟩
    simp [unnamed] at table
  · rw [if_neg table]
    have unnamed := Option.not_isSome_iff_eq_none.mp table
    by_cases taken : db.indexes.any (sameName ·.name i.name) = true
    · simp [taken, unnamed, pure, Except.pure, eq_comm]
    · simp [taken, unnamed, pure, Except.pure, eq_comm]

theorem hasIndex_createIndex (known : (db.table? i.table).isSome = true) (created : db.createIndex i = .ok db')
    (name : String) : db'.HasIndex name ↔ db.HasIndex name ∨ foldCase i.name = foldCase name := by
  obtain ⟨_, rfl⟩ := (createIndex_iff known).mp created
  by_cases taken : db.indexes.any (sameName ·.name i.name) = true
  · rw [if_pos taken]
    obtain ⟨other, member, same⟩ := List.any_eq_true.mp taken
    refine ⟨.inl, fun named => named.elim id fun here => ⟨other, member, ?_⟩⟩
    rw [sameName_iff.mp same, here]
  · rw [if_neg taken]
    simp only [HasIndex, List.mem_append, List.mem_singleton, or_and_right, exists_or, exists_eq_left]

/-- Indexes on tables that exist are created unless a table has the name of one. -/
theorem defineAll_createIndex (known : ∀ i ∈ is, (db.table? i.table).isSome = true)
    (defined : db.defineAll (is.map .createIndex) = .ok db') :
    db'.tables = db.tables ∧ (∀ i ∈ is, db.table? i.name = none) ∧
      ∀ name, db'.HasIndex name ↔ db.HasIndex name ∨ ∃ i ∈ is, foldCase i.name = foldCase name := by
  induction is generalizing db with
  | nil =>
    obtain rfl := Except.ok.inj defined
    simp
  | cons i rest ih =>
    obtain ⟨next, first, later⟩ := Checks.bind_eq_ok.mp defined
    obtain ⟨own, others⟩ := List.forall_mem_cons.mp known
    have same := table?_createIndex first
    obtain ⟨tables, unnamed, indexes⟩ := ih (by simpa only [same] using others) later
    refine ⟨tables.trans (createIndex_eq_ok first), ?_, fun name => ?_⟩
    · simp only [same] at unnamed
      exact List.forall_mem_cons.mpr ⟨((createIndex_iff own).mp first).1, unnamed⟩
    · rw [indexes, hasIndex_createIndex own first, List.exists_mem_cons_iff, or_assoc]

theorem exists_defineAll_createIndex (known : ∀ i ∈ is, (db.table? i.table).isSome = true)
    (unnamed : ∀ i ∈ is, db.table? i.name = none) : ∃ db', db.defineAll (is.map .createIndex) = .ok db' := by
  induction is generalizing db with
  | nil => exact ⟨db, rfl⟩
  | cons i rest ih =>
    obtain ⟨own, others⟩ := List.forall_mem_cons.mp known
    obtain ⟨free, unnamed'⟩ := List.forall_mem_cons.mp unnamed
    obtain ⟨next, first⟩ : ∃ next, db.createIndex i = .ok next := ⟨_, (createIndex_iff own).mpr ⟨free, rfl⟩⟩
    have same := table?_createIndex first
    obtain ⟨after, later⟩ : ∃ after, next.defineAll (rest.map .createIndex) = .ok after :=
      ih (by simpa only [same] using others) (by simpa only [same] using unnamed')
    exact ⟨after, Checks.bind_eq_ok.mpr ⟨next, first, later⟩⟩

end Database

namespace Migration

open Database

variable {m : Migration} {db db' : Database} {e : Entity} {es : List Entity}

/-- No two tables have the same name for a database, the one that remembers the fingerprint included. -/
def TablesApart (es : List Entity) : Prop :=
  ((metaName :: es.map (·.tableName)).map foldCase).Nodup

/-- Entities whose tables and indexes a database accepts. -/
structure Creatable (es : List Entity) : Prop where
  unreserved : ∀ e ∈ es, isReserved e.tableName = false
  columns : ∀ e ∈ es, (e.columns.map fun c => foldCase c.name).Nodup
  width : ∀ e ∈ es, e.columns.length ≤ maxColumns
  indexes : ∀ d ∈ es, ∀ i ∈ d.indexDefinitions, ∀ e ∈ es, foldCase i.name ≠ foldCase e.tableName

/-- An entity whose table and indexes a database accepts after those of other entities. -/
structure Joins (es : List Entity) (e : Entity) : Prop where
  unreserved : isReserved e.tableName = false
  columns : (e.columns.map fun c => foldCase c.name).Nodup
  width : e.columns.length ≤ maxColumns
  unnamed : ∀ d ∈ es, ∀ i ∈ d.indexDefinitions, foldCase i.name ≠ foldCase e.tableName
  indexes : ∀ i ∈ e.indexDefinitions, ∀ d ∈ es ++ [e], foldCase i.name ≠ foldCase d.tableName

theorem creatable_concat : Creatable (es ++ [e]) ↔ Creatable es ∧ Joins es e := by
  constructor
  · intro creatable
    have old : ∀ d ∈ es, d ∈ es ++ [e] := fun d => List.mem_append_left [e]
    have new : e ∈ es ++ [e] := by simp
    exact ⟨⟨fun d known => creatable.unreserved d (old d known), fun d known => creatable.columns d (old d known),
        fun d known => creatable.width d (old d known),
        fun d known i index other known' => creatable.indexes d (old d known) i index other (old other known')⟩,
      ⟨creatable.unreserved e new, creatable.columns e new, creatable.width e new,
        fun d known i index => creatable.indexes d (old d known) i index e new, creatable.indexes e new⟩⟩
  · rintro ⟨creatable, joins⟩
    have each : ∀ {p : Entity → Prop}, (∀ d ∈ es, p d) → p e → ∀ d ∈ es ++ [e], p d := by
      intro p old new
      simpa [or_imp, forall_and] using ⟨old, new⟩
    exact ⟨each creatable.unreserved joins.unreserved, each creatable.columns joins.columns,
      each creatable.width joins.width,
      each (fun d known i index => each (creatable.indexes d known i index) (joins.unnamed d known i index))
        joins.indexes⟩

/-- An index is not named like the table that remembers the fingerprint. -/
theorem foldCase_index_ne_meta {i : IndexDefinition} (index : i ∈ e.indexDefinitions) :
    foldCase i.name ≠ foldCase metaName := by
  obtain ⟨c, _, rfl⟩ := List.mem_map.mp index
  intro same
  have first := congrArg List.head? same
  simp [foldCase, Entity.indexName, metaName] at first

/-! ## What the definitions of entities make of an empty database -/

/-- The tables of entities and the one that remembers the fingerprint, without rows. -/
def emptyTables (es : List Entity) : List Table :=
  (metaDefinition :: es.map (·.tableDefinition)).map fun d => { definition := d }

theorem emptyTables_concat (tables : db.tables = emptyTables es) (e : Entity) :
    (db.addTable e.tableDefinition).tables = emptyTables (es ++ [e]) := by
  simp [addTable, emptyTables, tables]

theorem table?_eq_none (tables : db.tables = emptyTables es) {name : String} : db.table? name = none ↔
    foldCase name ≠ foldCase metaName ∧ ∀ e ∈ es, foldCase name ≠ foldCase e.tableName := by
  rw [Database.table?_eq_none, tables, emptyTables, List.forall_mem_map, List.forall_mem_cons, List.forall_mem_map]
  simp only [ne_eq, eq_comm (b := foldCase name)]
  rfl

/-- A database in which the tables and indexes of some entities were created, and nothing else. -/
structure Made (es : List Entity) (db : Database) : Prop where
  tables : db.tables = emptyTables es
  indexes : ∀ name, db.HasIndex name ↔ ∃ e ∈ es, ∃ i ∈ e.indexDefinitions, foldCase i.name = foldCase name

theorem Made.createTable_iff (made : Made es db) (fresh : db.table? e.tableName = none) :
    db.createTable e.tableDefinition = .ok db' ↔ isReserved e.tableName = false ∧
      (∀ d ∈ es, ∀ i ∈ d.indexDefinitions, foldCase i.name ≠ foldCase e.tableName) ∧
      (e.columns.map fun c => foldCase c.name).Nodup ∧ e.columns.length ≤ maxColumns ∧
      db' = db.addTable e.tableDefinition := by
  have names : (e.tableDefinition.columns.map fun c => foldCase c.name) = e.columns.map fun c => foldCase c.name := by
    simp [Entity.tableDefinition]
  have width : e.tableDefinition.columns.length = e.columns.length := List.length_map _
  have unnamed := (made.indexes e.tableName).not
  simp only [HasIndex, not_exists, not_and] at unnamed
  have free : db.table? e.tableDefinition.name = none := fresh
  rw [createTable_of_free free, names, width]
  exact and_congr_right fun _ => and_congr_left fun _ => unnamed

theorem isSome_table?_index (tables : db.tables = emptyTables (es ++ [e])) :
    ∀ i ∈ e.indexDefinitions, (db.table? i.table).isSome = true := by
  intro i index
  obtain ⟨c, _, rfl⟩ := List.mem_map.mp index
  rw [Option.isSome_iff_ne_none]
  intro none
  exact ((table?_eq_none tables).mp none).2 e (by simp) rfl

theorem indexes_unnamed_iff (tables : db.tables = emptyTables es) :
    (∀ i ∈ e.indexDefinitions, db.table? i.name = none) ↔
      ∀ i ∈ e.indexDefinitions, ∀ d ∈ es, foldCase i.name ≠ foldCase d.tableName := by
  refine forall₂_congr fun i index => ?_
  rw [table?_eq_none tables, and_iff_right (foldCase_index_ne_meta index)]

/-- The definitions of one more entity are carried out only when it may join the others. -/
theorem Made.define (made : Made es db) (fresh : db.table? e.tableName = none)
    (defined : db.defineAll (entityDefinitions e) = .ok db') : Joins es e ∧ Made (es ++ [e]) db' := by
  obtain ⟨between, created, indexed⟩ := Checks.bind_eq_ok.mp defined
  obtain ⟨unreserved, unnamed, columns, width, rfl⟩ := (made.createTable_iff fresh).mp created
  have tables := emptyTables_concat made.tables e
  obtain ⟨kept, apart, names⟩ := defineAll_createIndex (isSome_table?_index tables) indexed
  refine ⟨⟨unreserved, columns, width, unnamed, (indexes_unnamed_iff tables).mp apart⟩, kept.trans tables, ?_⟩
  intro name
  have before : (db.addTable e.tableDefinition).HasIndex name ↔ _ := made.indexes name
  rw [names, before]
  simp only [List.mem_append, List.mem_singleton, or_and_right, exists_or, exists_eq_left]

theorem Made.exists_define (made : Made es db) (fresh : db.table? e.tableName = none) (joins : Joins es e) :
    ∃ db', db.defineAll (entityDefinitions e) = .ok db' := by
  have created := (made.createTable_iff fresh).mpr ⟨joins.unreserved, joins.unnamed, joins.columns, joins.width, rfl⟩
  have tables := emptyTables_concat made.tables e
  obtain ⟨after, indexed⟩ := exists_defineAll_createIndex (isSome_table?_index tables)
    ((indexes_unnamed_iff tables).mpr joins.indexes)
  exact ⟨after, Checks.bind_eq_ok.mpr ⟨_, created, indexed⟩⟩

theorem TablesApart.concat (apart : TablesApart (es ++ [e])) : TablesApart es ∧
    foldCase e.tableName ≠ foldCase metaName ∧ ∀ d ∈ es, foldCase e.tableName ≠ foldCase d.tableName := by
  rw [TablesApart, List.map_append, ← List.cons_append, List.map_append, List.nodup_append] at apart
  obtain ⟨before, _, other⟩ := apart
  have fresh : ∀ name ∈ (metaName :: es.map (·.tableName)).map foldCase, foldCase e.tableName ≠ name :=
    fun name known same => other name known _ (by simp) same.symm
  rw [List.forall_mem_map, List.forall_mem_cons, List.forall_mem_map] at fresh
  exact ⟨before, fresh⟩

/-- The definitions of entities with tables of their own are carried out on an empty database exactly when it accepts
their tables and indexes. -/
theorem defineAll_empty (apart : TablesApart es) :
    (∀ db, Database.defineAll {} (.createTable metaDefinition :: es.flatMap entityDefinitions) = .ok db →
      Creatable es ∧ Made es db) ∧
    (Creatable es → ∃ db,
      Database.defineAll {} (.createTable metaDefinition :: es.flatMap entityDefinitions) = .ok db) := by
  -- Induction from the right: each entity joins those before it, and its table finds its name free.
  induction es using List.reverseRecOn with
  | nil =>
    constructor
    · intro db defined
      obtain rfl := Except.ok.inj defined
      exact ⟨⟨by simp, by simp, by simp, by simp⟩, rfl, by simp [HasIndex, addTable]⟩
    · exact fun _ => ⟨_, rfl⟩
  | append_singleton es e ih =>
    obtain ⟨before, own, others⟩ := apart.concat
    obtain ⟨only, enough⟩ := ih before
    rw [List.flatMap_append, List.flatMap_singleton, ← List.cons_append, defineAll_append]
    constructor
    · intro db defined
      obtain ⟨between, first, last⟩ := Checks.bind_eq_ok.mp defined
      obtain ⟨creatable, made⟩ := only between first
      obtain ⟨joins, made'⟩ := made.define ((table?_eq_none made.tables).mpr ⟨own, others⟩) last
      exact ⟨creatable_concat.mpr ⟨creatable, joins⟩, made'⟩
    · intro all
      obtain ⟨creatable, joins⟩ := creatable_concat.mp all
      obtain ⟨between, first⟩ := enough creatable
      have made := (only between first).2
      obtain ⟨db, last⟩ := made.exists_define ((table?_eq_none made.tables).mpr ⟨own, others⟩) joins
      exact ⟨db, Checks.bind_eq_ok.mpr ⟨between, first, last⟩⟩

/-! ## The fingerprint of a database without other rows -/

theorem exists_insertRow {t : Table} {r : Record} (whole : t.missing? r = none) :
    ∃ done t', insertRow t .replace r = .ok (done, t') := by
  have missing : (noteId t r.id).missing? r = none := by rw [noteId_eq]; exact whole
  rw [insertRow, missing]
  dsimp only
  cases (noteId t r.id).shared? r (noteId t r.id).rows with
  | none => exact ⟨_, _, rfl⟩
  | some column => exact ⟨_, _, rfl⟩

/-- The table that remembers the fingerprint refers to nothing. -/
theorem rowLeads_meta {t : Table} (own : t.definition = metaDefinition) (r : Record) : db.rowLeads t r = true := by
  have nothing : ∀ c ∈ metaDefinition.columns, c.references = none := by decide
  unfold rowLeads
  rw [List.all_eq_true]
  rintro ⟨c, v⟩ member
  have column : c ∈ metaDefinition.columns := by
    rw [← own]
    exact (List.of_mem_zip member).1
  simp [nothing c column]

theorem neverReuses_eq_false {t : Table} (own : t.definition = metaDefinition) : t.neverReuses = false := by
  rw [Table.neverReuses, Table.columns, own]
  rfl

theorem newId_eq_nextId {t : Table} (own : t.definition = metaDefinition) (key value : String) :
    newId t [(.column 0 .text, .text key), (.column 1 .text, .text value)] = t.nextId := by
  simp [newId, isId, idIndex?_eq_none own]

/-- Nothing keeps a fingerprint from being remembered but references that would lead nowhere then. -/
theorem exists_insert_of_consistent {t : Table} (found : db.table? metaName = some t)
    (own : t.definition = metaDefinition) {value : String}
    (consistent : ∀ n done t', t.nextId = .ok n →
      insertRow t .replace ⟨n, [.text fingerprintKey, .text value]⟩ = .ok (done, t') →
        (db.setTable t').isConsistent = true) :
    ∃ done db', db.insert .replace metaName [("key", .text fingerprintKey), ("value", .text value)] =
      .ok (done, db') := by
  have parents : db.requireParents t.columns = .ok () := by
    rw [requireParents, Table.columns, own]
    rfl
  obtain ⟨n, chosen⟩ : ∃ n, t.nextId = .ok n := by
    rw [Table.nextId, neverReuses_eq_false own]
    exact ⟨_, rfl⟩
  have whole : t.missing? ⟨n, [.text fingerprintKey, .text value]⟩ = none := by
    rw [Table.missing?, Table.columns, own]
    rfl
  obtain ⟨done, t', placed⟩ := exists_insertRow whole
  have accepted := consistent n done t' chosen placed
  rw [← newId_eq_nextId own fingerprintKey value] at chosen
  rw [← withId_newCells own] at placed
  refine ⟨done, db.setTable t', ?_⟩
  have few : 2 ≤ maxParameters := by decide
  apply Checks.bind_eq_ok.mpr ⟨(), requireParameters_eq_ok.mpr few, ?_⟩
  apply Checks.bind_eq_ok.mpr ⟨t, require_eq_ok.mpr found, ?_⟩
  apply Checks.bind_eq_ok.mpr ⟨[(.column 0 .text, .text fingerprintKey), (.column 1 .text, .text value)], ?_, ?_⟩
  · simp only [List.mapM_cons, requireTarget_eq_ok.mpr (target?_key own), requireTarget_eq_ok.mpr (target?_value own)]
    rfl
  apply Checks.bind_eq_ok.mpr ⟨(), parents, ?_⟩
  apply Checks.bind_eq_ok.mpr ⟨n, chosen, ?_⟩
  apply Checks.bind_eq_ok.mpr ⟨(done, t'), placed, ?_⟩
  exact Checks.bind_eq_ok.mpr ⟨_, requireConsistent_eq_ok.mpr ⟨accepted, rfl⟩, rfl⟩

/-- When no other table has rows, a fingerprint can be remembered. -/
theorem exists_insert {t : Table} (found : db.table? metaName = some t) (own : t.definition = metaDefinition)
    (others : ∀ u ∈ db.tables, u.definition = metaDefinition ∨ u.rows = []) (value : String) :
    ∃ done db', db.insert .replace metaName [("key", .text fingerprintKey), ("value", .text value)] =
      .ok (done, db') := by
  refine exists_insert_of_consistent found own fun n done t' _ placed => ?_
  have own' : t'.definition = metaDefinition := by
    rcases insertRow_eq_ok placed with ⟨ignored, _⟩ | ⟨_, _, _, _, _, _, rfl⟩
    · cases ignored
    · rw [noteId_eq, own]
  unfold isConsistent
  refine List.all_eq_true.mpr fun u member => List.all_eq_true.mpr fun r row => ?_
  rcases mem_setTable member with rfl | old
  · exact rowLeads_meta own' r
  · rcases others u old with own | empty
    · exact rowLeads_meta own r
    · rw [empty] at row
      cases row

theorem Made.table?_meta (made : Made es db) : db.table? metaName = some { definition := metaDefinition } := by
  rw [Database.table?, made.tables, emptyTables, List.map_cons, List.find?_cons_of_pos (by exact sameName_self _)]

theorem Made.rows_eq_nil (made : Made es db) : ∀ u ∈ db.tables, u.rows = [] := by
  intro u member
  rw [made.tables] at member
  obtain ⟨d, _, rfl⟩ := List.mem_map.mp member
  rfl

/-! ## Migration and status -/

theorem TablesApart.ne_meta (apart : TablesApart es) (known : e ∈ es) : foldCase e.tableName ≠ foldCase metaName := by
  rw [TablesApart, List.map_cons, List.nodup_cons] at apart
  intro same
  exact apart.1 (List.mem_map.mpr ⟨e.tableName, List.mem_map.mpr ⟨e, known, rfl⟩, same⟩)

theorem Made.table?_of_mem (made : Made es db) (sound : db.Sound) (known : e ∈ es) :
    db.table? e.tableName = some { definition := e.tableDefinition } := by
  refine sound.table?_of_mem (t := { definition := e.tableDefinition }) ?_
  rw [made.tables, emptyTables]
  exact List.mem_map.mpr ⟨_, List.mem_cons_of_mem _ (List.mem_map.mpr ⟨e, known, rfl⟩), rfl⟩

/-- What the creation of a migration makes of an empty database: its tables, and then the fingerprint in one of them. -/
theorem exists_up (valid : ∀ e ∈ m.schema.entities, e.violations = []) (apart : TablesApart m.schema.entities)
    (creatable : Creatable m.schema.entities) :
    ∃ made db t t', m.up.outcome {} = (.ok (), db) ∧ Made m.schema.entities made ∧ made.Sound ∧
      Replaces made db metaName t t' := by
  obtain ⟨only, enough⟩ := defineAll_empty apart
  obtain ⟨made, defined⟩ := enough creatable
  have shape := (only made defined).2
  obtain ⟨row, db, inserted⟩ := exists_insert shape.table?_meta rfl (fun u known => .inr (shape.rows_eq_nil u known))
    m.fingerprint
  obtain ⟨_, _, _, _, sound⟩ := defineAll_eq_ok (dropTable_not_mem_definitions (m := m)) defined
  obtain ⟨t, t', _, _, replaces, _⟩ := insert_eq_ok inserted
  exact ⟨made, db, t, t', up_eq_ok.mpr ⟨valid, made, row, defined, inserted⟩, shape, sound sound_empty, replaces⟩

/-- A migration of an empty database leaves each entity its table without rows. -/
theorem Made.presence (made : Made es db) (sound : db.Sound) (apart : TablesApart es) {t t' : Table}
    (replaces : Replaces db db' metaName t t') (known : e ∈ es) :
    presence db' e = ⟨e.name, e.tableName, true, 0⟩ := by
  have found : db'.table? e.tableName = some { definition := e.tableDefinition } := by
    rw [replaces.table?, if_neg (apart.ne_meta known), made.table?_of_mem sound known]
  rw [Migration.presence, if_pos (hasTable_of_table? found rfl), Entity.rowsIn_eq found]
  rfl

/-- A status that reports of all entities that they have a table without rows. -/
theorem status_of_empty {st : Status} (tables : st.tables = es.map fun e => ⟨e.name, e.tableName, true, 0⟩) :
    st.allExist = true ∧ st.totalRows = 0 := by
  rw [Status.allExist, Status.totalRows, tables, List.all_map, List.foldr_map]
  refine ⟨List.all_eq_true.mpr fun _ _ => rfl, ?_⟩
  clear tables
  induction es with
  | nil => rfl
  | cons e rest ih => rw [List.foldr_cons, ih]

/-- A catalog that is accepted, and whose tables have names of their own for the database, can be migrated on an empty
database exactly when the database accepts its tables and indexes. The status then reports all tables without rows
and the fingerprint of the catalog; otherwise the database stays empty. -/
theorem up_of_empty {c : Catalog} {s : Schema} (accepted : c.schema = .ok s) (apart : TablesApart c.entities) :
    ∃ m, ofCatalog c = .ok m ∧
      (Creatable c.entities → ∃ db st, m.up.outcome {} = (.ok (), db) ∧ m.status.outcome db = (.ok st, db) ∧
        st.tables = c.entities.map (fun e => ⟨e.name, e.tableName, true, 0⟩) ∧ st.allExist = true ∧
        st.totalRows = 0 ∧ st.matching = true) ∧
      (¬ Creatable c.entities → ∃ f, m.up.outcome {} = (.error (.creation f), {})) := by
  let m : Migration := ⟨s, c.fingerprint⟩
  have made : ofCatalog c = .ok m := ofCatalog_eq_ok.mpr ⟨accepted, rfl⟩
  have valid := (consistent_of_ofCatalog made).valid
  refine ⟨m, made, ?_⟩
  rw [← entities_of_schema accepted] at apart ⊢
  constructor
  · intro creatable
    obtain ⟨made, db, _, _, done, shape, sound, replaces⟩ := exists_up valid apart creatable
    let st : Status := ⟨s.entities.map (presence db), some m.fingerprint, m.fingerprint⟩
    have tables : st.tables = s.entities.map fun e => ⟨e.name, e.tableName, true, 0⟩ :=
      List.map_congr_left fun e known => shape.presence sound apart replaces known
    have remembered := stored_of_up (fun _ found => by cases found) done
    obtain ⟨exist, empty⟩ := status_of_empty tables
    exact ⟨db, st, done, status_eq_ok.mpr ⟨rfl, rfl, remembered, rfl⟩, tables, exist, empty, beq_self_eq_true _⟩
  · intro refused
    cases defined : Database.defineAll {} (.createTable metaDefinition :: m.definitions) with
    | ok made => exact absurd ((defineAll_empty apart).1 made defined).1 refused
    | error f => exact ⟨f, outcome_up_of_refused valid defined⟩

/-- A table with an index and a reference, beside the table it refers to. -/
theorem up_of_empty_reference :
    let tag : Entity := ⟨"Tag", none, false, [⟨"name", .text, false, true, false, false, none⟩]⟩
    let note : Entity := ⟨"Note", some "notes", true, [⟨"id", .integer, false, true, false, false, none⟩,
      ⟨"tag", .text, true, false, false, true, some "Tag"⟩]⟩
    let c : Catalog := ⟨"1", [tag, note]⟩
    TablesApart c.entities ∧ Creatable c.entities ∧ ∃ m db st, ofCatalog c = .ok m ∧ m.up.outcome {} = (.ok (), db) ∧
      m.status.outcome db = (.ok st, db) ∧ st.tables = [⟨"Tag", "Tag", true, 0⟩, ⟨"Note", "notes", true, 0⟩] := by
  intro tag note c
  have accepted : c.schema = .ok ⟨[tag, note], [("Note", 1), ("Tag", 0)]⟩ := by decide +kernel
  have apart : TablesApart c.entities := by
    rw [TablesApart]
    decide +kernel
  have creatable : Creatable c.entities :=
    ⟨by decide +kernel, by decide +kernel, by decide +kernel, by decide +kernel⟩
  obtain ⟨m, made, succeeds, _⟩ := up_of_empty accepted apart
  obtain ⟨db, st, done, asked, tables, _⟩ := succeeds creatable
  exact ⟨apart, creatable, m, db, st, made, done, asked, tables⟩

/-- A name that is an identifier and reserved. -/
theorem up_of_empty_reserved :
    ¬ ∀ (c : Catalog) (s : Schema), c.schema = .ok s → ∃ m db st, ofCatalog c = .ok m ∧
      m.up.outcome {} = (.ok (), db) ∧ m.status.outcome db = (.ok st, db) ∧
      (∀ t ∈ st.tables, t.present = true ∧ t.rows = 0) ∧ st.matching = true := by
  intro migrated
  let log : Entity := ⟨"Log", some "sqlite_log", false, [⟨"id", .integer, false, true, false, false, none⟩]⟩
  obtain ⟨m, db, _, made, done, _⟩ := migrated ⟨"1", [log]⟩ ⟨[log], [("Log", 0)]⟩ (by decide +kernel)
  obtain ⟨_, _, _, defined, _⟩ := up_eq_ok.mp done
  have entities : m.schema.entities = [log] := entities_of_schema (ofCatalog_eq_ok.mp made).1
  have refused : Database.defineAll {} (.createTable metaDefinition :: [log].flatMap entityDefinitions) =
      .error (.reservedName "sqlite_log") := by decide +kernel
  rw [definitions, entities, refused] at defined
  cases defined

end Migration

end Tabular
