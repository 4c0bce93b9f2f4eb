import Mathlib.Data.List.Find
import Tabular.Proofs.SettledDefinitions
import Tabular.Proofs.Fingerprints

/-!
# Removals of all that was created

A schema is in an order in which references lead to earlier tables, and a removal drops the last table first, so that
no reference is in its way unless a name stands for a table of another case (`isConsistent_without`). What it leaves of
a database that a creation has made of the empty one, whatever rows were stored in between, is a database without
tables, in which another creation makes what the first one made (`down_of_run`).
-/

namespace Tabular

open Sql Text

namespace Database

variable {db db' : Database} {d : Definition} {ds : List Definition} {names : List String}

/-- Every index stands on a table that exists. -/
def Indexed (db : Database) : Prop :=
  ∀ i ∈ db.indexes, (db.table? i.table).isSome = true

theorem Indexed.define (indexed : db.Indexed) (creating : ∀ name, d ≠ .dropTable name) (done : db.define d = .ok db') :
    db'.Indexed := by
  have grows := grows_define creating done
  have kept : ∀ i ∈ db.indexes, (db'.table? i.table).isSome = true := fun i member => grows.tables _ (indexed i member)
  cases d with
  | createTable t =>
    cases here : db.table? t.name with
    | some u =>
      obtain ⟨_, rfl⟩ := (createTable_of_taken (by simp [here])).mp done
      exact indexed
    | none =>
      obtain ⟨_, _, _, _, rfl⟩ := (createTable_of_free here).mp done
      exact kept
  | createIndex i =>
    have known := isSome_of_createIndex done
    obtain ⟨_, rfl⟩ := (createIndex_iff known).mp done
    intro j member
    split at member
    · exact kept j member
    · rcases List.mem_append.mp member with old | new
      · exact kept j old
      · rw [List.mem_singleton.mp new]
        exact grows.tables _ known
  | dropTable name => exact absurd rfl (creating name)

theorem Indexed.defineAll (indexed : db.Indexed) (creating : ∀ name, .dropTable name ∉ ds)
    (done : db.defineAll ds = .ok db') : db'.Indexed := by
  induction ds generalizing db with
  | nil =>
    obtain rfl := Except.ok.inj done
    exact indexed
  | cons first rest ih =>
    obtain ⟨next, made, later⟩ := Checks.bind_eq_ok.mp done
    have creates : ∀ name, first ≠ .dropTable name := by
      rintro name rfl
      exact creating name List.mem_cons_self
    exact ih (indexed.define creates made) (fun name => List.not_mem_of_not_mem_cons (creating name)) later

theorem Indexed.replaces {name : String} {t t' : Table} (indexed : db.Indexed)
    (replaces : Replaces db db' name t t') : db'.Indexed := by
  intro i member
  rw [replaces.replaced] at member
  exact replaces.grows.tables _ (indexed i member)

/-- References lead where they led as long as the tables that they lead to stay. -/
theorem isConsistent_without (consistent : db.isConsistent = true)
    (stays : ∀ t ∈ db.tables, names.any (sameName t.name) = false → ∀ c ∈ t.columns, ∀ table,
      c.references = some table → names.any (sameName table) = false) : (db.without names).isConsistent = true := by
  rw [isConsistent, List.all_eq_true] at consistent ⊢
  intro t member
  obtain ⟨known, kept⟩ : t ∈ db.tables ∧ names.any (sameName t.name) = false := by
    simpa [without] using member
  rw [List.all_eq_true]
  intro r row
  have held := List.all_eq_true.mp (consistent t known) r row
  rw [rowLeads, List.all_eq_true] at held ⊢
  rintro ⟨c, v⟩ cell
  have led : (c.references.all fun table => db.leads table v) = true := held (c, v) cell
  show (c.references.all fun table => (db.without names).leads table v) = true
  cases refers : c.references with
  | none => rfl
  | some table =>
    have there := stays t known kept c (List.of_mem_zip cell).1 table refers
    rw [refers, Option.all_some] at led
    rw [Option.all_some, leads, table?_without, there, if_neg Bool.false_ne_true]
    exact led

/-- A table that may be created can be dropped when it does not exist, unless every database has one of its name. -/
theorem keeps_of_unreserved {name : String} (unreserved : isReserved name = false) :
    db.keeps name = isBuiltIn name := by
  have other : sameName name "sqlite_sequence" = false := by
    by_contra same
    rw [Bool.not_eq_false, sameName_iff] at same
    rw [isReserved, same] at unreserved
    exact absurd unreserved (by decide +kernel)
  rw [keeps, other, Bool.and_false, Bool.or_false]

/-- The same tables and indexes in a database where ids may have been remembered for tables dropped since. -/
def withSequence (db : Database) (b : Bool) : Database :=
  { db with sequence := db.sequence || b }

variable {b : Bool}

theorem withSequence_self : db.withSequence db.sequence = db := by
  rw [withSequence, Bool.or_self]

theorem define_withSequence (creating : ∀ name, d ≠ .dropTable name) (done : db.define d = .ok db') :
    (db.withSequence b).define d = .ok (db'.withSequence b) := by
  cases d with
  | createTable t =>
    cases here : db.table? t.name with
    | some u =>
      have taken : (db.table? t.name).isSome = true := by rw [here, Option.isSome_some]
      obtain ⟨unreserved, rfl⟩ := (createTable_of_taken taken).mp done
      have named : ((db'.withSequence b).table? t.name).isSome = true := taken
      exact (createTable_of_taken named).mpr ⟨unreserved, rfl⟩
    | none =>
      obtain ⟨unreserved, unnamed, columns, width, rfl⟩ := (createTable_of_free here).mp done
      have free : (db.withSequence b).table? t.name = none := here
      refine (createTable_of_free free).mpr ⟨unreserved, unnamed, columns, width, ?_⟩
      rw [withSequence, withSequence, addTable, addTable, Bool.or_right_comm]
  | createIndex i =>
    have known := isSome_of_createIndex done
    obtain ⟨unnamed, rfl⟩ := (createIndex_iff known).mp done
    have there : ((db.withSequence b).table? i.table).isSome = true := known
    refine (createIndex_iff there).mpr ⟨unnamed, ?_⟩
    show _ = if db.indexes.any (sameName ·.name i.name) then _ else _
    split
    · rfl
    · rfl
  | dropTable name => exact absurd rfl (creating name)

theorem defineAll_withSequence (creating : ∀ name, .dropTable name ∉ ds) (done : db.defineAll ds = .ok db') :
    (db.withSequence b).defineAll ds = .ok (db'.withSequence b) := by
  induction ds generalizing db with
  | nil =>
    obtain rfl := Except.ok.inj done
    rfl
  | cons first rest ih =>
    obtain ⟨next, made, later⟩ := Checks.bind_eq_ok.mp done
    have creates : ∀ name, first ≠ .dropTable name := by
      rintro name rfl
      exact creating name List.mem_cons_self
    exact Checks.bind_eq_ok.mpr
      ⟨_, define_withSequence creates made, ih (fun name => List.not_mem_of_not_mem_cons (creating name)) later⟩

theorem insert_withSequence {mode : Conflict} {name : String} {values : List (String × Cell)} {id : Option Int64}
    (done : db.insert mode name values = .ok (id, db')) :
    (db.withSequence b).insert mode name values = .ok (id, db'.withSequence b) := by
  obtain ⟨_, few, accepted⟩ := Checks.bind_eq_ok.mp done
  obtain ⟨t, found, targeted⟩ := Checks.bind_eq_ok.mp accepted
  obtain ⟨given, resolved, parents⟩ := Checks.bind_eq_ok.mp targeted
  obtain ⟨_, there, numbered⟩ := Checks.bind_eq_ok.mp parents
  obtain ⟨n, chosen, placed⟩ := Checks.bind_eq_ok.mp numbered
  obtain ⟨⟨row, t'⟩, added, checked⟩ := Checks.bind_eq_ok.mp placed
  obtain ⟨after, consistent, answer⟩ := Checks.bind_eq_ok.mp checked
  obtain ⟨leads, rfl⟩ := requireConsistent_eq_ok.mp consistent
  obtain ⟨rfl, rfl⟩ := Prod.mk.inj (Except.ok.inj answer)
  have kept : ((db.withSequence b).setTable t').requireConsistent = .ok ((db.setTable t').withSequence b) :=
    requireConsistent_eq_ok.mpr ⟨leads, rfl⟩
  exact Checks.bind_eq_ok.mpr ⟨(), few, Checks.bind_eq_ok.mpr ⟨t, found, Checks.bind_eq_ok.mpr ⟨given, resolved,
    Checks.bind_eq_ok.mpr ⟨(), there, Checks.bind_eq_ok.mpr ⟨n, chosen, Checks.bind_eq_ok.mpr ⟨(row, t'), added,
      Checks.bind_eq_ok.mpr ⟨_, kept, rfl⟩⟩⟩⟩⟩⟩⟩

end Database

namespace Migration

open Database

variable {m : Migration} {db db₀ db' : Database} {e : Entity} {names : List String}

/-! ## Databases with nothing but the tables of a migration -/

/-- All tables were made for the migration, and all indexes stand on them. -/
structure Belongs (m : Migration) (db : Database) : Prop where
  declared : ∀ t ∈ db.tables, t.definition ∈ metaDefinition :: m.schema.entities.map (·.tableDefinition)
  present : ∀ e ∈ m.schema.entities, (db.table? e.tableName).isSome = true
  indexed : db.Indexed

theorem Belongs.definition_of_setTable {name : String} {t t' u : Table} (belongs : m.Belongs db)
    (found : db.table? name = some t) (definition : t'.definition = t.definition)
    (member : u ∈ (db.setTable t').tables) :
    u.definition ∈ metaDefinition :: m.schema.entities.map (·.tableDefinition) := by
  rcases mem_setTable member with rfl | old
  · rw [definition]
    exact belongs.declared t (mem_of_table? found)
  · exact belongs.declared u old

theorem Belongs.replaces {name : String} {t t' : Table} (belongs : m.Belongs db)
    (replaces : Replaces db db' name t t') : m.Belongs db' := by
  refine ⟨fun u member => ?_, fun e known => replaces.grows.tables _ (belongs.present e known),
    belongs.indexed.replaces replaces⟩
  rw [replaces.replaced] at member
  exact belongs.definition_of_setTable replaces.found replaces.definition member

theorem belongs_of_up (done : m.up.outcome {} = (.ok (), db)) : m.Belongs db ∧ db.isConsistent = true := by
  obtain ⟨_, made, _, defined, inserted⟩ := up_eq_ok.mp done
  obtain ⟨added, listed, _, tables, _⟩ := defineAll_eq_ok dropTable_not_mem_definitions defined
  obtain ⟨_, _, _, _, replaces, _⟩ := insert_eq_ok inserted
  have indexed : Database.Indexed {} := by simp [Indexed]
  have settled := (settled_defineAll dropTable_not_mem_definitions defined).2
  have present : ∀ e ∈ m.schema.entities, (made.table? e.tableName).isSome = true := fun e known =>
    (settled_createTable.mp (settled _ (createTable_mem_definitions known))).2
  have belongs : m.Belongs made := by
    refine ⟨fun t member => ?_, present, indexed.defineAll dropTable_not_mem_definitions defined⟩
    rw [tables, show ({} : Database).tables = [] from rfl, List.nil_append] at member
    obtain ⟨d, known, rfl⟩ := List.mem_map.mp member
    rw [createdTables_definitions] at listed
    exact listed.subset known
  exact ⟨belongs.replaces replaces, replaces.consistent⟩

/-- Whatever a store does with the tables, they are those of the migration. -/
theorem Belongs.reaches (belongs : m.Belongs db₀) (consistent : db₀.isConsistent = true)
    (reached : Store.Reaches m.schema db₀ db) : m.Belongs db ∧ db.isConsistent = true := by
  refine reached.invariant (P := fun db => m.Belongs db ∧ db.isConsistent = true) ?_ ⟨belongs, consistent⟩
  rintro before after ⟨belongs, _⟩ change
  obtain ⟨_, _, _, replaces, _⟩ := change.replaces
  exact ⟨belongs.replaces replaces, replaces.consistent⟩

theorem Belongs.named (belongs : m.Belongs db) {t : Table} (member : t ∈ db.tables) :
    m.tableNames.any (sameName t.name) = true := by
  have listed : t.name ∈ m.tableNames := by
    rcases List.mem_cons.mp (belongs.declared t member) with own | entity
    · rw [show t.name = metaName from congrArg TableDefinition.name own]
      exact mem_tableNames_meta m
    · obtain ⟨e, known, definition⟩ := List.mem_map.mp entity
      rw [show t.name = e.tableName from (congrArg TableDefinition.name definition).symm, tableNames]
      exact List.mem_append_left _ (List.mem_map.mpr ⟨e, List.mem_reverse.mpr known, rfl⟩)
  exact List.any_eq_true.mpr ⟨t.name, listed, sameName_self _⟩

/-- Nothing is left of such a database without the tables of the migration, but that ids were remembered. -/
theorem Belongs.without (belongs : m.Belongs db) : db.without m.tableNames = { sequence := db.sequence } := by
  have tables : (db.without m.tableNames).tables = [] := by
    rw [Database.without, List.filter_eq_nil_iff]
    intro t member
    simp [belongs.named member]
  have indexes : (db.without m.tableNames).indexes = [] := by
    rw [Database.without, List.filter_eq_nil_iff]
    intro i member
    have known := belongs.indexed i member
    obtain ⟨t, found⟩ := Option.isSome_iff_exists.mp known
    have named := belongs.named (mem_of_table? found)
    rw [any_sameName_congr (foldCase_of_table? found)] at named
    simp [known, named]
  exact Database.ext tables indexes rfl

/-! ## Tables that are dropped first -/

/-- The tables dropped first are those of the last entities, unless all are dropped. -/
theorem split_of_initial (initial : names <+: m.tableNames) : names = m.tableNames ∨
    ∃ kept dropped, m.schema.entities = kept ++ dropped ∧ names = dropped.reverse.map (·.tableName) := by
  rcases List.prefix_concat_iff.mp initial with all | before
  · exact .inl all
  · right
    obtain ⟨rest, split⟩ := before
    obtain ⟨first, last, reversed, rfl, _⟩ := List.map_eq_append_iff.mp split.symm
    refine ⟨last.reverse, first.reverse, ?_, by rw [List.reverse_reverse]⟩
    rw [← List.reverse_append, ← reversed, List.reverse_reverse]

/-- A column of a table that refers to another is a column of an entity, and not its key. -/
theorem exists_referring {definition : TableDefinition} {i : Nat} {column : ColumnDefinition} {table : String}
    (declared : definition ∈ metaDefinition :: m.schema.entities.map (·.tableDefinition))
    (position : definition.columns[i]? = some column) (refers : column.references = some table) :
    ∃ e ∈ m.schema.entities, definition = e.tableDefinition ∧
      ∃ c, e.columns[i]? = some c ∧ c.isKey = false ∧ c.references = some table := by
  rcases List.mem_cons.mp declared with rfl | entity
  · have nothing : ∀ c ∈ metaDefinition.columns, c.references = none := by decide
    rw [nothing column (List.mem_of_getElem? position)] at refers
    cases refers
  · obtain ⟨e, known, rfl⟩ := List.mem_map.mp entity
    obtain ⟨c, column, rfl⟩ := Option.map_eq_some_iff.mp ((List.getElem?_map ..).symm.trans position)
    rw [Entity.columnDefinition_references] at refers
    split at refers
    · cases refers
    · exact ⟨e, known, rfl, c, column, by simpa using ‹¬ c.isKey = true›, refers⟩

/-- An entity that is none of the last ones refers to none of them, but to itself or to an earlier one. -/
theorem exists_target_of_notMem {s : Schema} (consistent : s.Consistent) {first last : List Entity} {c : Column}
    {table : String} (split : s.entities = first ++ last) (known : e ∈ s.entities) (stays : e ∉ last)
    (declared : c ∈ e.columns) (refers : c.references = some table) : ∃ d ∈ first, d.tableName = table := by
  obtain ⟨i, position⟩ := List.getElem?_of_mem known
  obtain ⟨j, d, _, earlier, target, named, _⟩ := consistent.references i e c table position declared refers
  have inside : i < first.length := by
    by_contra beyond
    rw [split, List.getElem?_append_right (Nat.le_of_not_lt beyond)] at position
    exact stays (List.mem_of_getElem? position)
  rw [split, List.getElem?_append_left (Nat.lt_of_le_of_lt earlier inside)] at target
  exact ⟨d, List.mem_of_getElem? target, named⟩

/-- While tables are dropped from the last to the first no reference loses the table that it leads to, when each table
has a name of its own for the database. -/
theorem stays_while_dropping (consistent : m.schema.Consistent)
    (apart : (m.schema.entities.map fun e => foldCase e.tableName).Nodup) (belongs : m.Belongs db)
    (initial : names <+: m.tableNames) :
    ∀ t ∈ db.tables, names.any (sameName t.name) = false → ∀ c ∈ t.columns, ∀ table, c.references = some table →
      names.any (sameName table) = false := by
  intro t member kept column listed table refers
  rcases split_of_initial initial with rfl | ⟨first, last, split, rfl⟩
  · rw [belongs.named member] at kept
    cases kept
  · -- The table is that of an entity which is not dropped yet, and refers to earlier ones only.
    obtain ⟨i, position⟩ := List.getElem?_of_mem listed
    obtain ⟨e, known, definition, c, declared, _, refers'⟩ :=
      exists_referring (belongs.declared t member) position refers
    have named : t.name = e.tableName := congrArg TableDefinition.name definition
    have stays : e ∉ last := by
      intro dropped
      have listed' : e.tableName ∈ last.reverse.map (·.tableName) :=
        List.mem_map.mpr ⟨e, List.mem_reverse.mpr dropped, rfl⟩
      exact List.any_eq_false.mp kept _ listed' (sameName_iff.mpr (congrArg foldCase named))
    obtain ⟨d, before, rfl⟩ :=
      exists_target_of_notMem consistent split known stays (List.mem_of_getElem? declared) refers'
    rw [split, List.map_append, List.nodup_append] at apart
    rw [List.any_eq_false]
    intro name dropped same
    obtain ⟨x, listed, rfl⟩ := List.mem_map.mp dropped
    exact apart.2.2 _ (List.mem_map.mpr ⟨d, before, rfl⟩) _
      (List.mem_map.mpr ⟨x, List.mem_reverse.mp listed, rfl⟩) (sameName_iff.mp same)

/-- A table that is dropped is there when its turn comes, or it is that of the fingerprint. -/
theorem droppable_while_dropping (apart : (m.schema.entities.map fun e => foldCase e.tableName).Nodup)
    (belongs : m.Belongs db) {dropped : List String} {name : String} (initial : dropped ++ [name] <+: m.tableNames) :
    (db.without dropped).droppable name = true := by
  rw [droppable, Bool.or_eq_true]
  rcases List.prefix_concat_iff.mp initial with whole | ⟨rest, split⟩
  · obtain ⟨_, own⟩ := List.append_inj' whole rfl
    have unreserved : isReserved metaName = false := by decide +kernel
    have ordinary : isBuiltIn metaName = false := by decide +kernel
    rw [List.singleton_inj.mp own, keeps_of_unreserved unreserved, ordinary]
    exact .inr rfl
  · -- No table that was dropped before has this name, so that its own is there.
    have names : (dropped ++ [name] ++ rest).map foldCase =
        (m.schema.entities.map fun e => foldCase e.tableName).reverse := by
      rw [split, List.map_map, List.map_reverse]
      rfl
    rw [← List.nodup_reverse, ← names, List.map_append, List.map_append, List.append_assoc, List.nodup_append] at apart
    have fresh : dropped.any (sameName name) = false := by
      rw [List.any_eq_false]
      intro other listed same
      exact apart.2.2 _ (List.mem_map_of_mem listed) _ List.mem_cons_self (sameName_iff.mp same).symm
    have listed : name ∈ m.schema.entities.reverse.map (·.tableName) := by
      rw [← split]
      simp
    obtain ⟨e, known, rfl⟩ := List.mem_map.mp listed
    rw [table?_without, fresh, if_neg Bool.false_ne_true]
    exact .inl (belongs.present e (List.mem_reverse.mp known))

/-- No name of a migration that succeeded once is reserved. -/
theorem unreserved_of_up (done : m.up.outcome db = (.ok (), db')) : ∀ name ∈ m.tableNames, isReserved name = false := by
  obtain ⟨_, made, _, defined, _⟩ := up_eq_ok.mp done
  have settled := (settled_defineAll dropTable_not_mem_definitions defined).2
  intro name member
  rcases List.mem_append.mp member with entity | own
  · obtain ⟨e, known, rfl⟩ := List.mem_map.mp entity
    exact (settled_createTable.mp (settled _ (createTable_mem_definitions (List.mem_reverse.mp known)))).1
  · rw [List.mem_singleton.mp own]
    exact (settled_createTable.mp (settled _ List.mem_cons_self)).1

/-! ## Removals after a run -/

theorem exists_down (consistent : m.schema.Consistent)
    (apart : (m.schema.entities.map fun e => foldCase e.tableName).Nodup) (belongs : m.Belongs db)
    (leads : db.isConsistent = true) : m.down.outcome db = (.ok (), db.without m.tableNames) := by
  rw [outcome_down, removals_eq, defineAll_dropTable_of_isConsistent
    (fun dropped name => droppable_while_dropping apart belongs) fun names initial =>
      isConsistent_without leads (stays_while_dropping consistent apart belongs initial)]

/-- Without tables, a removal has no effect. It succeeds unless every database has a table of one of the names. -/
theorem down_of_no_tables (none : db.tables = []) (unreserved : ∀ name ∈ m.tableNames, isReserved name = false) :
    m.down.outcome db = ((m.tableNames.find? isBuiltIn).elim (.ok ()) fun name => .error (.removal (.keptTable name)),
      db) := by
  have absent : ∀ name ∈ m.tableNames, db.table? name = Option.none := by
    intro name _
    rw [Database.table?, none, List.find?_nil]
  have kept : m.tableNames.find? db.keeps = m.tableNames.find? isBuiltIn :=
    List.find?_congr fun name member => keeps_of_unreserved (unreserved name member)
  rw [outcome_down, removals_eq, defineAll_dropTable_of_none absent, kept]
  cases m.tableNames.find? isBuiltIn <;> rfl

theorem status_of_no_tables (none : db.tables = []) : m.status.outcome db = (.ok ⟨m.schema.entities.map fun e =>
    ⟨e.name, e.tableName, false, 0⟩, Option.none, m.fingerprint⟩, db) := by
  have absent : ∀ name, hasTable db name = false := fun name => by rw [hasTable, none, List.any_nil]
  have nothing : db.table? metaName = Option.none := by rw [Database.table?, none, List.find?_nil]
  refine status_eq_ok.mpr ⟨List.map_congr_left fun e _ => ?_, rfl, stored_of_none nothing, rfl⟩
  rw [presence, absent, if_neg Bool.false_ne_true]

theorem up_withSequence {b : Bool} (done : m.up.outcome db = (.ok (), db')) :
    m.up.outcome (db.withSequence b) = (.ok (), db'.withSequence b) := by
  obtain ⟨valid, made, id, defined, inserted⟩ := up_eq_ok.mp done
  exact up_eq_ok.mpr ⟨valid, _, id, defineAll_withSequence dropTable_not_mem_definitions defined,
    insert_withSequence inserted⟩

/-- After a creation on the empty database and whatever a store has done with the tables, a removal succeeds when each
table has a name of its own for the database. A removal that succeeds, in any case, leaves no tables and no indexes:
all tables are missing and no fingerprint is remembered, another removal changes nothing if no table is named as one
that every database has, and another creation makes what the first one made. -/
theorem down_of_run {c : Catalog} (made : ofCatalog c = .ok m) (done : m.up.outcome {} = (.ok (), db₀))
    (reached : Store.Reaches m.schema db₀ db) :
    ((c.entities.map fun e => foldCase e.tableName).Nodup → ∃ db', m.down.outcome db = (.ok (), db')) ∧
      ∀ db', m.down.outcome db = (.ok (), db') → db'.tables = [] ∧ db'.indexes = [] ∧
        (∃ st, m.status.outcome db' = (.ok st, db') ∧ st.stored = none ∧
          st.tables = c.entities.map fun e => ⟨e.name, e.tableName, false, 0⟩) ∧
        ((∀ e ∈ c.entities, isBuiltIn e.tableName = false) → m.down.outcome db' = (.ok (), db')) ∧
        m.up.outcome db' = (.ok (), db₀) ∧ m.refresh.outcome db = (.ok (), db₀) := by
  obtain ⟨belongs₀, consistent₀⟩ := belongs_of_up done
  obtain ⟨belongs, leads⟩ := belongs₀.reaches consistent₀ reached
  rw [← entities_of_schema (ofCatalog_eq_ok.mp made).1]
  refine ⟨fun apart => ⟨_, exists_down (consistent_of_ofCatalog made) apart belongs leads⟩, fun db' removed => ?_⟩
  have bare : db' = Database.withSequence {} db₀.sequence := by
    rw [down_eq_ok removed, belongs.without, reached.sequence]
    rfl
  have tables : db'.tables = [] := by rw [bare]; rfl
  have again : m.up.outcome db' = (.ok (), db₀) := by
    rw [bare, up_withSequence done, withSequence_self]
  refine ⟨tables, by rw [bare]; rfl, ⟨_, status_of_no_tables tables, rfl, rfl⟩, fun ordinary => ?_, again, ?_⟩
  · have free : m.tableNames.find? isBuiltIn = none := by
      rw [List.find?_eq_none]
      intro name member
      rcases List.mem_append.mp member with entity | own
      · obtain ⟨e, known, rfl⟩ := List.mem_map.mp entity
        rw [ordinary e (List.mem_reverse.mp known)]
        exact Bool.false_ne_true
      · rw [List.mem_singleton.mp own]
        decide +kernel
    rw [down_of_no_tables tables (unreserved_of_up done), free]
    rfl
  · rw [refresh, Session.outcome_bind, removed]
    exact again

/-- A removal while a row of one table refers to a row of the other. -/
theorem down_of_run_linked :
    let id : Column := { name := "id", kind := .integer, isKey := true }
    let tag : Entity := { name := "Tag", columns := [id] }
    let note : Entity :=
      { name := "Note", columns := [id, { name := "tag", kind := .integer, references := some "Tag" }] }
    let c : Catalog := ⟨"1", [tag, note]⟩
    let m : Migration := ⟨⟨[tag, note], [("Note", 1), ("Tag", 0)]⟩, c.fingerprint⟩
    let named : String → Mapping (List (String × Value)) := fun name => ⟨name, fun a c => a.lookup c, fun _ => .ok []⟩
    let db₀ := m.up.after {}
    let db₁ := Store.Operation.after m.schema db₀ (.insert (named "Tag") [("id", .integer 7)])
    let db := Store.Operation.after m.schema db₁ (.insert (named "Note") [("id", .integer 1), ("tag", .integer 7)])
    ofCatalog c = .ok m ∧ m.up.outcome {} = (.ok (), db₀) ∧ Store.Reaches m.schema db₀ db ∧
      note.rowsIn db = [⟨1, [.integer 1, .integer 7]⟩] ∧ (c.entities.map fun e => foldCase e.tableName).Nodup ∧
      (∀ e ∈ c.entities, isBuiltIn e.tableName = false) ∧
      ∃ db', m.down.outcome db = (.ok (), db') ∧ db'.tables = [] ∧ m.down.outcome db' = (.ok (), db') ∧
        m.refresh.outcome db = (.ok (), db₀) := by
  intro id tag note c m named db₀ db₁ db
  have made : ofCatalog c = .ok m := ofCatalog_eq_ok.mpr ⟨by decide +kernel, rfl⟩
  have answer : (m.up.outcome {}).1 = .ok () := by decide +kernel
  have done : m.up.outcome {} = (.ok (), db₀) := Session.outcome_eq answer
  have reached : Store.Reaches m.schema db₀ db := .next _ (.next _ .refl)
  have rows : note.rowsIn db = [⟨1, [.integer 1, .integer 7]⟩] := by decide +kernel
  have apart : (c.entities.map fun e => foldCase e.tableName).Nodup := by decide +kernel
  obtain ⟨succeeds, leaves⟩ := down_of_run made done reached
  obtain ⟨db', removed⟩ := succeeds apart
  have ordinary : ∀ e ∈ c.entities, isBuiltIn e.tableName = false := by decide +kernel
  obtain ⟨tables, _, _, again, _, renewed⟩ := leaves db' removed
  exact ⟨made, done, reached, rows, apart, ordinary, db', removed, tables, again ordinary, renewed⟩

/-- Two names that differ in case only: the first of them to be dropped takes the table away that a row refers to. And
a name of a table that every database has: it is no longer that of a created table when it is dropped again. -/
theorem down_of_run_refused :
    (¬ ∀ (c : Catalog) (m : Migration) (db₀ db : Database), ofCatalog c = .ok m → m.up.outcome {} = (.ok (), db₀) →
      Store.Reaches m.schema db₀ db → ∃ db', m.down.outcome db = (.ok (), db')) ∧
    ¬ ∀ (c : Catalog) (m : Migration) (db₀ db db' : Database), ofCatalog c = .ok m →
      m.up.outcome {} = (.ok (), db₀) → Store.Reaches m.schema db₀ db → m.down.outcome db = (.ok (), db') →
        m.down.outcome db' = (.ok (), db') := by
  let id : Column := { name := "id", kind := .integer, isKey := true }
  constructor
  · intro removed
    let tag : Entity := { name := "Tag", columns := [id] }
    let note : Entity :=
      { name := "Note", columns := [id, { name := "tag", kind := .integer, references := some "Tag" }] }
    let doc : Entity := { name := "Doc", table := some "tag", columns := [id] }
    let c : Catalog := ⟨"1", [tag, note, doc]⟩
    let m : Migration := ⟨⟨[tag, note, doc], [("Doc", 2), ("Note", 1), ("Tag", 0)]⟩, c.fingerprint⟩
    let named : String → Mapping (List (String × Value)) := fun name => ⟨name, fun a c => a.lookup c, fun _ => .ok []⟩
    let db₀ := m.up.after {}
    let db₁ := Store.Operation.after m.schema db₀ (.insert (named "Tag") [("id", .integer 7)])
    let db := Store.Operation.after m.schema db₁ (.insert (named "Note") [("id", .integer 1), ("tag", .integer 7)])
    have made : ofCatalog c = .ok m := ofCatalog_eq_ok.mpr ⟨by decide +kernel, rfl⟩
    have answer : (m.up.outcome {}).1 = .ok () := by decide +kernel
    obtain ⟨db', done⟩ := removed c m db₀ db made (Session.outcome_eq answer) (.next _ (.next _ .refl))
    have refused : (m.down.outcome db).1 = .error (.removal .danglingReference) := by decide +kernel
    rw [done] at refused
    cases refused
  · intro unchanged
    let doc : Entity := { name := "Doc", table := some "json_each", columns := [id] }
    let c : Catalog := ⟨"1", [doc]⟩
    let m : Migration := ⟨⟨[doc], [("Doc", 0)]⟩, c.fingerprint⟩
    let db := m.up.after {}
    let db' := m.down.after db
    have made : ofCatalog c = .ok m := ofCatalog_eq_ok.mpr ⟨by decide +kernel, rfl⟩
    have created : (m.up.outcome {}).1 = .ok () := by decide +kernel
    have removed : (m.down.outcome db).1 = .ok () := by decide +kernel
    have refused : (m.down.outcome db').1 = .error (.removal (.keptTable "json_each")) := by decide +kernel
    have again := unchanged c m db db db' made (Session.outcome_eq created) .refl (Session.outcome_eq removed)
    rw [again] at refused
    cases refused

end Migration

end Tabular
