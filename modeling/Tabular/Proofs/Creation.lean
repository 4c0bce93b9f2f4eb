import Tabular.Migration
import Tabular.Proofs.HostedTables

/-!
# Tables that a migration creates

A table is created unless its name is taken (`createTable_eq_ok`). When a migration of an empty database leaves as
many tables as it has entities, beside its own, no name was taken: every entity has the table made for it, and the
database hosts the schema (`Creates.hosts`).
-/

namespace Tabular

open Sql Text

namespace Database

variable {db db' : Database} {t : Table} {d : TableDefinition} {ds : List Definition}

theorem table?_eq_none {name : String} : db.table? name = none ↔ ∀ t ∈ db.tables, foldCase t.name ≠ foldCase name := by
  rw [table?, List.find?_eq_none]
  simp only [sameName_iff, ne_eq]

theorem Sound.table?_of_mem (sound : db.Sound) (member : t ∈ db.tables) : db.table? t.name = some t := by
  cases found : db.table? t.name with
  | none => exact absurd rfl (table?_eq_none.mp found t member)
  | some u =>
    have same : u = t :=
      List.inj_on_of_nodup_map sound.names (mem_of_table? found) member (foldCase_of_table? found)
    rw [same]

theorem repeated?_eq_none {cs : List ColumnDefinition} :
    repeated? cs = none ↔ (cs.map fun c => foldCase c.name).Nodup := by
  induction cs with
  | nil => simp [repeated?]
  | cons c rest ih =>
    have fresh : rest.find? (sameName ·.name c.name) = none ↔ foldCase c.name ∉ rest.map fun c => foldCase c.name := by
      rw [List.find?_eq_none, List.mem_map, not_exists]
      simp only [sameName_iff, not_and]
    rw [repeated?, Option.or_eq_none_iff, fresh, ih, List.map_cons, List.nodup_cons]

theorem Sound.addTable (sound : db.Sound) (free : db.table? d.name = none) (columns : repeated? d.columns = none) :
    (db.addTable d).Sound where
  tables := by
    intro t member
    rcases List.mem_append.mp member with old | new
    · exact sound.tables t old
    · rw [List.mem_singleton.mp new]
      exact Table.sound_empty (repeated?_eq_none.mp columns)
  names := by
    rw [Database.addTable, List.map_append, List.nodup_append]
    refine ⟨sound.names, List.nodup_singleton _, ?_⟩
    intro name known new last
    obtain ⟨t, member, rfl⟩ := List.mem_map.mp known
    rw [List.mem_singleton.mp last]
    exact table?_eq_none.mp free t member

theorem createTable_of_taken (taken : (db.table? d.name).isSome = true) :
    db.createTable d = .ok db' ↔ isReserved d.name = false ∧ db' = db := by
  rw [createTable]
  by_cases reserved : isReserved d.name = true
  · simp [reserved]
  · simp [reserved, taken, eq_comm]

theorem createTable_of_free (free : db.table? d.name = none) :
    db.createTable d = .ok db' ↔ isReserved d.name = false ∧ (∀ i ∈ db.indexes, foldCase i.name ≠ foldCase d.name) ∧
      (d.columns.map fun c => foldCase c.name).Nodup ∧ d.columns.length ≤ maxColumns ∧
      db' = db.addTable d := by
  have taken : ¬ (db.table? d.name).isSome = true := by simp [free]
  have unnamed : db.indexes.any (sameName ·.name d.name) = true ↔
      ¬ ∀ i ∈ db.indexes, foldCase i.name ≠ foldCase d.name := by
    simp only [List.any_eq_true, sameName_iff, ne_eq, not_forall, not_not, exists_prop]
  rw [createTable]
  by_cases reserved : isReserved d.name = true
  · simp [reserved]
  rw [if_neg reserved, if_neg taken]
  by_cases index : db.indexes.any (sameName ·.name d.name) = true
  · rw [if_pos index]
    refine iff_of_false (by simp) ?_
    rintro ⟨_, apart, _⟩
    exact unnamed.mp index apart
  rw [if_neg index]
  cases columns : repeated? d.columns with
  | some c =>
    have twice : ¬ (d.columns.map fun c => foldCase c.name).Nodup := by
      rw [← repeated?_eq_none, columns]
      simp
    refine iff_of_false (by simp) ?_
    rintro ⟨_, _, once, _⟩
    exact twice once
  | none =>
    dsimp only
    by_cases wide : maxColumns < d.columns.length
    · rw [if_pos wide]
      refine iff_of_false (by simp) ?_
      rintro ⟨_, _, _, narrow, _⟩
      exact Nat.not_lt.mpr narrow wide
    rw [if_neg wide]
    constructor
    · intro created
      exact ⟨by simpa using reserved, not_not.mp (unnamed.not.mp index), repeated?_eq_none.mp columns,
        Nat.le_of_not_lt wide, (Except.ok.inj created).symm⟩
    · rintro ⟨_, _, _, _, rfl⟩
      rfl

/-- A table is created without rows, unless its name is taken. -/
theorem createTable_eq_ok (created : db.createTable d = .ok db') :
    db' = db ∨ d.columns.length ≤ maxColumns ∧ db'.tables = db.tables ++ [{ definition := d }] ∧
      (db.Sound → db'.Sound) := by
  cases here : db.table? d.name with
  | some t => exact .inl ((createTable_of_taken (by simp [here])).mp created).2
  | none =>
    obtain ⟨_, _, columns, width, rfl⟩ := (createTable_of_free here).mp created
    exact .inr ⟨width, rfl, fun sound => sound.addTable here (repeated?_eq_none.mpr columns)⟩

theorem createIndex_eq_ok {i : IndexDefinition} (created : db.createIndex i = .ok db') : db'.tables = db.tables := by
  obtain ⟨_, _, named⟩ := Checks.bind_eq_ok.mp created
  by_cases table : (db.table? i.name).isSome = true
  · rw [if_pos table] at named
    cases named
  rw [if_neg table] at named
  by_cases taken : db.indexes.any (sameName ·.name i.name) = true
  · rw [if_pos taken] at named
    rw [← Except.ok.inj named]
  · rw [if_neg taken] at named
    rw [← Except.ok.inj named]

/-! ## Definitions in sequence -/

/-- The tables that definitions would create. -/
def createdTables (ds : List Definition) : List TableDefinition :=
  ds.filterMap fun
    | .createTable d => some d
    | _ => none

/-- Definitions that drop nothing add tables without rows, some or all of those that they name. -/
theorem defineAll_eq_ok (creating : ∀ name, .dropTable name ∉ ds) (defined : db.defineAll ds = .ok db') :
    ∃ added : List TableDefinition, added.Sublist (createdTables ds) ∧ (∀ d ∈ added, d.columns.length ≤ maxColumns) ∧
      db'.tables = db.tables ++ added.map (fun d => { definition := d }) ∧ (db.Sound → db'.Sound) := by
  -- Induction on the definitions: what is left out is a table whose name is taken.
  induction ds generalizing db with
  | nil =>
    obtain rfl := Except.ok.inj defined
    exact ⟨[], .refl _, nofun, by simp, id⟩
  | cons first rest ih =>
    obtain ⟨next, made, later⟩ := Checks.bind_eq_ok.mp defined
    obtain ⟨added, listed, width, tables, sound⟩ := ih (fun name => List.not_mem_of_not_mem_cons (creating name)) later
    cases first with
    | createTable d =>
      rcases createTable_eq_ok made with rfl | ⟨narrow, new, kept⟩
      · exact ⟨added, listed.cons d, width, tables, sound⟩
      · refine ⟨d :: added, listed.cons_cons d, List.forall_mem_cons.mpr ⟨narrow, width⟩, ?_,
          fun before => sound (kept before)⟩
        rw [tables, new, List.append_assoc]
        rfl
    | createIndex i =>
      have same := createIndex_eq_ok made
      refine ⟨added, listed, width, by rw [tables, same], fun before => sound ⟨?_, ?_⟩⟩
      · rw [same]
        exact before.tables
      · rw [same]
        exact before.names
    | dropTable name => exact absurd List.mem_cons_self (creating name)

end Database

theorem Entity.creation_eq_ok {e : Entity} {d : Definition} :
    e.creation = .ok d ↔ e.violations = [] ∧ d = .createTable e.tableDefinition := by
  rw [creation, Checks.bind_eq_ok]
  constructor
  · rintro ⟨_, checked, answer⟩
    exact ⟨requireValid_eq_ok.mp checked, (Except.ok.inj answer).symm⟩
  · rintro ⟨valid, rfl⟩
    exact ⟨_, requireValid_eq_ok.mpr valid, rfl⟩

theorem Entity.indexing_eq_ok {e : Entity} {ds : List Definition} :
    e.indexing = .ok ds ↔ e.violations = [] ∧ ds = e.indexDefinitions.map .createIndex := by
  rw [indexing, Checks.bind_eq_ok]
  constructor
  · rintro ⟨_, checked, answer⟩
    exact ⟨requireValid_eq_ok.mp checked, (Except.ok.inj answer).symm⟩
  · rintro ⟨valid, rfl⟩
    exact ⟨_, requireValid_eq_ok.mpr valid, rfl⟩

namespace Migration

variable {m : Migration} {db db' : Database}

theorem entityDefinitions_eq_ok {e : Entity} {ds : List Definition} :
    (do return (← e.creation) :: (← e.indexing)) = Except.ok (ε := Fault) ds ↔
      e.violations = [] ∧ ds = entityDefinitions e := by
  rw [Checks.bind_eq_ok]
  simp only [Checks.bind_eq_ok, Entity.creation_eq_ok, Entity.indexing_eq_ok]
  constructor
  · rintro ⟨_, ⟨valid, rfl⟩, _, ⟨_, rfl⟩, answer⟩
    exact ⟨valid, (Except.ok.inj answer).symm⟩
  · rintro ⟨valid, rfl⟩
    exact ⟨_, ⟨valid, rfl⟩, _, ⟨valid, rfl⟩, rfl⟩

/-- What is carried out is only what every entity declares, and nothing if one of them is not valid. -/
theorem batch_eq_ok {ds : List Definition} :
    m.batch = .ok ds ↔ (∀ e ∈ m.schema.entities, e.violations = []) ∧ ds = m.definitions := by
  rw [batch, Checks.bind_eq_ok]
  simp only [Checks.mapM_eq_ok_map fun e _ => entityDefinitions_eq_ok, definitions, List.flatMap_def]
  constructor
  · rintro ⟨_, ⟨valid, rfl⟩, answer⟩
    exact ⟨valid, (Except.ok.inj answer).symm⟩
  · rintro ⟨valid, rfl⟩
    exact ⟨_, ⟨valid, rfl⟩, rfl⟩

theorem outcome_up (m : Migration) (db : Database) : m.up.outcome db =
    match m.batch with
    | .error g => (.error (.mapping g), db)
    | .ok ds =>
      match db.defineAll (.createTable metaDefinition :: ds) with
      | .error g => (.error (.creation g), db)
      | .ok made =>
        match made.insert .replace metaName [("key", .text fingerprintKey), ("value", .text m.fingerprint)] with
        | .error g => (.error (.database g), db)
        | .ok (_, db') => (.ok (), db') := by
  rw [up, Session.outcome_bind]
  cases m.batch with
  | error g => rfl
  | ok ds =>
    show Session.outcome (_ >>= _) db = _
    rw [Session.outcome_bind]
    show Session.outcome _ db = _
    dsimp only
    cases db.defineAll (.createTable metaDefinition :: ds) with
    | error g => rfl
    | ok made =>
      dsimp only
      cases made.insert .replace metaName [("key", .text fingerprintKey), ("value", .text m.fingerprint)] <;> rfl

theorem up_eq_ok : m.up.outcome db = (.ok (), db') ↔
    (∀ e ∈ m.schema.entities, e.violations = []) ∧
      ∃ made id, db.defineAll (.createTable metaDefinition :: m.definitions) = .ok made ∧
        made.insert .replace metaName [("key", .text fingerprintKey), ("value", .text m.fingerprint)] =
          .ok (id, db') := by
  rw [outcome_up]
  cases checked : m.batch with
  | error g =>
    refine iff_of_false (by simp) ?_
    rintro ⟨valid, _⟩
    rw [batch_eq_ok.mpr ⟨valid, rfl⟩] at checked
    cases checked
  | ok ds =>
    obtain ⟨valid, rfl⟩ := batch_eq_ok.mp checked
    dsimp only
    rw [and_iff_right valid]
    cases db.defineAll (.createTable metaDefinition :: m.definitions) with
    | error f => simp
    | ok made =>
      simp only [Except.ok.injEq, exists_and_left, exists_eq_left']
      cases made.insert .replace metaName
          [("key", .text fingerprintKey), ("value", .text m.fingerprint)] with
      | error f => simp
      | ok p => simp [Prod.ext_iff]

theorem outcome_up_of_refused {f : DatabaseFault} (valid : ∀ e ∈ m.schema.entities, e.violations = [])
    (refused : db.defineAll (.createTable metaDefinition :: m.definitions) = .error f) :
    m.up.outcome db = (.error (.creation f), db) := by
  rw [outcome_up, batch_eq_ok.mpr ⟨valid, rfl⟩]
  dsimp only
  rw [refused]

theorem createdTables_definitions :
    Database.createdTables (.createTable metaDefinition :: m.definitions) =
      metaDefinition :: m.schema.entities.map (·.tableDefinition) := by
  have indexes : ∀ ds : List IndexDefinition, Database.createdTables (ds.map .createIndex) = [] := by
    intro ds
    rw [Database.createdTables, List.filterMap_map, List.filterMap_eq_nil_iff]
    exact fun _ _ => rfl
  have entities : ∀ es : List Entity, Database.createdTables (es.flatMap entityDefinitions) =
      es.map (·.tableDefinition) := by
    intro es
    induction es with
    | nil => rfl
    | cons e rest ih =>
      rw [List.flatMap_cons, Database.createdTables, List.filterMap_append, List.map_cons, ← ih]
      exact congrArg (e.tableDefinition :: · ++ _) (indexes e.indexDefinitions)
  exact congrArg (metaDefinition :: ·) (entities m.schema.entities)

/-- A migration only creates. -/
theorem dropTable_not_mem_definitions (name : String) :
    .dropTable name ∉ .createTable metaDefinition :: m.definitions := by
  simp [definitions, entityDefinitions]

theorem createTable_mem_definitions {e : Entity} (known : e ∈ m.schema.entities) :
    .createTable e.tableDefinition ∈ .createTable metaDefinition :: m.definitions :=
  List.mem_cons_of_mem _ (List.mem_flatMap.mpr ⟨e, known, List.mem_cons_self⟩)

theorem sound_of_up (done : m.up.outcome db = (.ok (), db')) (sound : db.Sound) : db'.Sound := by
  obtain ⟨_, made, id, defined, stored⟩ := up_eq_ok.mp done
  obtain ⟨_, _, _, _, kept⟩ := Database.defineAll_eq_ok dropTable_not_mem_definitions defined
  exact (kept sound).insert stored

/-- The migration made a database of an empty one, with a table for each entity beside its own. -/
structure Creates (m : Migration) (db : Database) : Prop where
  done : m.up.outcome {} = (.ok (), db)
  tables : db.tables.length = m.schema.entities.length + 1

/-- What was made hosts the schema. -/
theorem Creates.hosts (created : m.Creates db) : Store.Hosts m.schema db := by
  obtain ⟨_, made, id, defined, stored⟩ := up_eq_ok.mp created.done
  obtain ⟨added, listed, width, tables, kept⟩ := Database.defineAll_eq_ok dropTable_not_mem_definitions defined
  obtain ⟨t, t', given, _, replaces, _, _, _⟩ := Database.insert_eq_ok stored
  have sound : made.Sound := kept Database.sound_empty
  rw [createdTables_definitions] at listed
  rw [show ({} : Database).tables = [] from rfl, List.nil_append] at tables
  -- As many tables as definitions, so none was left out.
  have whole : added = metaDefinition :: m.schema.entities.map (·.tableDefinition) := by
    refine listed.eq_of_length ?_
    have counted := created.tables
    rw [replaces.replaced, Database.setTable, List.length_map, tables, List.length_map] at counted
    simp [counted]
  have listed' : ∀ e ∈ m.schema.entities, e.tableDefinition ∈ added := by
    intro e known
    rw [whole]
    exact List.mem_cons_of_mem _ (List.mem_map.mpr ⟨e, known, rfl⟩)
  have widths : ∀ e ∈ m.schema.entities, e.columns.length ≤ Database.maxColumns := by
    intro e known
    simpa [Entity.tableDefinition] using width _ (listed' e known)
  refine ⟨sound_of_up created.done Database.sound_empty, replaces.consistent, fun e known => ?_, widths⟩
  have member : { definition := e.tableDefinition } ∈ made.tables := by
    rw [tables]
    exact List.mem_map.mpr ⟨_, listed' e known, rfl⟩
  have apart : foldCase e.tableName ≠ foldCase metaName := by
    have names := sound.names
    rw [tables, whole, List.map_cons, List.map_cons, List.nodup_cons] at names
    intro same
    exact names.1 (List.mem_map.mpr ⟨_, List.mem_map.mpr ⟨_, List.mem_map.mpr ⟨e, known, rfl⟩, rfl⟩, same⟩)
  refine ⟨_, ?_, rfl, Table.keeps_empty⟩
  rw [replaces.table?, if_neg apart]
  exact sound.table?_of_mem member

theorem ofCatalog_eq_ok {c : Catalog} :
    ofCatalog c = .ok m ↔ c.schema = .ok m.schema ∧ m.fingerprint = c.fingerprint := by
  rw [ofCatalog, Checks.bind_eq_ok]
  simp only [Checks.mapError_eq_ok]
  constructor
  · rintro ⟨s, registered, answer⟩
    obtain rfl := Except.ok.inj answer
    exact ⟨registered, rfl⟩
  · rintro ⟨registered, printed⟩
    exact ⟨m.schema, registered, by rw [← printed]; rfl⟩

theorem entities_of_schema {c : Catalog} {s : Schema} (registered : c.schema = .ok s) : s.entities = c.entities := by
  rw [Catalog.schema, Checks.mapError_eq_ok] at registered
  exact Schema.entities_of_foldlM registered

/-- The schema of a migration is one that was registered. -/
theorem consistent_of_ofCatalog {c : Catalog} (made : ofCatalog c = .ok m) : m.schema.Consistent := by
  obtain ⟨registered, _⟩ := ofCatalog_eq_ok.mp made
  rw [Catalog.schema, Checks.mapError_eq_ok] at registered
  exact (Schema.Reachable.listed c.entities registered).consistent

end Migration

end Tabular
