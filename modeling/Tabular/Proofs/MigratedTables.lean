import Tabular.Proofs.Creation
import Tabular.Proofs.FoundRows
import Tabular.Proofs.Sessions

/-!
# What a migration leaves and reports

After a creation a name stands for what it stood for before, or else for the first table of the migration that has it
(`table?_up`), and the fingerprint that is remembered is that of the migration (`stored_of_up`). The status tells of
each entity whether a table of its name exists and how many rows it has (`status_eq_ok`).
-/

namespace Tabular

open Sql Text

namespace Database

variable {db db' : Database} {d : TableDefinition} {ds : List Definition}

theorem table?_createTable (created : db.createTable d = .ok db') (name : String) :
    db'.table? name = (db.table? name).or (if sameName d.name name then some { definition := d } else none) := by
  cases here : db.table? d.name with
  | some t =>
    obtain ⟨_, rfl⟩ := (createTable_of_taken (by simp [here])).mp created
    by_cases same : sameName d.name name = true
    · rw [← table?_congr (sameName_iff.mp same), here, Option.some_or]
    · rw [if_neg same, Option.or_none]
  | none =>
    obtain ⟨_, _, _, _, rfl⟩ := (createTable_of_free here).mp created
    rw [table?, addTable, List.find?_append, List.find?_singleton, table?]
    rfl

theorem table?_createIndex {i : IndexDefinition} (created : db.createIndex i = .ok db') (name : String) :
    db'.table? name = db.table? name := by
  rw [table?, table?, createIndex_eq_ok created]

/-- Definitions that drop nothing leave what a name stood for, or else create the first table that has the name. -/
theorem table?_defineAll (creating : ∀ name, .dropTable name ∉ ds) (defined : db.defineAll ds = .ok db')
    (name : String) : db'.table? name =
      (db.table? name).or (((createdTables ds).find? (sameName ·.name name)).map ({ definition := · })) := by
  induction ds generalizing db with
  | nil =>
    obtain rfl := Except.ok.inj defined
    exact Option.or_none.symm
  | cons first rest ih =>
    obtain ⟨next, made, later⟩ := Checks.bind_eq_ok.mp defined
    rw [ih (fun name => List.not_mem_of_not_mem_cons (creating name)) later]
    cases first with
    | createTable d =>
      rw [table?_createTable made, Option.or_assoc]
      congr 1
      show _ = ((d :: createdTables rest).find? _).map _
      rw [List.find?_cons]
      cases sameName d.name name <;> rfl
    | createIndex i =>
      rw [table?_createIndex made]
      rfl
    | dropTable name => exact absurd List.mem_cons_self (creating name)

end Database

namespace Migration

variable {m : Migration} {db db' : Database}

theorem table?_up (done : m.up.outcome db = (.ok (), db')) (name : String) :
    (db'.table? name).map (·.definition) = ((db.table? name).map (·.definition)).or
      ((metaDefinition :: m.schema.entities.map (·.tableDefinition)).find? (sameName ·.name name)) := by
  obtain ⟨_, made, row, defined, inserted⟩ := up_eq_ok.mp done
  obtain ⟨t, t', _, _, replaces, _⟩ := Database.insert_eq_ok inserted
  have kept : (db'.table? name).map (·.definition) = (made.table? name).map (·.definition) := by
    rw [replaces.table?]
    by_cases same : foldCase name = foldCase metaName
    · rw [if_pos same, Database.table?_congr same, replaces.found, Option.map_some, replaces.definition]
      rfl
    · rw [if_neg same]
  have back : ((·.definition : Table → TableDefinition) ∘ ({ definition := · })) = id := rfl
  rw [kept, Database.table?_defineAll dropTable_not_mem_definitions defined, createdTables_definitions, Option.map_or,
    Option.map_map, back, Option.map_id, id]

/-! ## The fingerprint that is remembered -/

/-- What is asked of the row that remembers the fingerprint. -/
abbrev remembering : List Condition :=
  [⟨"key", .compare .equal (.text fingerprintKey)⟩]

section Remembered

variable {t : Table}

theorem target?_key (own : t.definition = metaDefinition) : t.target? "key" = some (.column 0 .text) := by
  rw [Table.target?, Table.columns, own]
  decide +kernel

theorem target?_value (own : t.definition = metaDefinition) : t.target? "value" = some (.column 1 .text) := by
  rw [Table.target?, Table.columns, own]
  decide +kernel

theorem idIndex?_eq_none (own : t.definition = metaDefinition) : t.idIndex? = none := by
  rw [Table.idIndex?, Table.columns, own]
  decide +kernel

theorem satisfies_remembering (own : t.definition = metaDefinition) (r : Record) :
    t.satisfies remembering r = (r.cells.getD 0 .null).same (.text fingerprintKey) := by
  simp only [Table.satisfies, List.all_cons, List.all_nil, Bool.and_true, Table.passes, Table.cell, Table.operand,
    target?_key own]
  rfl

/-- Rows with the same key clash. -/
theorem same_of_clashes {r u : Record} (own : t.definition = metaDefinition) (apart : t.clashes r u = false) :
    (r.cells.getD 0 .null).same (u.cells.getD 0 .null) = false := by
  have distinguishes : (0, { name := "key", storage := .text, isKey := true, notNull := true }) ∈ t.distinguishing := by
    rw [Table.distinguishing, idIndex?_eq_none own, Table.columns, own]
    decide +kernel
  rw [Table.clashes, Bool.or_eq_false_iff, List.any_eq_false] at apart
  have different := apart.2 _ distinguishes
  exact Bool.eq_false_iff.mpr different

theorem withId_newCells (own : t.definition = metaDefinition) (n : Int64) (key value : String) :
    t.withId n (Database.newCells t [(.column 0 .text, .text key), (.column 1 .text, .text value)]) =
      ⟨n, [.text key, .text value]⟩ := by
  rw [Table.withId, idIndex?_eq_none own, Database.newCells, Table.columns, own]
  rfl

theorem given_of_resolved {given : List (Table.Target × Cell)} {key value : String} (own : t.definition = metaDefinition)
    (resolved : Database.Resolved t [("key", .text key), ("value", .text value)] given) :
    given = [(.column 0 .text, .text key), (.column 1 .text, .text value)] := by
  obtain ⟨⟨_, _⟩, _, ⟨first, rfl⟩, others, rfl⟩ := List.forall₂_cons_left_iff.mp resolved
  obtain ⟨⟨_, _⟩, _, ⟨last, rfl⟩, nothing, rfl⟩ := List.forall₂_cons_left_iff.mp others
  obtain rfl := List.forall₂_nil_left_iff.mp nothing
  obtain rfl := Option.some.inj ((target?_key own).symm.trans first)
  obtain rfl := Option.some.inj ((target?_value own).symm.trans last)
  rfl

/-- The row that remembers a fingerprint takes the place of the one that remembered another. -/
theorem filter_of_insertRow {given : List (Table.Target × Cell)} {n : Int64} {done : Option Int64} {t' : Table}
    {value : String} (own : t.definition = metaDefinition)
    (own' : t'.definition = metaDefinition)
    (resolved : Database.Resolved t [("key", .text fingerprintKey), ("value", .text value)] given)
    (placed : Database.insertRow t .replace (t.withId n (Database.newCells t given)) = .ok (done, t')) :
    t'.rows.filter (t'.satisfies remembering) = [⟨n, [.text fingerprintKey, .text value]⟩] := by
  obtain rfl := given_of_resolved own resolved
  rw [withId_newCells own] at placed
  rcases Database.insertRow_eq_ok placed with ⟨ignored, _⟩ | ⟨kept, _, _, _, apart, _, rfl⟩
  · cases ignored
  rw [funext (satisfies_remembering own')]
  have others : ∀ u ∈ kept, ¬ (u.cells.getD 0 .null).same (.text fingerprintKey) = true := by
    intro u member
    rw [Cell.same_comm]
    exact Bool.eq_false_iff.mp (same_of_clashes own (apart u member))
  have only := (Table.place_perm ⟨n, [.text fingerprintKey, .text value]⟩ kept).filter
    fun u => (u.cells.getD 0 .null).same (.text fingerprintKey)
  rw [List.filter_cons_of_pos (by exact Cell.same_text.mpr rfl), List.filter_eq_nil_iff.mpr others] at only
  exact List.perm_singleton.mp only

theorem mem_of_hasTable {name : String} (present : hasTable db name = true) : ∃ t ∈ db.tables, t.name = name := by
  obtain ⟨t, member, named⟩ := List.any_eq_true.mp present
  exact ⟨t, member, by simpa using named⟩

theorem hasTable_of_table? {name : String} (found : db.table? name = some t) (named : t.name = name) :
    hasTable db name = true :=
  List.any_eq_true.mpr ⟨t, Database.mem_of_table? found, by simpa using named⟩

/-- The table that remembers the fingerprint was made for it, if there is one. -/
def Remembers (db : Database) : Prop :=
  ∀ t, db.table? metaName = some t → t.definition = metaDefinition

theorem Remembers.up (own : Remembers db) (done : m.up.outcome db = (.ok (), db')) :
    ∃ t, db'.table? metaName = some t ∧ t.definition = metaDefinition := by
  have made := table?_up done metaName
  cases before : db.table? metaName with
  | some t =>
    rw [before, Option.map_some, Option.some_or, own t before] at made
    exact Option.map_eq_some_iff.mp made
  | none =>
    rw [before, Option.map_none, Option.none_or, List.find?_cons_of_pos (by exact sameName_self metaName)] at made
    exact Option.map_eq_some_iff.mp made

/-- After a creation the fingerprint that is remembered is that of the migration. -/
theorem stored_of_up (own : Remembers db) (done : m.up.outcome db = (.ok (), db')) :
    stored.outcome db' = (.ok (some m.fingerprint), db') := by
  obtain ⟨t', found, made⟩ := own.up done
  obtain ⟨_, _, _, _, inserted⟩ := up_eq_ok.mp done
  obtain ⟨t, u, given, n, replaces, resolved, _, placed⟩ := Database.insert_eq_ok inserted
  obtain rfl : u = t' := Option.some.inj (replaces.table?_self.symm.trans found)
  have only := filter_of_insertRow (replaces.definition.symm.trans made) made resolved placed
  have selected : db'.select ⟨metaName, ["value"], remembering, [], {}⟩ = .ok [[.text m.fingerprint]] := by
    have readable : db'.readable metaName = .ok u := by rw [Database.readable, found]
    refine Database.select_iff.mpr ⟨Database.withinLimits_lookup _ (by decide) rfl, u, readable, ?_⟩
    dsimp only
    rw [only, Table.sort, List.mergeSort_singleton]
    show [[u.cell "value" _]] = _
    rw [Table.cell, target?_value made]
    rfl
  have present : hasTable db' metaName = true := hasTable_of_table? found (congrArg TableDefinition.name made)
  rw [stored, Session.outcome_bind]
  show Session.outcome (if hasTable db' metaName = true then _ else _) db' = _
  rw [if_pos present, Session.outcome_bind, Session.outcome_ask, selected]
  rfl

end Remembered

theorem outcome_mapM {α β : Type} {f : α → Session β} {g : α → β}
    (each : ∀ a, (f a).outcome db = (.ok (g a), db)) (as : List α) :
    Session.outcome (as.mapM f) db = (.ok (as.map g), db) := by
  induction as with
  | nil => rfl
  | cons a rest ih =>
    rw [List.mapM_cons, Session.outcome_bind, each]
    dsimp only
    rw [Session.outcome_bind, ih]
    rfl

/-- What is found of the table of an entity. A table of a name in another case is not found. -/
def presence (db : Database) (e : Entity) : TableStatus :=
  if hasTable db e.tableName then ⟨e.name, e.tableName, true, (e.rowsIn db).length⟩
  else ⟨e.name, e.tableName, false, 0⟩

theorem outcome_tableStatus (e : Entity) : (tableStatus e).outcome db = (.ok (presence db e), db) := by
  rw [tableStatus, Session.outcome_bind]
  show Session.outcome (if hasTable db e.tableName = true then _ else _) db = _
  by_cases present : hasTable db e.tableName = true
  · obtain ⟨u, member, named⟩ := mem_of_hasTable present
    obtain ⟨t, found⟩ : ∃ t, db.table? e.tableName = some t := by
      rw [← Option.isSome_iff_exists, Option.isSome_iff_ne_none]
      intro none
      exact Database.table?_eq_none.mp none u member (congrArg foldCase named)
    have counted : db.count e.tallyAll = .ok t.rows.length := by
      refine Database.count_iff.mpr ⟨Database.withinLimits_countAll, t, Database.readable_eq found, ?_⟩
      show t.rows.countP (fun _ => true) = _
      rw [List.countP_true]
    rw [if_pos present, presence, if_pos present, Session.outcome_bind, Session.outcome_ask, counted,
      Entity.rowsIn_eq found]
    rfl
  · rw [if_neg present, presence, if_neg present]
    rfl

theorem reading_stored : stored.Reading := by
  refine Session.Reading.bind (fun _ => rfl) fun db => ?_
  by_cases present : hasTable db metaName = true
  · rw [if_pos present]
    refine (Session.reading_ask _).bind fun rows => ?_
    split
    · exact Session.reading_pure _
    · exact Session.reading_pure _
    · exact Session.reading_throw _
  · rw [if_neg present]
    exact Session.reading_pure none

theorem status_eq_ok {st : Status} : m.status.outcome db = (.ok st, db') ↔
    st.tables = m.schema.entities.map (presence db) ∧ st.fingerprint = m.fingerprint ∧
      stored.outcome db = (.ok st.stored, db) ∧ db' = db := by
  rw [status, Session.outcome_bind, outcome_mapM outcome_tableStatus]
  dsimp only
  rw [Session.bind_eq_ok]
  constructor
  · rintro ⟨answer, after, asked, last⟩
    obtain rfl : after = db := (congrArg Prod.snd asked).symm.trans (reading_stored db)
    have answered : Status.mk (m.schema.entities.map (presence after)) answer m.fingerprint = st :=
      Except.ok.inj (congrArg Prod.fst last)
    subst answered
    exact ⟨rfl, rfl, asked, (congrArg Prod.snd last).symm⟩
  · rintro ⟨tables, fingerprint, asked, rfl⟩
    refine ⟨st.stored, db', asked, ?_⟩
    rw [← tables, ← fingerprint]
    rfl

end Migration

end Tabular
