import Tabular.Proofs.Creation

/-!
# Migrations that fail

The definitions of a migration are one transaction: a creation or a removal that fails has no effect. A removal that
succeeds takes away the tables of the migration with their indexes and nothing else (`down_eq_ok`). A refresh is a
removal and a creation, so that one that fails has either no effect or that of the removal (`perform_eq_error`).
-/

namespace Tabular

open Sql Text

namespace Database

variable {db db' : Database} {names more : List String}

/-- The database without the tables of the given names and without the indexes of these tables. -/
def without (db : Database) (names : List String) : Database :=
  { db with
    tables := db.tables.filter fun t => !names.any (sameName t.name)
    indexes := db.indexes.filter fun i => !((db.table? i.table).isSome && names.any (sameName i.table)) }

theorem any_sameName_congr {a b : String} (same : foldCase a = foldCase b) :
    names.any (sameName a) = names.any (sameName b) := by
  have tests : sameName a = sameName b := by
    funext c
    rw [sameName, sameName, same]
  rw [tests]

theorem table?_without (name : String) :
    (db.without names).table? name = if names.any (sameName name) then none else db.table? name := by
  rw [table?, without, List.find?_filter]
  by_cases dropped : names.any (sameName name) = true
  · rw [if_pos dropped, List.find?_eq_none]
    intro t _ found
    obtain ⟨kept, same⟩ : names.any (sameName t.name) = false ∧ sameName t.name name = true := by simpa using found
    rw [any_sameName_congr (sameName_iff.mp same), dropped] at kept
    cases kept
  · rw [if_neg dropped, table?]
    congr 1
    funext t
    by_cases same : sameName t.name name = true
    · simp [any_sameName_congr (sameName_iff.mp same), dropped]
    · simp [same]

theorem without_nil : db.without [] = db := by
  simp [without]

theorem without_without : (db.without names).without more = db.without (names ++ more) := by
  have tables : ((db.without names).without more).tables = (db.without (names ++ more)).tables := by
    simp only [without, List.filter_filter, List.any_append, Bool.not_or, Bool.and_comm]
  have indexes : ((db.without names).without more).indexes = (db.without (names ++ more)).indexes := by
    rw [without]
    simp only [table?_without]
    rw [without, without, List.filter_filter]
    refine List.filter_congr fun i _ => ?_
    rw [List.any_append]
    cases names.any (sameName i.table) <;> simp
  exact Database.ext tables indexes rfl

private theorem any_singleton (name a : String) : [name].any (sameName a) = sameName a name := by
  simp

theorem without_of_none {name : String} (none : db.table? name = none) : db.without [name] = db := by
  have tables : ∀ t ∈ db.tables, (!sameName t.name name) = true := by
    intro t member
    have apart := table?_eq_none.mp none t member
    simpa [sameName] using apart
  have indexes : ∀ i ∈ db.indexes, (!((db.table? i.table).isSome && sameName i.table name)) = true := by
    intro i _
    by_cases same : sameName i.table name = true
    · simp [table?_congr (sameName_iff.mp same), none]
    · simp [same]
  simp only [without, any_singleton]
  rw [List.filter_eq_self.mpr tables, List.filter_eq_self.mpr indexes]

theorem dropTable_of_isSome {name : String} (present : (db.table? name).isSome = true) :
    db.dropTable name = (db.without [name]).requireConsistent := by
  have indexes : ∀ i ∈ db.indexes,
      (!sameName i.table name) = !((db.table? i.table).isSome && sameName i.table name) := by
    intro i _
    by_cases same : sameName i.table name = true
    · simp [table?_congr (sameName_iff.mp same), present]
    · simp [same]
  have known : ¬ (db.table? name).isNone = true := by simpa using Option.isSome_iff_ne_none.mp present
  simp only [without, any_singleton]
  rw [dropTable, if_neg known, List.filter_congr indexes]

theorem dropTable_of_none {name : String} (none : db.table? name = none) :
    db.dropTable name = if db.keeps name then .error (.keptTable name) else .ok db := by
  rw [dropTable, if_pos (by simp [none])]

/-- A table is dropped with its indexes, if it exists. -/
theorem dropTable_eq_ok {name : String} (dropped : db.dropTable name = .ok db') : db' = db.without [name] := by
  by_cases present : (db.table? name).isSome = true
  · rw [dropTable_of_isSome present] at dropped
    exact (requireConsistent_eq_ok.mp dropped).2
  · have none := Option.not_isSome_iff_eq_none.mp present
    rw [dropTable_of_none none] at dropped
    by_cases kept : db.keeps name = true
    · rw [if_pos kept] at dropped
      cases dropped
    · rw [if_neg kept] at dropped
      rw [without_of_none none, Except.ok.inj dropped]

/-- Whether nothing but references to its rows can keep a table from being dropped: it exists, or it is none of the
database's own. -/
def droppable (db : Database) (name : String) : Bool :=
  (db.table? name).isSome || !db.keeps name

theorem dropTable_of_isConsistent {name : String} (ordinary : db.droppable name = true)
    (consistent : (db.without [name]).isConsistent = true) : db.dropTable name = .ok (db.without [name]) := by
  by_cases present : (db.table? name).isSome = true
  · rw [dropTable_of_isSome present]
    exact requireConsistent_eq_ok.mpr ⟨consistent, rfl⟩
  · have none := Option.not_isSome_iff_eq_none.mp present
    have free : ¬ db.keeps name = true := by simpa [droppable, none] using ordinary
    rw [dropTable_of_none none, if_neg free, without_of_none none]

/-- Tables that are dropped one after the other. -/
theorem defineAll_dropTable (dropped : db.defineAll (names.map .dropTable) = .ok db') : db' = db.without names := by
  induction names generalizing db with
  | nil =>
    obtain rfl := Except.ok.inj dropped
    exact without_nil.symm
  | cons name rest ih =>
    obtain ⟨next, first, later⟩ := Checks.bind_eq_ok.mp dropped
    rw [ih later, dropTable_eq_ok first, without_without, List.singleton_append]

theorem defineAll_dropTable_of_isConsistent
    (ordinary : ∀ dropped name, dropped ++ [name] <+: names → (db.without dropped).droppable name = true)
    (consistent : ∀ dropped, dropped <+: names → (db.without dropped).isConsistent = true) :
    db.defineAll (names.map .dropTable) = .ok (db.without names) := by
  induction names generalizing db with
  | nil =>
    rw [without_nil]
    rfl
  | cons name rest ih =>
    have here : db.droppable name = true := by simpa [without_nil] using ordinary [] name ⟨rest, rfl⟩
    have first := dropTable_of_isConsistent here (consistent [name] ⟨rest, rfl⟩)
    have later : (db.without [name]).defineAll (rest.map .dropTable) = .ok ((db.without [name]).without rest) := by
      refine ih (fun dropped other initial => ?_) fun dropped initial => ?_
      · rw [without_without]
        exact ordinary _ other ((List.prefix_cons_inj name).mpr initial)
      · rw [without_without]
        exact consistent _ ((List.prefix_cons_inj name).mpr initial)
    rw [without_without, List.singleton_append] at later
    exact Checks.bind_eq_ok.mpr ⟨_, first, later⟩

/-- Tables that do not exist are dropped without effect, up to the first name of a table of the database's own. -/
theorem defineAll_dropTable_of_none (absent : ∀ name ∈ names, db.table? name = none) :
    db.defineAll (names.map .dropTable) =
      (names.find? db.keeps).elim (.ok db) fun name => .error (.keptTable name) := by
  induction names with
  | nil => rfl
  | cons name rest ih =>
    obtain ⟨here, others⟩ := List.forall_mem_cons.mp absent
    show (db.dropTable name >>= fun next => next.defineAll (rest.map .dropTable)) = _
    rw [dropTable_of_none here, List.find?_cons]
    by_cases kept : db.keeps name = true
    · rw [kept]
      rfl
    · rw [if_neg kept, Bool.eq_false_iff.mpr kept]
      exact ih others

end Database

namespace Migration

variable {m : Migration} {db db' : Database} {f : StoreFault}

/-- The names of the tables of a migration, in the order in which they are dropped. -/
def tableNames (m : Migration) : List String :=
  m.schema.entities.reverse.map (·.tableName) ++ [metaName]

theorem removals_eq (m : Migration) : m.removals = m.tableNames.map .dropTable := by
  rw [removals, tableNames, List.map_append, List.map_map]
  rfl

theorem outcome_down (m : Migration) (db : Database) : m.down.outcome db =
    match db.defineAll m.removals with
    | .ok db' => (.ok (), db')
    | .error g => (.error (.removal g), db) := by
  rw [down, Session.outcome_bind]
  show Session.outcome _ db = _
  cases db.defineAll m.removals <;> rfl

/-- A removal leaves all other tables and their indexes as they were. -/
theorem down_eq_ok (done : m.down.outcome db = (.ok (), db')) : db' = db.without m.tableNames := by
  rw [outcome_down] at done
  cases removed : db.defineAll m.removals with
  | error g =>
    rw [removed] at done
    cases done
  | ok after =>
    rw [removed] at done
    obtain rfl : after = db' := congrArg Prod.snd done
    rw [removals_eq] at removed
    exact Database.defineAll_dropTable removed

theorem down_eq_error (failed : m.down.outcome db = (.error f, db')) : db' = db ∧ ∃ g, f = .removal g := by
  rw [outcome_down] at failed
  cases removed : db.defineAll m.removals with
  | error g =>
    rw [removed] at failed
    obtain ⟨rfl, rfl⟩ : StoreFault.removal g = f ∧ db = db' := by simpa using failed
    exact ⟨rfl, g, rfl⟩
  | ok after =>
    rw [removed] at failed
    cases failed

theorem up_eq_error (failed : m.up.outcome db = (.error f, db')) : db' = db ∧ ∀ g, f ≠ .removal g := by
  rw [outcome_up] at failed
  split at failed
  case h_1 g _ =>
    obtain ⟨rfl, rfl⟩ : StoreFault.mapping g = f ∧ db = db' := by simpa using failed
    exact ⟨rfl, nofun⟩
  case h_2 ds _ =>
    split at failed
    case h_1 g _ =>
      obtain ⟨rfl, rfl⟩ : StoreFault.creation g = f ∧ db = db' := by simpa using failed
      exact ⟨rfl, nofun⟩
    case h_2 made _ =>
      split at failed
      case h_1 g _ =>
        obtain ⟨rfl, rfl⟩ : StoreFault.database g = f ∧ db = db' := by simpa using failed
        exact ⟨rfl, nofun⟩
      case h_2 => cases failed

/-! ## Operations -/

/-- What can be done with the tables of a catalog. -/
inductive Action where
  | up
  | down
  | refresh
deriving DecidableEq

def perform (m : Migration) : Action → Session Unit
  | .up => m.up
  | .down => m.down
  | .refresh => m.refresh

theorem refresh_eq_error (failed : m.refresh.outcome db = (.error f, db')) :
    m.down.outcome db = (.error f, db') ∨
      m.down.outcome db = (.ok (), db') ∧ m.up.outcome db' = (.error f, db') := by
  rw [refresh, Session.outcome_bind] at failed
  rcases removed : m.down.outcome db with ⟨g | _, between⟩
  · rw [removed] at failed
    exact .inl failed
  · rw [removed] at failed
    obtain ⟨rfl, _⟩ := up_eq_error failed
    exact .inr ⟨rfl, failed⟩

/-- An operation that fails has no effect, unless it is a refresh whose removal succeeded: then the tables of the
migration are gone and everything else is as it was. The fault tells which of the two it is. -/
theorem perform_eq_error {a : Action} (failed : (m.perform a).outcome db = (.error f, db')) :
    (a ≠ .refresh ∨ ∃ g, f = .removal g) ∧ db' = db ∨
      a = .refresh ∧ (∀ g, f ≠ .removal g) ∧ m.down.outcome db = (.ok (), db') ∧
        m.up.outcome db' = (.error f, db') ∧ db' = db.without m.tableNames := by
  cases a with
  | up => exact .inl ⟨.inl (by simp), (up_eq_error failed).1⟩
  | down => exact .inl ⟨.inl (by simp), (down_eq_error failed).1⟩
  | refresh =>
    rcases refresh_eq_error failed with unremoved | ⟨removed, uncreated⟩
    · obtain ⟨rfl, removal⟩ := down_eq_error unremoved
      exact .inl ⟨.inr removal, rfl⟩
    · exact .inr ⟨rfl, (up_eq_error uncreated).2, removed, uncreated, down_eq_ok removed⟩

/-- A refresh drops the rows of a table before it finds that another table cannot be created. -/
theorem perform_eq_error_reserved :
    let key : Column := { name := "id", kind := .integer, isKey := true }
    let note : Entity := { name := "Note", columns := [key] }
    let log : Entity := { name := "Log", table := some "sqlite_log", columns := [key] }
    let m : Migration := ⟨⟨[note, log], [("Log", 1), ("Note", 0)]⟩, ""⟩
    let other : Table := { definition := ⟨"other", []⟩, rows := [⟨1, []⟩] }
    let db : Database := { tables := [{ definition := note.tableDefinition, rows := [⟨1, [.integer 1]⟩] }, other] }
    let left : Database := { tables := [other] }
    let f : StoreFault := .creation (.reservedName "sqlite_log")
    (m.perform .refresh).outcome db = (.error f, left) ∧ m.down.outcome db = (.ok (), left) ∧
      left = db.without m.tableNames := by
  intro key note log m other db left f
  have failed : (m.perform .refresh).outcome db = (.error f, left) := by decide +kernel
  obtain ⟨(ordinary | ⟨g, removal⟩), _⟩ | ⟨_, _, removed, _, same⟩ := perform_eq_error failed
  · exact absurd rfl ordinary
  · exact absurd removal (by simp [f])
  · exact ⟨failed, removed, same⟩

/-- A catalog that is accepted, and a refresh that fails after its removal. -/
theorem perform_eq_error_rows_lost :
    ¬ ∀ (c : Catalog) (m : Migration) (a : Action) (db db' : Database) (f : StoreFault),
      ofCatalog c = .ok m → (m.perform a).outcome db = (.error f, db') → db' = db := by
  intro unchanged
  let key : Column := { name := "id", kind := .integer, isKey := true }
  let note : Entity := { name := "Note", columns := [key] }
  let log : Entity := { name := "Log", table := some "sqlite_log", columns := [key] }
  let c : Catalog := ⟨"1", [note, log]⟩
  let m : Migration := ⟨⟨[note, log], [("Log", 1), ("Note", 0)]⟩, c.fingerprint⟩
  let db : Database := { tables := [{ definition := note.tableDefinition, rows := [⟨1, [.integer 1]⟩] }] }
  have made : ofCatalog c = .ok m := ofCatalog_eq_ok.mpr ⟨by decide +kernel, rfl⟩
  have removed : db.defineAll m.removals = .ok {} := by decide +kernel
  have refused : Database.defineAll {} (.createTable metaDefinition :: m.definitions) =
      .error (.reservedName "sqlite_log") := by decide +kernel
  have failed : (m.perform .refresh).outcome db = (.error (.creation (.reservedName "sqlite_log")), {}) := by
    show m.refresh.outcome db = _
    rw [refresh, Session.outcome_bind, outcome_down, removed]
    exact outcome_up_of_refused (consistent_of_ofCatalog made).valid refused
  exact absurd (unchanged c m .refresh db {} _ made failed) (by decide +kernel)

end Migration

end Tabular
