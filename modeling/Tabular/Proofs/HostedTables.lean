import Tabular.Proofs.EntityRows
import Tabular.Proofs.Registration
import Tabular.Proofs.StoreRuns

/-!
# Databases that host a schema

A database hosts a schema when each entity has the table made for it, all rows in these tables are what the store
puts there, and no reference leads nowhere. Every operation of a store keeps it so (`Reaches.hosts`), and the
largest id that a table ever held is not forgotten (`Reaches.table?`).
-/

namespace Tabular

open Sql Text

theorem Schema.Consistent.keyAt {s : Schema} (consistent : s.Consistent) {e : Entity} (known : e ∈ s.entities) :
    ∃ key k, e.KeyAt key k :=
  (Entity.violations_eq_nil.mp (consistent.valid e known)).keyAt

namespace Entity

/-- The rows in the table of an entity. -/
def rowsIn (e : Entity) (db : Database) : List Record :=
  (db.table? e.tableName).elim [] (·.rows)

/-- The keys in the table of an entity. -/
def keysIn (e : Entity) (db : Database) : List Cell :=
  (e.rowsIn db).map fun r => (e.keyIndex?.bind (r.cells[·]?)).getD .null

theorem rowsIn_eq {e : Entity} {db : Database} {t : Table} (found : db.table? e.tableName = some t) :
    e.rowsIn db = t.rows := by
  rw [rowsIn, found, Option.elim_some]

theorem mem_keysIn {e : Entity} {db : Database} {t : Table} {key : Nat} {k : Column} {v : Cell}
    (keyAt : e.KeyAt key k) (found : db.table? e.tableName = some t) :
    v ∈ e.keysIn db ↔ ∃ r ∈ t.rows, r.cells.getD key .null = v := by
  rw [keysIn, rowsIn_eq found, List.mem_map]
  simp only [keyAt.index, Option.bind_some, List.getD_eq_getElem?_getD]

end Entity

namespace Store

variable {s : Schema} {d e : Entity} {db db' : Database} {t t' : Table}

/-- A statement puts one table in the place of another of the same definition. -/
theorem Change.replaces (change : Change s db db') :
    ∃ name t t', Database.Replaces db db' name t t' ∧ (t.Sound → t'.Sound) ∧ t.lastId ≤ t'.lastId := by
  cases change with
  | inserted _ _ _ done =>
    obtain ⟨t, t', given, id, replaces, _, _, placed⟩ := Database.insert_eq_ok done
    refine ⟨_, t, t', replaces, fun sound => sound.insertRow Database.length_newCells placed, ?_⟩
    rcases Database.insertRow_eq_ok placed with ⟨_, _, rfl⟩ | ⟨_, _, _, _, _, _, rfl⟩
    · exact Database.lastId_le_noteId t _
    · exact Database.lastId_le_noteId t _
  | revised _ _ _ done =>
    obtain ⟨t, rows, _, replaces, _, sound, _⟩ := Database.update_eq_ok done
    exact ⟨_, t, _, replaces, sound, Int64.le_refl _⟩
  | assigned _ _ done =>
    obtain ⟨t, rows, _, replaces, _, sound, _⟩ := Database.update_eq_ok done
    exact ⟨_, t, _, replaces, sound, Int64.le_refl _⟩
  | removed _ _ done =>
    obtain ⟨t, replaces, _⟩ := Database.delete_eq_ok done
    exact ⟨_, t, _, replaces, fun sound => sound.sublist List.filter_sublist t.lastId, Int64.le_refl _⟩

theorem Reaches.sound (reached : Reaches s db db') (sound : db.Sound) : db'.Sound := by
  refine reached.invariant (fun _ _ before change => ?_) sound
  obtain ⟨_, _, _, replaces, kept, _⟩ := change.replaces
  exact replaces.sound before kept

theorem Reaches.sequence (reached : Reaches s db db') : db'.sequence = db.sequence := by
  refine reached.invariant (P := fun after => after.sequence = db.sequence) (fun _ _ before change => ?_) rfl
  obtain ⟨_, _, _, replaces, _⟩ := change.replaces
  rw [replaces.replaced]
  exact before

/-- The table that a name stands for keeps its definition and the largest id that was used in it. -/
theorem Reaches.table? (reached : Reaches s db db') {name : String} (found : db.table? name = some t) :
    ∃ t', db'.table? name = some t' ∧ t'.definition = t.definition ∧ t.lastId ≤ t'.lastId := by
  refine reached.invariant (P := fun db => ∃ t', db.table? name = some t' ∧ t'.definition = t.definition ∧
    t.lastId ≤ t'.lastId) ?_ ⟨t, found, rfl, Int64.le_refl _⟩
  rintro before after ⟨u, found, definition, grown⟩ change
  -- The statement concerned this table, under whatever spelling of its name, or another.
  obtain ⟨other, v, v', replaces, _, larger⟩ := change.replaces
  rw [replaces.table?]
  by_cases same : foldCase name = foldCase other
  · obtain rfl : u = v := Option.some.inj (found.symm.trans ((Database.table?_congr same).trans replaces.found))
    rw [if_pos same]
    exact ⟨v', rfl, replaces.definition.trans definition, Int64.le_trans grown larger⟩
  · rw [if_neg same]
    exact ⟨u, found, definition, grown⟩

/-! ## Databases that host a schema -/

/-- A database in which every entity has the table made for it, with rows of the store's making. -/
structure Hosts (s : Schema) (db : Database) : Prop where
  sound : db.Sound
  consistent : db.isConsistent = true
  tables : ∀ e ∈ s.entities, ∃ t, db.table? e.tableName = some t ∧ t.definition = e.tableDefinition ∧ t.Keeps e
  width : ∀ e ∈ s.entities, e.columns.length ≤ Database.maxColumns

namespace Hosts

variable {key : Nat} {k : Column}

theorem table (hosts : Hosts s db) (known : e ∈ s.entities) (keyAt : e.KeyAt key k)
    (found : db.table? e.tableName = some t) : t.For e key k ∧ t.Keeps e := by
  obtain ⟨u, found', definition, keeps⟩ := hosts.tables e known
  obtain rfl : t = u := Option.some.inj (found.symm.trans found')
  exact ⟨⟨hosts.sound.of_table? found, definition, keyAt, hosts.width e known⟩, keeps⟩

/-- The table of a registered entity. -/
theorem exists_table (hosts : Hosts s db) (consistent : s.Consistent) (known : e ∈ s.entities) :
    ∃ t key k, db.table? e.tableName = some t ∧ t.For e key k ∧ t.Keeps e := by
  obtain ⟨key, k, keyAt⟩ := consistent.keyAt known
  obtain ⟨t, found, _⟩ := hosts.tables e known
  exact ⟨t, key, k, found, hosts.table known keyAt found⟩

/-- Entities whose tables have one name are one entity, also when the names differ in case. -/
theorem eq_of_foldCase (hosts : Hosts s db) (consistent : s.Consistent) (first : d ∈ s.entities)
    (second : e ∈ s.entities) (same : foldCase d.tableName = foldCase e.tableName) : d = e := by
  obtain ⟨t, found, definition, _⟩ := hosts.tables d first
  obtain ⟨u, found', definition', _⟩ := hosts.tables e second
  obtain rfl : t = u := Option.some.inj (found.symm.trans ((Database.table?_congr same).trans found'))
  -- The definition names the table, and tables tell entities apart.
  have named : d.tableName = e.tableName := congrArg TableDefinition.name (definition.symm.trans definition')
  exact List.inj_on_of_nodup_map consistent.tables first second named

/-- A change in the table of an entity concerns no rows of another entity. -/
theorem rowsIn_of_replaces (hosts : Hosts s db) (consistent : s.Consistent) (known : e ∈ s.entities)
    (replaces : Database.Replaces db db' e.tableName t t') (other : d ∈ s.entities) (apart : d ≠ e) :
    d.rowsIn db' = d.rowsIn db := by
  have elsewhere : foldCase d.tableName ≠ foldCase e.tableName := fun same =>
    apart (hosts.eq_of_foldCase consistent other known same)
  rw [Entity.rowsIn, Entity.rowsIn, replaces.table?, if_neg elsewhere]

/-- A change in the table of an entity concerns no other entity. -/
theorem replace (hosts : Hosts s db) (consistent : s.Consistent) (known : d ∈ s.entities)
    (replaces : Database.Replaces db db' d.tableName t t') (sound : t.Sound → t'.Sound) (keeps : t'.Keeps d) :
    Hosts s db' where
  sound := replaces.sound hosts.sound sound
  consistent := replaces.consistent
  tables := by
    intro e member
    obtain ⟨u, found, definition, kept⟩ := hosts.tables e member
    rw [replaces.table?]
    by_cases same : foldCase e.tableName = foldCase d.tableName
    · obtain rfl := hosts.eq_of_foldCase consistent member known same
      obtain rfl : t = u := Option.some.inj (replaces.found.symm.trans found)
      rw [if_pos same]
      exact ⟨t', rfl, replaces.definition.trans definition, keeps⟩
    · rw [if_neg same]
      exact ⟨u, found, definition, kept⟩
  width := hosts.width

theorem update {q : Revision} {n : Nat} (hosts : Hosts s db) (consistent : s.Consistent) (known : d ∈ s.entities)
    (keyAt : d.KeyAt key k) (revises : d.Revises k q) (updated : db.update q = .ok (n, db')) : Hosts s db' := by
  obtain ⟨t, rows, given, replaces, resolved, sound, origins⟩ := Database.update_eq_ok updated
  rw [revises.table] at replaces
  obtain ⟨table, keeps⟩ := hosts.table known keyAt replaces.found
  exact hosts.replace consistent known replaces sound (keeps.update table revises resolved origins)

theorem change (hosts : Hosts s db) (consistent : s.Consistent) (change : Change s db db') : Hosts s db' := by
  cases change with
  | @inserted d _ _ _ i _ _ known encoded asked done =>
    obtain ⟨key, k, keyAt⟩ := consistent.keyAt known
    obtain ⟨t, t', given, id, replaces, resolved, chosen, placed⟩ := Database.insert_eq_ok done
    have own : i.table = d.tableName := by rw [((Entity.insertion_eq_ok keyAt.index).mp asked).2]
    rw [own] at replaces
    obtain ⟨table, keeps⟩ := hosts.table known keyAt replaces.found
    exact hosts.replace consistent known replaces (fun sound => sound.insertRow Database.length_newCells placed)
      (keeps.insert table encoded asked resolved chosen placed)
  | @revised d _ _ q _ _ known encoded asked done =>
    obtain ⟨key, k, keyAt⟩ := consistent.keyAt known
    have valid := Entity.violations_eq_nil.mp (consistent.valid d known)
    have revises := Entity.revises_of_revision valid keyAt (Entity.fits_of_encode keyAt encoded) asked
    exact hosts.update consistent known keyAt revises done
  | @assigned d _ _ q _ _ known asked done =>
    obtain ⟨key, k, keyAt⟩ := consistent.keyAt known
    exact hosts.update consistent known keyAt (Entity.revises_of_revisionWhere keyAt asked) done
  | removed known own done =>
    obtain ⟨key, k, keyAt⟩ := consistent.keyAt known
    obtain ⟨t, replaces, _⟩ := Database.delete_eq_ok done
    rw [own] at replaces
    obtain ⟨_, keeps⟩ := hosts.table known keyAt replaces.found
    exact hosts.replace consistent known replaces (fun sound => sound.sublist List.filter_sublist t.lastId)
      (keeps.sublist List.filter_sublist)

end Hosts

theorem Reaches.hosts (reached : Reaches s db db') (consistent : s.Consistent) (hosts : Hosts s db) : Hosts s db' :=
  reached.invariant (fun _ _ before change => before.change consistent change) hosts

end Store

end Tabular
