import Tabular.Proofs.CompleteRemoval
import Tabular.Proofs.References

/-!
# Rows that others refer to

Rows can be taken out of the table of an entity when no row that stays refers to one that goes. Only the columns of
entities can refer to them, as the database holds no other tables but the one of the migration itself
(`isConsistent_of_kept`).
-/

namespace Tabular

open Sql Text

/-- In one of its columns, other than the key, a row of the entity `d` refers to the row of `e` with the key `v`. -/
def Entity.Refers (d e : Entity) (u : Record) (v : Cell) : Prop :=
  ∃ (i : Nat) (c : Column), d.columns[i]? = some c ∧ c.isKey = false ∧ c.references = some e.tableName ∧
    u.cells[i]? = some v

namespace Store

variable {m : Migration} {s : Schema} {db : Database} {d e : Entity} {t t' w : Table} {u : Record} {key : Nat}
  {k : Column} {p : Record → Bool}

/-- A row of an entity, after rows were taken out of a table, was there before. -/
theorem Hosts.row_of_kept (hosts : Hosts s db) (known : e ∈ s.entities) (keyAt : e.KeyAt key k)
    (found : db.table? e.tableName = some t) (kept : t' = { t with rows := t.rows.filter p })
    (member : w ∈ (db.setTable t').tables) (definition : w.definition = d.tableDefinition) (row : u ∈ w.rows) :
    u ∈ d.rowsIn db ∧ (d = e → p u = true) := by
  have named : d.tableName = w.name := congrArg TableDefinition.name definition.symm
  have sound : (db.setTable t').Sound := by
    subst kept
    exact hosts.sound.setTable ((hosts.sound.of_table? found).sublist List.filter_sublist t.lastId)
  have after := sound.table?_of_mem member
  rw [Database.table?_setTable found (kept ▸ rfl)] at after
  split at after
  · obtain rfl := Option.some.inj after
    obtain ⟨stored, stays⟩ := List.mem_filter.mp (kept ▸ row)
    have declared : e.tableName = t'.name := by
      rw [kept]
      exact congrArg TableDefinition.name (hosts.table known keyAt found).1.definition.symm
    exact ⟨by rwa [Entity.rowsIn_eq ((named.trans declared.symm) ▸ found)], fun _ => stays⟩
  · refine ⟨by rwa [Entity.rowsIn_eq (named ▸ after)], ?_⟩
    rintro rfl
    exact absurd (congrArg foldCase named.symm) ‹_›

/-- Rows can go when no row that stays refers to one of them. -/
theorem Hosts.isConsistent_of_kept (hosts : Hosts m.schema db) (belongs : m.Belongs db)
    (consistent : m.schema.Consistent) (known : e ∈ m.schema.entities) (keyAt : e.KeyAt key k)
    (found : db.table? e.tableName = some t) (kept : t' = { t with rows := t.rows.filter p })
    (free : ∀ d ∈ m.schema.entities, ∀ u ∈ d.rowsIn db, (d = e → p u = true) →
      ∀ r ∈ t.rows, p r = false → ¬ d.Refers e u (r.cells.getD key .null)) :
    (db.setTable t').isConsistent = true := by
  rw [Database.isConsistent, List.all_eq_true]
  intro w member
  rw [List.all_eq_true]
  intro u row
  rw [Database.rowLeads, List.all_eq_true]
  rintro ⟨definition, v⟩ cell
  show (definition.references.all fun name => (db.setTable t').leads name v) = true
  cases refers : definition.references with
  | none => rfl
  | some name =>
    -- The row is one of an entity, and its reference led to a row before.
    obtain ⟨i, position⟩ := List.getElem?_of_mem cell
    obtain ⟨column, value⟩ := List.getElem?_zip_eq_some.mp position
    obtain ⟨d, known', definition', c, column', other, refers'⟩ :=
      Migration.exists_referring (belongs.definition_of_setTable found (kept ▸ rfl) member) column refers
    obtain ⟨stored, stays⟩ := hosts.row_of_kept known keyAt found kept member definition' row
    rw [Option.all_some, Database.leads, Bool.or_eq_true, beq_iff_eq, or_iff_not_imp_left]
    intro present
    obtain ⟨parent, known'', rfl, listed⟩ := hosts.leads consistent known' stored column' other refers' value present
    obtain ⟨key', k', keyAt'⟩ := consistent.keyAt known''
    obtain ⟨u', found', _⟩ := hosts.tables parent known''
    obtain ⟨table, keeps⟩ := hosts.table known'' keyAt' found'
    obtain ⟨r, there, rfl⟩ := (Entity.mem_keysIn keyAt' found').mp listed
    rw [Database.table?_setTable found (kept ▸ rfl)]
    by_cases same : foldCase parent.tableName = foldCase e.tableName
    · obtain rfl := hosts.eq_of_foldCase consistent known'' known same
      obtain rfl : t = u' := Option.some.inj (found.symm.trans found')
      obtain rfl : key = key' := Option.some.inj (keyAt.index.symm.trans keyAt'.index)
      have stays' : p r = true := by
        by_contra goes
        exact free d known' u stored stays r there (by simpa using goes) ⟨i, c, column', other, refers', value⟩
      rw [if_pos rfl, Option.any_some, kept]
      exact isKeyOf_cell ⟨table.sound.sublist List.filter_sublist t.lastId, table.definition, keyAt', table.width⟩
        (keeps.sublist List.filter_sublist) (List.mem_filter.mpr ⟨there, stays'⟩) present
    · rw [if_neg same, found', Option.any_some]
      exact isKeyOf_cell table keeps there present

end Store

end Tabular
