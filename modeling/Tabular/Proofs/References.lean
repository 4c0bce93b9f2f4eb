import Tabular.Proofs.Creation

/-!
# References that lead

The database refuses a statement after which a declared reference would lead nowhere. A column that refers to a
table is declared with its reference unless it is the key, so that beside the keys every reference of every row
leads to a row (`references_lead`). A key that refers to a table is declared as a key only, and may hold anything
(`references_lead_key`).
-/

namespace Tabular

open Sql

namespace Store

variable {s : Schema} {d e : Entity} {db : Database} {t u : Table} {r : Record} {key i : Nat} {k c : Column}
  {v : Cell} {table : String}

/-- The database takes a cell for a key of a table when it is one. -/
theorem isKeyOf_iff (table : u.For d key k) (keeps : u.Keeps d) (fits : Cell.OfStorage k.kind.storage v) :
    Database.isKeyOf u v = true ↔ v ≠ .null ∧ ∃ p ∈ u.rows, p.cells.getD key .null = v := by
  have index : u.columns.findIdx? (·.isKey) = some key := by
    have tests : (fun c : ColumnDefinition => c.isKey) ∘ d.columnDefinition = fun c => c.isKey := by
      funext c
      simp
    rw [table.columns_eq, List.findIdx?_map, tests]
    exact table.keyAt.index
  simp only [Database.isKeyOf, index, table.declared table.keyAt.column, Option.map_some, Option.getD_some,
    Entity.columnDefinition_storage, Cell.convert_eq_self fits, List.any_eq_true]
  constructor
  · rintro ⟨p, member, same⟩
    obtain ⟨equal, present⟩ := (Cell.same_iff fits ((keeps.typed p member).getD table.keyAt.column)).mp same
    exact ⟨present, p, member, equal.symm⟩
  · rintro ⟨present, p, member, rfl⟩
    exact ⟨p, member, Cell.same_self fits present⟩

theorem isKeyOf_cell (table : u.For d key k) (keeps : u.Keeps d) (member : r ∈ u.rows)
    (present : r.cells.getD key .null ≠ .null) : Database.isKeyOf u (r.cells.getD key .null) = true :=
  (isKeyOf_iff table keeps ((keeps.typed r member).getD table.keyAt.column)).mpr ⟨present, r, member, rfl⟩

theorem Hosts.leads (hosts : Hosts s db) (consistent : s.Consistent) (known : e ∈ s.entities)
    (member : r ∈ e.rowsIn db) (column : e.columns[i]? = some c) (other : c.isKey = false)
    (refers : c.references = some table) (cell : r.cells[i]? = some v) (present : v ≠ .null) :
    ∃ d ∈ s.entities, d.tableName = table ∧ v ∈ d.keysIn db := by
  obtain ⟨key, k, keyAt⟩ := consistent.keyAt known
  obtain ⟨t, found, _⟩ := hosts.tables e known
  obtain ⟨own, keeps⟩ := hosts.table known keyAt found
  rw [Entity.rowsIn_eq found] at member
  -- The column is declared with its reference, and the database leads it.
  have leads : db.leads table v = true := by
    have rows := List.all_eq_true.mp hosts.consistent t (Database.mem_of_table? found)
    have cells := List.all_eq_true.mp (List.all_eq_true.mp rows r member)
    have pair : (e.columnDefinition c, v) ∈ t.columns.zip r.cells :=
      List.mem_of_getElem? (List.getElem?_zip_eq_some.mpr ⟨own.declared column, cell⟩)
    simpa [other, refers] using cells _ pair
  have parent : (db.table? table).any (Database.isKeyOf · v) = true := by
    simpa [Database.leads, present] using leads
  obtain ⟨u, found', isKey⟩ := (Option.any_eq_true _ _).mp parent
  obtain ⟨at', position⟩ := List.getElem?_of_mem known
  obtain ⟨_, d, k', _, target, named, key', kind, _⟩ :=
    consistent.references at' e c table position (List.mem_of_getElem? column) refers
  have known' := List.mem_of_getElem? target
  obtain ⟨key₂, k₂, keyAt₂⟩ := consistent.keyAt known'
  obtain rfl : k' = k₂ := Option.some.inj (key'.symm.trans keyAt₂.key?_eq)
  rw [← named] at found'
  obtain ⟨own', keeps'⟩ := hosts.table known' keyAt₂ found'
  have fits : Cell.OfStorage k'.kind.storage v := by
    rw [kind]
    exact keeps.typed r member i c v column cell
  exact ⟨d, known', named, (Entity.mem_keysIn keyAt₂ found').mpr ((isKeyOf_iff own' keeps' fits).mp isKey).2⟩

/-- Whatever a program does with a store, the value of a column that refers to a table is the key of a row of this
table, unless the value is absent or the column is itself the key. -/
theorem references_lead {cat : Catalog} {m : Migration} {db₀ : Database} (made : Migration.ofCatalog cat = .ok m)
    (created : m.Creates db₀) (reached : Reaches m.schema db₀ db) (known : e ∈ m.schema.entities)
    (member : r ∈ e.rowsIn db) (column : e.columns[i]? = some c) (other : c.isKey = false)
    (refers : c.references = some table) (cell : r.cells[i]? = some v) (present : v ≠ .null) :
    ∃ d ∈ m.schema.entities, d.tableName = table ∧ v ∈ d.keysIn db := by
  have consistent := Migration.consistent_of_ofCatalog made
  exact (reached.hosts consistent created.hosts).leads consistent known member column other refers cell
    present

/-- The tag of a note is the key of a tag. -/
theorem references_lead_tag :
    let id : Column := { name := "id", kind := .integer, isKey := true }
    let tag : Entity := { name := "Tag", columns := [id] }
    let note : Entity :=
      { name := "Note", columns := [id, { name := "tag", kind := .integer, references := some "Tag" }] }
    let cat : Catalog := ⟨"1", [tag, note]⟩
    let m : Migration := ⟨⟨[tag, note], [("Note", 1), ("Tag", 0)]⟩, cat.fingerprint⟩
    let named : String → Mapping (List (String × Value)) := fun name => ⟨name, fun a c => a.lookup c, fun _ => .ok []⟩
    let db₀ := m.up.after {}
    let db₁ := Operation.after m.schema db₀ (.insert (named "Tag") [("id", .integer 7)])
    let db := Operation.after m.schema db₁ (.persist (named "Note") [("id", .integer 1), ("tag", .integer 7)])
    Migration.ofCatalog cat = .ok m ∧ m.Creates db₀ ∧ Reaches m.schema db₀ db ∧
      note.rowsIn db = [⟨1, [.integer 1, .integer 7]⟩] ∧
      ∃ d ∈ m.schema.entities, d.tableName = "Tag" ∧ Cell.integer 7 ∈ d.keysIn db := by
  intro id tag note cat m named db₀ db₁ db
  have made : Migration.ofCatalog cat = .ok m := Migration.ofCatalog_eq_ok.mpr ⟨by decide +kernel, rfl⟩
  have done : (m.up.outcome {}).1 = .ok () := by decide +kernel
  have created : m.Creates db₀ := ⟨Session.outcome_eq done, by decide +kernel⟩
  have reached : Reaches m.schema db₀ db := .next _ (.next _ .refl)
  have rows : note.rowsIn db = [⟨1, [.integer 1, .integer 7]⟩] := by decide +kernel
  have known : note ∈ m.schema.entities := List.mem_cons_of_mem tag List.mem_cons_self
  refine ⟨made, created, reached, rows, ?_⟩
  exact references_lead made created reached known (rows ▸ List.mem_cons_self) (i := 1) rfl rfl rfl rfl (by decide)

/-- A key that refers to a table may be the key of none of its rows, so that not every reference leads. -/
theorem references_lead_key :
    ¬ ∀ (cat : Catalog) (m : Migration) (db₀ db : Database) (e : Entity) (r : Record) (i : Nat) (c : Column)
      (table : String) (v : Cell), Migration.ofCatalog cat = .ok m → m.Creates db₀ → Reaches m.schema db₀ db →
      e ∈ m.schema.entities → r ∈ e.rowsIn db → e.columns[i]? = some c → c.references = some table →
      r.cells[i]? = some v → v ≠ .null → ∃ d ∈ m.schema.entities, d.tableName = table ∧ v ∈ d.keysIn db := by
  intro claim
  let tag : Entity := { name := "Tag", columns := [{ name := "id", kind := .integer, isKey := true }] }
  let note : Entity :=
    { name := "Note", columns := [{ name := "id", kind := .integer, isKey := true, references := some "Tag" }] }
  let cat : Catalog := ⟨"1", [tag, note]⟩
  let m : Migration := ⟨⟨[tag, note], [("Note", 1), ("Tag", 0)]⟩, cat.fingerprint⟩
  let notes : Mapping (List (String × Value)) := ⟨"Note", fun a c => a.lookup c, fun _ => .ok []⟩
  let db₀ := m.up.after {}
  let db := Operation.after m.schema db₀ (.insert notes [("id", .integer 7)])
  have made : Migration.ofCatalog cat = .ok m := Migration.ofCatalog_eq_ok.mpr ⟨by decide +kernel, rfl⟩
  have done : (m.up.outcome {}).1 = .ok () := by decide +kernel
  have created : m.Creates db₀ := ⟨Session.outcome_eq done, by decide +kernel⟩
  have rows : note.rowsIn db = [⟨7, [.integer 7]⟩] := by decide +kernel
  have known : note ∈ m.schema.entities := List.mem_cons_of_mem tag List.mem_cons_self
  obtain ⟨d, member, named, key⟩ := claim cat m db₀ db note ⟨7, [.integer 7]⟩ 0 _ "Tag" (.integer 7) made created
    (.next _ .refl) known (rows ▸ List.mem_cons_self) rfl rfl rfl (by decide)
  have parents : ∀ d ∈ m.schema.entities, d.tableName = "Tag" → d.keysIn db = [] := by decide +kernel
  rw [parents d member named] at key
  cases key

end Store

end Tabular
