import Tabular.Proofs.StoredInstances

/-!
# Keys that storage chooses

A table whose keys storage chooses remembers the largest key that it ever held. Whatever a program does with a
store, the keys in such a table are positive, and the key of an instance that had none is one that no row of the
table ever had (`generated_keys`), also when the rows that had the largest keys were deleted or replaced.
-/

namespace Tabular

open Sql

theorem Entity.lacksKey_of_unset {e : Entity} {key : Nat} {k : Column} {field : String → Option Value} {row : Row}
    (keyAt : e.KeyAt key k) (auto : e.autoincrement = true) (encoded : e.encode field = .ok row)
    (unset : field k.name = some .null ∨ field k.name = some (.integer unsetKey)) : e.lacksKey key row = true := by
  obtain ⟨v, given, _, value⟩ := value_of_encode keyAt encoded keyAt.column
  rw [given, Option.some.injEq, Option.some.injEq] at unset
  rw [lacksKey_iff, value]
  rcases unset with rfl | rfl
  · simp [auto]
  · simp [auto, fillsKey]

namespace Store

variable {s : Schema} {e : Entity} {key : Nat} {k : Column} {db db₁ db₂ db' : Database} {row : Row} {mode : Conflict}
  {asked : Insertion} {done : Option Int64} {v : Cell}

/-- The keys that storage chooses are the ids of the rows, positive and not larger than the largest ever used. -/
theorem Hosts.mem_keysIn (hosts : Hosts s db) (known : e ∈ s.entities) (keyAt : e.KeyAt key k)
    (auto : e.autoincrement = true) {t : Table} (found : db.table? e.tableName = some t) (member : v ∈ e.keysIn db) :
    ∃ n, v = .integer n ∧ 0 < n ∧ n ≤ t.lastId := by
  obtain ⟨table, keeps⟩ := hosts.table known keyAt found
  obtain ⟨r, stored, rfl⟩ := (Entity.mem_keysIn keyAt found).mp member
  have integer : k.kind.storage = .integer := by rw [keyAt.counted auto]; rfl
  exact ⟨r.id, table.key_cell integer stored, keeps.generated auto r stored⟩

/-- A row that lacks its key gets one that no row had at any time before. -/
theorem Hosts.fresh_of_insert (hosts : Hosts s db₁) (run : Reaches s db₁ db₂)
    (known : e ∈ s.entities) (keyAt : e.KeyAt key k) (auto : e.autoincrement = true) (fits : e.Fits key row)
    (lacks : e.lacksKey key row = true) (accepted : e.insertion mode row = .ok asked) (kept : mode ≠ .ignore)
    (stored : db₂.insert asked.mode asked.table (Database.cellsOf asked.values) = .ok (done, db')) :
    ∃ id, done = some id ∧ .integer id ∉ e.keysIn db₁ ∧ .integer id ∈ e.keysIn db' := by
  obtain ⟨t₁, found₁, definition, _⟩ := hosts.tables e known
  obtain ⟨t₂, found₂, same, grown⟩ := run.table? found₁
  have sound := (run.sound hosts.sound).of_table? found₂
  have table₂ : t₂.For e key k := ⟨sound, same.trans definition, keyAt, hosts.width e known⟩
  obtain ⟨id, t', r, answer, found', table', member, cells, chosen⟩ :=
    placed_of_insert table₂ found₂ fits accepted kept stored
  have later : t₂.lastId < id := Database.lastId_lt_of_nextId (table₂.neverReuses_eq.trans auto) (chosen lacks)
  -- A key from before is at most the largest of that time, which was never forgotten since.
  refine ⟨id, answer, fun old => ?_, (Entity.mem_keysIn keyAt found').mpr ⟨r, member, ?_⟩⟩
  · obtain ⟨n, equal, _, used⟩ := hosts.mem_keysIn known keyAt auto found₁ old
    obtain rfl := Cell.integer.inj equal
    exact Int64.lt_irrefl (Int64.lt_of_lt_of_le later (Int64.le_trans used grown))
  · rw [cells, List.getD_eq_getElem?_getD, List.getElem?_map, Entity.getElem?_withKey, if_pos ⟨lacks, rfl⟩]
    rfl

private theorem one_le_of_pos {n : Int64} (positive : 0 < n) : 1 ≤ n := by
  have zero : (0 : Int64).toInt = 0 := rfl
  have one : (1 : Int64).toInt = 1 := rfl
  rw [Int64.lt_iff_toInt_lt, zero] at positive
  rw [Int64.le_iff_toInt_le, one]
  omega

section Answered

variable {α : Type} {μ : Mapping α} {a : α}

theorem Hosts.fresh_of_insertion {id : Int64} (hosts : Hosts s db₁) (run : Reaches s db₁ db₂) (known : e ∈ s.entities)
    (keyAt : e.KeyAt key k) (auto : e.autoincrement = true) (described : s.describe μ.name = .ok e)
    (unset : μ.field a k.name = some .null ∨ μ.field a k.name = some (.integer unsetKey))
    (inserted : (insert s μ a).outcome db₂ = (.ok id, db')) :
    .integer id ∉ e.keysIn db₁ ∧ .integer id ∈ e.keysIn db' := by
  obtain ⟨done, stored, answer⟩ := insert_eq_ok.mp inserted
  obtain ⟨e', row, asked, described', encoded, accepted, stored⟩ := insertWith_eq_ok.mp stored
  obtain rfl : e = e' := Except.ok.inj (described.symm.trans described')
  have lacks := Entity.lacksKey_of_unset keyAt auto encoded unset
  obtain ⟨n, rfl, fresh, held⟩ := hosts.fresh_of_insert run known keyAt auto (Entity.fits_of_encode keyAt encoded) lacks
    accepted (by simp) stored
  obtain rfl : n = id := answer
  exact ⟨fresh, held⟩

theorem Hosts.fresh_of_persist {b : α} (hosts : Hosts s db₁) (run : Reaches s db₁ db₂) (known : e ∈ s.entities)
    (valid : e.Valid) (keyAt : e.KeyAt key k) (auto : e.autoincrement = true) (described : s.describe μ.name = .ok e)
    (unset : μ.field a k.name = some .null ∨ μ.field a k.name = some (.integer unsetKey))
    (persisted : (persist s μ a).outcome db₂ = (.ok b, db')) :
    ∃ f id, f.entity = e ∧ f.get k.name = .ok (.integer id) ∧ μ.build f = .ok b ∧
      .integer id ∉ e.keysIn db₁ ∧ .integer id ∈ e.keysIn db' := by
  obtain ⟨e', row, asked, done, taken, described', encoded, accepted, stored, assigned, built⟩ :=
    persist_eq_ok.mp persisted
  obtain rfl : e = e' := Except.ok.inj (described.symm.trans described')
  have lacks := Entity.lacksKey_of_unset keyAt auto encoded unset
  obtain ⟨n, rfl, fresh, held⟩ := hosts.fresh_of_insert run known keyAt auto (Entity.fits_of_encode keyAt encoded) lacks
    accepted (by simp) stored
  obtain ⟨_, rfl⟩ := (Entity.assignKey_eq_ok keyAt.index).mp assigned
  obtain ⟨f, opened, built⟩ := Checks.bind_eq_ok.mp built
  obtain ⟨key', index, fits, rfl⟩ := Entity.fields_eq_ok.mp opened
  obtain rfl : key = key' := Option.some.inj (keyAt.index.symm.trans index)
  refine ⟨_, n, rfl, ?_, built, fresh, held⟩
  rw [Fields.get, valid.columnIndex?_eq keyAt.column, Option.bind_some, List.getElem?_mapIdx,
    Entity.getElem?_withKey, if_pos ⟨lacks, rfl⟩, Option.map_some]
  simp [Entity.openValue, Value.isNull]

end Answered

/-- In the table of an entity whose keys storage chooses, all keys are positive at any time. An instance without
a key that is inserted or persisted gets a key that no row of the table had at any time before; the instance that
is answered is built from the row with this key. -/
theorem generated_keys {cat : Catalog} {m : Migration} {db₀ : Database} (made : Migration.ofCatalog cat = .ok m)
    (created : m.Creates db₀) (known : e ∈ m.schema.entities) (auto : e.autoincrement = true) :
    (∀ db, Reaches m.schema db₀ db → ∀ v ∈ e.keysIn db, ∃ n, v = .integer n ∧ 1 ≤ n) ∧
    ∀ db₁ db₂, Reaches m.schema db₀ db₁ → Reaches m.schema db₁ db₂ → ∀ (α : Type) (μ : Mapping α) (a : α) k,
      m.schema.describe μ.name = .ok e → e.key? = some k →
      (μ.field a k.name = some .null ∨ μ.field a k.name = some (.integer unsetKey)) →
      (∀ id db', (insert m.schema μ a).outcome db₂ = (.ok id, db') →
        .integer id ∉ e.keysIn db₁ ∧ .integer id ∈ e.keysIn db') ∧
      (∀ b db', (persist m.schema μ a).outcome db₂ = (.ok b, db') →
        ∃ f id, f.entity = e ∧ f.get k.name = .ok (.integer id) ∧ μ.build f = .ok b ∧
          .integer id ∉ e.keysIn db₁ ∧ .integer id ∈ e.keysIn db') := by
  have consistent := Migration.consistent_of_ofCatalog made
  have valid := Entity.violations_eq_nil.mp (consistent.valid e known)
  obtain ⟨key, k, keyAt⟩ := valid.keyAt
  constructor
  · intro db reached v member
    have hosts := reached.hosts consistent created.hosts
    obtain ⟨t, found, _⟩ := hosts.tables e known
    obtain ⟨n, rfl, positive, _⟩ := hosts.mem_keysIn known keyAt auto found member
    exact ⟨n, rfl, one_le_of_pos positive⟩
  · intro db₁ db₂ reached run α μ a k' described key' unset
    obtain rfl : k = k' := Option.some.inj (keyAt.key?_eq.symm.trans key')
    have hosts := reached.hosts consistent created.hosts
    constructor
    · intro id db' inserted
      exact hosts.fresh_of_insertion run known keyAt auto described unset inserted
    · intro b db' persisted
      exact hosts.fresh_of_persist run known valid keyAt auto described unset persisted

/-- A key is not given again after its row was deleted. -/
theorem generated_keys_deleted :
    let cat : Catalog := ⟨"1", [Item.entity]⟩
    let m : Migration := ⟨⟨[Item.entity], [("Item", 0)]⟩, cat.fingerprint⟩
    let t : Timestamp := ⟨0, 0, by decide, by decide, by decide⟩
    let db₀ := m.up.after {}
    let db₁ := Operation.after m.schema db₀ (.insert Item.mapping (Item.new 5 "a" t))
    let db₂ := Operation.after m.schema db₁ (.delete Item.mapping (.integer 5))
    let db' := (insert m.schema Item.mapping (Item.new 0 "b" t)).after db₂
    Migration.ofCatalog cat = .ok m ∧ m.Creates db₀ ∧ Reaches m.schema db₀ db₁ ∧ Reaches m.schema db₁ db₂ ∧
      Item.entity.keysIn db₁ = [.integer 5] ∧ Item.entity.keysIn db₂ = [] ∧ (1 : Int64) ≤ 5 ∧
      (insert m.schema Item.mapping (Item.new 0 "b" t)).outcome db₂ = (.ok 6, db') ∧
      .integer 6 ∉ Item.entity.keysIn db₁ ∧ .integer 6 ∈ Item.entity.keysIn db' := by
  intro cat m t db₀ db₁ db₂ db'
  have made : Migration.ofCatalog cat = .ok m := Migration.ofCatalog_eq_ok.mpr ⟨by decide +kernel, rfl⟩
  have done : (m.up.outcome {}).1 = .ok () := by decide +kernel
  have created : m.Creates db₀ := ⟨Session.outcome_eq done, by decide +kernel⟩
  have reached : Reaches m.schema db₀ db₁ := .next _ .refl
  have run : Reaches m.schema db₁ db₂ := .next _ .refl
  have before : Item.entity.keysIn db₁ = [.integer 5] := by decide +kernel
  have after : Item.entity.keysIn db₂ = [] := by decide +kernel
  have answer : ((insert m.schema Item.mapping (Item.new 0 "b" t)).outcome db₂).1 = .ok 6 := by decide +kernel
  have inserted : (insert m.schema Item.mapping (Item.new 0 "b" t)).outcome db₂ = (.ok 6, db') :=
    Session.outcome_eq answer
  have described : m.schema.describe Item.mapping.name = .ok Item.entity := by decide +kernel
  have known : Item.entity ∈ m.schema.entities := List.mem_cons_self
  have auto : Item.entity.autoincrement = true := rfl
  obtain ⟨positive, fresh⟩ := generated_keys made created known auto
  obtain ⟨n, same, bound⟩ := positive db₁ reached (.integer 5) (before ▸ List.mem_cons_self)
  obtain rfl := Cell.integer.inj same
  obtain ⟨kept, _⟩ := fresh db₁ db₂ reached run Item Item.mapping (Item.new 0 "b" t) Item.entity.columns[0] described
    rfl (.inr rfl)
  exact ⟨made, created, reached, run, before, after, bound, inserted, kept 6 db' inserted⟩

end Store

end Tabular
