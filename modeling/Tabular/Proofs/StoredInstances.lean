import Tabular.Proofs.Creation
import Tabular.Proofs.FoundRows

/-!
# Instances that are stored

An instance goes to its row, the row to cells, the cells to a row again and that to an instance. What comes back
is the instance that went, under the key that it is stored under and with its times to the millisecond
(`find_inserted`), for any type that builds an instance from the fields of one.
-/

namespace Tabular

open Sql

namespace Entity

variable {e : Entity} {key i : Nat} {c k : Column} {row : Row}

/-- The field of an instance that is stored under the key `id` if it had none. -/
def storedField (e : Entity) (id : Int64) (c : Column) (v : Value) : Value :=
  if e.autoincrement && c.isKey && (v = .null || v = .integer unsetKey) then .integer id else v

theorem fits_withKey (id : Int64) (keyAt : e.KeyAt key k) (fits : e.Fits key row) :
    e.Fits key (e.withKey key id row) := by
  refine ⟨(length_withKey id row).trans fits.length, fun i c v column value => ?_⟩
  rw [getElem?_withKey] at value
  by_cases lacks : e.lacksKey key row = true ∧ i = key
  · obtain ⟨absent, rfl⟩ := lacks
    obtain rfl : k = c := Option.some.inj (keyAt.column.symm.trans column)
    rw [if_pos ⟨absent, rfl⟩] at value
    rw [← Option.some.inj value, accepts_iff, keyAt.counted (lacksKey_iff.mp absent).1]
    exact .inl rfl
  · rw [if_neg lacks] at value
    exact fits.accepted i c v column value

/-- What an instance has for a column stands in its row, with a key that it lacked put in. -/
theorem getElem?_withKey_of_encode {field : String → Option Value} (id : Int64) (keyAt : e.KeyAt key k)
    (encoded : e.encode field = .ok row) (column : e.columns[i]? = some c) :
    ∃ v, field c.name = some v ∧ (e.withKey key id row)[i]? = some (e.storedField id c v) := by
  obtain ⟨v, given, _, value⟩ := value_of_encode keyAt encoded column
  refine ⟨v, given, ?_⟩
  rw [getElem?_withKey, storedField, value]
  -- Only at the key that storage chooses is an unset key left out of the row and put in again.
  by_cases fills : e.fillsKey key i = true
  · obtain ⟨auto, rfl⟩ : e.autoincrement = true ∧ i = key := by simpa [fillsKey] using fills
    obtain rfl : k = c := Option.some.inj (keyAt.column.symm.trans column)
    have absent : e.lacksKey i row = true ↔ v = .null ∨ v = .integer unsetKey := by
      rw [lacksKey_iff, value]
      by_cases unset : v = .integer unsetKey
      · simp [auto, fills, unset]
      · simp [auto, unset]
    by_cases lacks : e.lacksKey i row = true
    · rw [if_pos ⟨lacks, rfl⟩, if_pos (by simpa [auto, keyAt.isKey] using absent.mp lacks)]
    · have other : ¬ (v = .null ∨ v = .integer unsetKey) := fun unset => lacks (absent.mpr unset)
      rw [if_neg fun both => lacks both.1, if_neg fun unset => other (.inr unset.2),
        if_neg (by simpa [auto, keyAt.isKey] using other)]
  · have elsewhere : ¬ (e.autoincrement = true ∧ i = key) := fun here => fills (by simp [fillsKey, here])
    have notKey : (e.autoincrement && c.isKey && (v = .null || v = .integer unsetKey)) = false := by
      rw [Bool.and_eq_false_iff]
      refine .inl (Bool.eq_false_iff.mpr fun both => elsewhere ?_)
      obtain ⟨auto, isKey⟩ := Bool.and_eq_true_iff.mp both
      exact ⟨auto, keyAt.only i c column isKey⟩
    rw [if_neg fun lacks => elsewhere ⟨(lacksKey_iff.mp lacks.1).1, lacks.2⟩, if_neg fun unset => fills unset.1, notKey]
    rfl

end Entity

namespace Store

variable {s : Schema} {e : Entity} {key : Nat} {k : Column} {db db' : Database} {t : Table} {α : Type} {μ : Mapping α}
  {a : α} {row : Row} {mode : Conflict} {asked : Insertion} {done : Option Int64}

/-! ## Insertions that succeed -/

theorem insertWith_eq_ok : (insertWith s μ a mode).outcome db = (.ok done, db') ↔
    ∃ e row asked, s.describe μ.name = .ok e ∧ e.encode (μ.field a) = .ok row ∧ e.insertion mode row = .ok asked ∧
      db.insert asked.mode asked.table (Database.cellsOf asked.values) = .ok (done, db') := by
  simp only [insertWith, entity, Session.bind_eq_ok, Session.mapped_eq_ok]
  constructor
  · rintro ⟨e, _, ⟨described, rfl⟩, row, _, ⟨encoded, rfl⟩, asked, _, ⟨accepted, rfl⟩, stored⟩
    exact ⟨e, row, asked, described, encoded, accepted, Session.execute_eq_ok.mp stored⟩
  · rintro ⟨e, row, asked, described, encoded, accepted, stored⟩
    exact ⟨e, _, ⟨described, rfl⟩, row, _, ⟨encoded, rfl⟩, asked, _, ⟨accepted, rfl⟩,
      Session.execute_eq_ok.mpr stored⟩

theorem insert_eq_ok {id : Int64} : (insert s μ a).outcome db = (.ok id, db') ↔
    ∃ done, (insertWith s μ a .unspecified).outcome db = (.ok done, db') ∧ done.getD 0 = id := by
  rw [insert, Session.bind_eq_ok]
  constructor
  · rintro ⟨done, db₁, stored, answer⟩
    obtain ⟨same, rfl⟩ := Prod.mk.inj answer
    exact ⟨done, stored, Except.ok.inj same⟩
  · rintro ⟨done, stored, rfl⟩
    exact ⟨done, db', stored, rfl⟩

/-- The instance that is answered is built from the row that was inserted, with the key that storage chose. -/
theorem persist_eq_ok {b : α} : (persist s μ a).outcome db = (.ok b, db') ↔
    ∃ e row asked done taken, s.describe μ.name = .ok e ∧ e.encode (μ.field a) = .ok row ∧
      e.insertion .unspecified row = .ok asked ∧
      db.insert asked.mode asked.table (Database.cellsOf asked.values) = .ok (done, db') ∧
      e.assignKey row (done.getD 0) = .ok taken ∧ e.decode μ taken.2 = .ok b := by
  simp only [persist, entity, addRow, Session.bind_eq_ok, Session.mapped_eq_ok, Session.execute_eq_ok]
  constructor
  · rintro ⟨e, _, ⟨described, rfl⟩, row, _, ⟨encoded, rfl⟩, asked, _, ⟨accepted, rfl⟩, done, _, stored, taken, _,
      ⟨assigned, rfl⟩, built, rfl⟩
    exact ⟨e, row, asked, done, taken, described, encoded, accepted, stored, assigned, built⟩
  · rintro ⟨e, row, asked, done, taken, described, encoded, accepted, stored, assigned, built⟩
    exact ⟨e, _, ⟨described, rfl⟩, row, _, ⟨encoded, rfl⟩, asked, _, ⟨accepted, rfl⟩, done, _, stored, taken, _,
      ⟨assigned, rfl⟩, built, rfl⟩

/-- The row of an instance stands in the table of its entity, unless it was dropped. -/
theorem placed_of_insert (table : t.For e key k) (found : db.table? e.tableName = some t) (fits : e.Fits key row)
    (accepted : e.insertion mode row = .ok asked) (kept : mode ≠ .ignore)
    (stored : db.insert asked.mode asked.table (Database.cellsOf asked.values) = .ok (done, db')) :
    ∃ id t' r, done = some id ∧ db'.table? e.tableName = some t' ∧ t'.For e key k ∧ r ∈ t'.rows ∧
      r.cells = (e.withKey key id row).map Value.cell ∧ (e.lacksKey key row = true → t.nextId = .ok id) := by
  obtain ⟨_, same⟩ := (Entity.insertion_eq_ok table.keyAt.index).mp accepted
  have own : asked.table = e.tableName := by rw [same]
  have asked' : asked.mode = mode := by rw [same]
  obtain ⟨u, t', given, id, replaces, resolved, chosen, placed⟩ := Database.insert_eq_ok stored
  rw [own] at replaces
  obtain rfl : t = u := Option.some.inj (found.symm.trans replaces.found)
  have table' : t'.For e key k := ⟨table.sound.insertRow Database.length_newCells placed,
    replaces.definition.trans table.definition, table.keyAt, table.width⟩
  rcases Database.insertRow_eq_ok placed with ⟨dropped, _, _⟩ | ⟨rows, _, _, _, _, answer, rfl⟩
  · exact absurd (asked'.symm.trans dropped) kept
  · refine ⟨id, _, _, by rw [answer, Table.withId_id], replaces.table?_self, table', Table.mem_place.mpr (.inl rfl),
      table.cells_inserted fits accepted resolved chosen, fun lacks => ?_⟩
    rw [← table.newId_of_lacksKey accepted resolved lacks]
    exact chosen

/-! ## What is found again -/

variable {id : Int64} {v : Value} {r : Record}

theorem find_of_values (described : s.describe μ.name = .ok e) (table : t.For e key k)
    (found : db.table? e.tableName = some t) (member : r ∈ t.rows) (cells : r.cells = row.map Value.cell)
    (value : row[key]? = some v) (kind : v.kind? = some k.kind) :
    (find s μ v).outcome db = ((e.load μ (row.map Value.cell)).map some, db) := by
  have keyed : (r.cells.getD key .null).same v.cell = true := by
    rw [cells, List.getD_eq_getElem?_getD, List.getElem?_map, value]
    exact Cell.same_self (Value.ofStorage_cell kind) (Value.cell_ne_null kind)
  rw [← cells]
  exact find_of_mem described table found kind member keyed

end Store

/-- The fields `kept` are what storage keeps of the fields `given`: the key `id` in the place of a key that is
unset, and times to the millisecond. -/
def Entity.StoredAs (e : Entity) (id : Int64) (given kept : String → Option Value) : Prop :=
  ∀ c ∈ e.columns, ∃ v w, given c.name = some v ∧ (e.storedField id c v).stored? = some w ∧ kept c.name = some w

def Fields.field (f : Fields) (column : String) : Option Value :=
  (f.get column).toOption

/-- An instance that is built from any opened row with its fields. -/
def Mapping.InvertsAt {α : Type} (μ : Mapping α) (e : Entity) (b : α) : Prop :=
  ∀ f : Fields, f.entity = e → (∀ c ∈ e.columns, f.field c.name = μ.field b c.name) → μ.build f = .ok b

theorem Mapping.InvertsAt.build_eq {α : Type} {μ : Mapping α} {e : Entity} {b : α} (inverts : μ.InvertsAt e b)
    {f : Fields} {id : Int64} {given : String → Option Value} (own : f.entity = e)
    (stored : e.StoredAs id given f.field) (kept : e.StoredAs id given (μ.field b)) : μ.build f = .ok b := by
  refine inverts f own fun c member => ?_
  obtain ⟨v, w, known, read, opened⟩ := stored c member
  obtain ⟨v', w', known', read', held⟩ := kept c member
  obtain rfl : v = v' := Option.some.inj (known.symm.trans known')
  rw [opened, held, ← read, ← read']

theorem Item.invertsAt (id : Int64) (content : String) (t : Timestamp) :
    mapping.InvertsAt entity (new id content t) := by
  rintro f own same
  have got : ∀ column v, f.field column = some v → f.get column = .ok v := by
    intro column v opened
    rw [Fields.field] at opened
    cases answer : f.get column with
    | error fault => simp [answer, Except.toOption] at opened
    | ok w => simpa [answer, Except.toOption] using opened
  refine build_eq_ok (got "id" _ ?_) (got "content" _ ?_) (got "created_time" _ ?_)
  · exact same entity.columns[0] (List.getElem_mem _)
  · exact same entity.columns[1] (List.getElem_mem _)
  · exact same entity.columns[2] (List.getElem_mem _)

namespace Store

variable {s : Schema} {e : Entity} {key : Nat} {k : Column} {db db' : Database} {α : Type} {μ : Mapping α} {a : α}
  {row : Row} {id : Int64}

theorem isSome_stored? (keyAt : e.KeyAt key k) (encoded : e.encode (μ.field a) = .ok row)
    (inRange : ∀ c ∈ e.columns, ∀ t, μ.field a c.name = some (.timestamp t) →
      (Timestamp.ofMillis? t.millis).isSome = true) :
    ∀ v ∈ e.withKey key id row, v.stored?.isSome = true := by
  have fits := Entity.fits_withKey id keyAt (Entity.fits_of_encode keyAt encoded)
  intro v member
  obtain ⟨i, here⟩ := List.getElem?_of_mem member
  have inside : i < e.columns.length := by
    rw [← fits.length]
    exact (List.getElem?_eq_some_iff.mp here).1
  obtain ⟨w, given, stored⟩ := Entity.getElem?_withKey_of_encode id keyAt encoded (List.getElem?_eq_getElem inside)
  rw [Option.some.inj (here.symm.trans stored), Entity.storedField]
  split
  · rfl
  · cases w with
    | timestamp t => simpa [Value.stored?] using inRange _ (List.getElem_mem inside) t given
    | null => rfl
    | integer n => rfl
    | text text => rfl

/-- The row of an instance whose times can be read is read as what storage keeps of the instance. -/
theorem load_stored (id : Int64) (valid : e.Valid) (keyAt : e.KeyAt key k) (encoded : e.encode (μ.field a) = .ok row)
    (inRange : ∀ c ∈ e.columns, ∀ t, μ.field a c.name = some (.timestamp t) →
      (Timestamp.ofMillis? t.millis).isSome = true) :
    ∃ f : Fields, f.entity = e ∧ e.StoredAs id (μ.field a) f.field ∧
      e.load μ ((e.withKey key id row).map Value.cell) = (μ.build f).mapError .mapping := by
  have fits := Entity.fits_withKey id keyAt (Entity.fits_of_encode keyAt encoded)
  obtain ⟨v, value, kind⟩ := keyAt.value_of_fits fits (Entity.lacksKey_withKey id row)
  have readable : ∀ v ∈ e.withKey key id row, v.stored?.isSome = true := isSome_stored? keyAt encoded inRange
  have stored : List.Forall₂ (fun v w => v.stored? = some w) (e.withKey key id row)
      ((e.withKey key id row).map fun v => v.stored?.getD .null) := by
    rw [List.forall₂_map_right_iff, List.forall₂_same]
    intro v member
    obtain ⟨w, read⟩ := Option.isSome_iff_exists.mp (readable v member)
    rw [read, Option.getD_some]
  -- No two columns share a name, so each field is read from its own position.
  refine ⟨⟨e, _⟩, rfl, fun c member => ?_, Entity.load_of_fits μ keyAt fits value kind stored⟩
  obtain ⟨i, column⟩ := List.getElem?_of_mem member
  obtain ⟨v, given, here⟩ := Entity.getElem?_withKey_of_encode id keyAt encoded column
  obtain ⟨w, read⟩ := Option.isSome_iff_exists.mp (readable _ (List.mem_of_getElem? here))
  refine ⟨v, w, given, read, ?_⟩
  rw [Fields.field, Fields.get, valid.columnIndex?_eq column, Option.bind_some, List.getElem?_map, here,
    Option.map_some, read]
  rfl

/-- What was inserted is found under its key, whatever the program did with the store before: the generated key
if it had none, and else its own. The fields that are found are the fields that were inserted, with that key and
with times to the millisecond, and a type that builds an instance from its fields gives back the instance. -/
theorem find_inserted {c : Catalog} {m : Migration} {db₀ : Database} (made : Migration.ofCatalog c = .ok m)
    (created : m.Creates db₀) (reached : Reaches m.schema db₀ db) (described : m.schema.describe μ.name = .ok e)
    (inRange : ∀ c ∈ e.columns, ∀ t, μ.field a c.name = some (.timestamp t) →
      (Timestamp.ofMillis? t.millis).isSome = true)
    (inserted : (insert m.schema μ a).outcome db = (.ok id, db')) :
    ∃ k v f, e.key? = some k ∧ μ.field a k.name = some v ∧ f.entity = e ∧ e.StoredAs id (μ.field a) f.field ∧
      (find m.schema μ (e.storedField id k v)).outcome db' = (((μ.build f).mapError .mapping).map some, db') ∧
      ∀ b, e.StoredAs id (μ.field a) (μ.field b) → μ.InvertsAt e b →
        (find m.schema μ (e.storedField id k v)).outcome db' = (.ok (some b), db') := by
  have consistent := Migration.consistent_of_ofCatalog made
  have hosts := reached.hosts consistent created.hosts
  have known := mem_of_describe described
  have valid := Entity.violations_eq_nil.mp (consistent.valid e known)
  obtain ⟨key, k, keyAt⟩ := valid.keyAt
  obtain ⟨t, found, _⟩ := hosts.tables e known
  obtain ⟨table, _⟩ := hosts.table known keyAt found
  obtain ⟨done, stored, answer⟩ := insert_eq_ok.mp inserted
  obtain ⟨e', row, asked, described', encoded, accepted, stored⟩ := insertWith_eq_ok.mp stored
  obtain rfl : e = e' := Except.ok.inj (described.symm.trans described')
  have fits := Entity.fits_of_encode keyAt encoded
  obtain ⟨n, t', r, rfl, found', table', member, cells, _⟩ :=
    placed_of_insert table found fits accepted (by simp) stored
  obtain rfl : n = id := answer
  obtain ⟨v, given, value⟩ := Entity.getElem?_withKey_of_encode n keyAt encoded keyAt.column
  obtain ⟨w, value', kind⟩ :=
    keyAt.value_of_fits (Entity.fits_withKey n keyAt fits) (Entity.lacksKey_withKey n row)
  obtain rfl : e.storedField n k v = w := Option.some.inj (value.symm.trans value')
  obtain ⟨f, own, kept, load⟩ := load_stored n valid keyAt encoded inRange
  have answer := find_of_values described table' found' member cells value kind
  rw [load] at answer
  refine ⟨k, v, f, keyAt.key?_eq, given, own, kept, answer, ?_⟩
  intro b same inverts
  rw [answer, inverts.build_eq own kept same]
  rfl

end Store

/-- An item that storage gives the key 8 is found under it, with the milliseconds of its time. -/
theorem Store.find_inserted_item :
    let c : Catalog := ⟨"1", [Item.entity]⟩
    let m : Migration := ⟨⟨[Item.entity], [("Item", 0)]⟩, c.fingerprint⟩
    let t : Timestamp := ⟨-1, 1234567, by decide, by decide, by decide⟩
    let db₀ := m.up.after {}
    let db := Operation.after m.schema db₀ (.insert Item.mapping (Item.new 7 "a" t))
    let db' := (insert m.schema Item.mapping ⟨0, "b", t⟩).after db
    Migration.ofCatalog c = .ok m ∧ m.Creates db₀ ∧ Reaches m.schema db₀ db ∧
      (insert m.schema Item.mapping ⟨0, "b", t⟩).outcome db = (.ok 8, db') ∧
      (find m.schema Item.mapping (.integer 8)).outcome db' =
        (.ok (some ⟨8, "b", ⟨-1, 1000000, by decide, by decide, by decide⟩⟩), db') := by
  intro c m t db₀ db db'
  have made : Migration.ofCatalog c = .ok m := Migration.ofCatalog_eq_ok.mpr ⟨by decide +kernel, rfl⟩
  have done : (m.up.outcome {}).1 = .ok () := by decide +kernel
  have created : m.Creates db₀ := ⟨Session.outcome_eq done, by decide +kernel⟩
  have reached : Reaches m.schema db₀ db := .next (.insert Item.mapping (Item.new 7 "a" t)) .refl
  have answer : ((insert m.schema Item.mapping ⟨0, "b", t⟩).outcome db).1 = .ok 8 := by decide +kernel
  have inserted : (insert m.schema Item.mapping ⟨0, "b", t⟩).outcome db = (.ok 8, db') := Session.outcome_eq answer
  have described : m.schema.describe Item.mapping.name = .ok Item.entity := by decide +kernel
  have inRange : ∀ c ∈ Item.entity.columns, ∀ u, Item.mapping.field ⟨0, "b", t⟩ c.name = some (.timestamp u) →
      (Timestamp.ofMillis? u.millis).isSome = true := by
    intro c member u given
    rcases List.mem_cons.mp member with rfl | member
    · cases given
    rcases List.mem_cons.mp member with rfl | member
    · cases given
    obtain rfl := List.mem_singleton.mp member
    obtain rfl : t = u := Value.timestamp.inj (Option.some.inj given)
    decide
  refine ⟨made, created, reached, inserted, ?_⟩
  obtain ⟨k, v, f, key, given, -, -, -, found⟩ := find_inserted made created reached described inRange inserted
  obtain rfl : k = Item.entity.columns[0] := (Option.some.inj key).symm
  obtain rfl : v = .integer 0 := (Option.some.inj given).symm
  refine found (Item.new 8 "b" ⟨-1, 1000000, by decide, by decide, by decide⟩) ?_ (Item.invertsAt _ _ _)
  intro c member
  rcases List.mem_cons.mp member with rfl | member
  · exact ⟨.integer 0, .integer 8, rfl, rfl, rfl⟩
  rcases List.mem_cons.mp member with rfl | member
  · exact ⟨.text "b", .text "b", rfl, rfl, rfl⟩
  obtain rfl := List.mem_singleton.mp member
  exact ⟨.timestamp t, .timestamp ⟨-1, 1000000, by decide, by decide, by decide⟩, rfl, by decide, rfl⟩

end Tabular
