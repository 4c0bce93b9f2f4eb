import Tabular.Proofs.StoredInstances

/-!
# Items that are stored

An item that was persisted is answered with its key and is found under it. It is found as it was answered unless
its time is a leap second: storage keeps milliseconds, in which a leap second is the time just after it
(`find_persisted`).
-/

namespace Tabular

open Sql

namespace Item

def keyedRow (item : Item) : Row :=
  [.integer item.id, .text item.content, .timestamp item.createdTime]

theorem keyAt : entity.KeyAt 0 entity.columns[0] where
  index := rfl
  column := rfl
  isKey := rfl
  required := rfl
  counted := fun _ => rfl
  only := by
    intro i c column isKey
    match i, column with
    | 0, _ => rfl
    | 1, column =>
      obtain rfl := Option.some.inj column
      cases isKey
    | 2, column =>
      obtain rfl := Option.some.inj column
      cases isKey

/-- An item that is encoded has its row, and the row has the item's key or the one that storage chose. -/
theorem withKey_of_encode {item : Item} {row : Row} (encoded : entity.encode item.field = .ok row) (id : Int64) :
    ∃ n, entity.withKey 0 id row = keyedRow { item with id := n } ∧ (item.id ≠ unsetKey → n = item.id) := by
  by_cases negative : item.id < 0
  · rw [encode_negative item negative] at encoded
    cases encoded
  · rw [encode_item item negative] at encoded
    obtain rfl := Except.ok.inj encoded
    by_cases unset : item.id = unsetKey
    · refine ⟨id, ?_, fun set => absurd unset set⟩
      rw [Item.row, if_pos unset]
      rfl
    · refine ⟨item.id, ?_, fun _ => rfl⟩
      rw [Item.row, if_neg unset]
      rfl

theorem new_new (id : Int64) (content : String) (t : Timestamp) :
    new id content (new id content t).createdTime = new id content t := by
  rw [new, new, Timestamp.truncate_truncate]

theorem decode_keyedRow (item : Item) :
    entity.decode mapping item.keyedRow = .ok (new item.id item.content item.createdTime) := rfl

theorem truncate_of_ofMillis? {m : Int} {t : Timestamp} (read : Timestamp.ofMillis? m = some t) : t.truncate = t := by
  obtain ⟨_, _, whole⟩ := Timestamp.ofMillis?_eq_some.mp read
  ext
  · rfl
  · simp only [Timestamp.truncate, whole, Nat.sub_zero]

theorem fits_keyedRow (item : Item) : entity.Fits 0 item.keyedRow := by
  refine ⟨rfl, fun i c v column value => ?_⟩
  match i, column, value with
  | 0, column, value =>
    obtain rfl := Option.some.inj column
    obtain rfl := Option.some.inj value
    rfl
  | 1, column, value =>
    obtain rfl := Option.some.inj column
    obtain rfl := Option.some.inj value
    rfl
  | 2, column, value =>
    obtain rfl := Option.some.inj column
    obtain rfl := Option.some.inj value
    rfl

/-- What is read from the cells of an item is the item at the time that its milliseconds are read as. -/
theorem load_keyedRow (item : Item) :
    entity.load mapping (item.keyedRow.map Value.cell) =
      match Timestamp.ofMillis? item.createdTime.millis with
      | some u => .ok ⟨item.id, item.content, u⟩
      | none => .error (.cell (.outOfRange "Item" "created_time" (Int64.ofInt item.createdTime.millis))) := by
  have times := Entity.readCell_timestamp (e := entity) (c := entity.columns[2]) rfl item.createdTime
  cases read : Timestamp.ofMillis? item.createdTime.millis with
  | some u =>
    have stored : List.Forall₂ (fun v w => v.stored? = some w) item.keyedRow
        (keyedRow ⟨item.id, item.content, u⟩) := by
      refine .cons rfl (.cons rfl (.cons ?_ .nil))
      rw [Value.stored?, read]
      rfl
    rw [Entity.load_of_fits mapping keyAt item.fits_keyedRow rfl rfl stored]
    show Except.ok (new item.id item.content u) = _
    rw [new, truncate_of_ofMillis? read]
  | none =>
    rw [read] at times
    have cells : entity.columns.zip (item.keyedRow.map Value.cell) =
        [(entity.columns[0], .integer item.id), (entity.columns[1], .text item.content),
          (entity.columns[2], (Value.timestamp item.createdTime).cell)] := rfl
    have ids : entity.readCell entity.columns[0] (.integer item.id) = .ok (.integer item.id) := rfl
    have contents : entity.readCell entity.columns[1] (.text item.content) = .ok (.text item.content) := rfl
    have width : (item.keyedRow.map Value.cell).length = entity.columns.length := rfl
    rw [Entity.load, Entity.readCells, if_pos width, cells]
    simp only [List.mapM_cons, ids, contents, times]
    rfl

end Item

namespace Store

variable {c : Catalog} {m : Migration} {start db₀ db db' : Database} {t₀ : Table}

/-- An item that was persisted is answered as it was given, with its key. Under this key the item of the
milliseconds of its time is found, or none if these are too many; it is the item that was answered when the time is
no leap second, and then only. The table must be the item's own, which no table of a like name before it is. -/
theorem find_persisted (made : Migration.ofCatalog c = .ok m) (held : Item.entity ∈ m.schema.entities)
    (sound : start.Sound) (done : m.up.outcome start = (.ok (), db₀)) (own : db₀.table? "Item" = some t₀)
    (definition : t₀.definition = Item.entity.tableDefinition) (reached : Reaches m.schema db₀ db) {id : Int64}
    {content : String} {t : Timestamp} {saved : Item}
    (persisted : (persist m.schema Item.mapping (Item.new id content t)).outcome db = (.ok saved, db')) :
    saved = Item.new saved.id content t ∧ (id ≠ unsetKey → saved.id = id) ∧
      (find m.schema Item.mapping (.integer saved.id)).outcome db' =
        (match Timestamp.ofMillis? t.millis with
          | some u => .ok (some { saved with createdTime := u })
          | none => .error (.cell (.outOfRange "Item" "created_time" (Int64.ofInt t.millis))), db') ∧
      ((find m.schema Item.mapping (.integer saved.id)).outcome db' = (.ok (some saved), db') ↔
        t.nanos < 1000000000) := by
  have consistent := Migration.consistent_of_ofCatalog made
  have described : m.schema.describe Item.mapping.name = .ok Item.entity :=
    consistent.describe_eq_ok.mpr ⟨held, rfl⟩
  obtain ⟨t₁, found, kept, _⟩ := reached.table? own
  have sound' := reached.sound (Migration.sound_of_up done sound)
  obtain ⟨e, row, asked, answer, taken, described', encoded, accepted, stored, assigned, built⟩ :=
    persist_eq_ok.mp persisted
  obtain rfl : Item.entity = e := Except.ok.inj (described.symm.trans described')
  have fits := Entity.fits_of_encode Item.keyAt encoded
  have table₁ : t₁.For Item.entity 0 Item.entity.columns[0] :=
    ⟨sound'.of_table? found, kept.trans definition, Item.keyAt, by decide⟩
  obtain ⟨n, t', r, rfl, found', table, member, cells, _⟩ :=
    placed_of_insert table₁ found fits accepted (by simp) stored
  obtain ⟨_, rfl⟩ := (Entity.assignKey_eq_ok Item.keyAt.index).mp assigned
  obtain ⟨key, keyed, unchanged⟩ := Item.withKey_of_encode encoded n
  change Item.entity.withKey 0 n row = Item.keyedRow (Item.new key content t) at keyed
  have answered : Item.entity.decode Item.mapping (Item.entity.withKey 0 n row) = .ok (Item.new key content t) := by
    rw [keyed, Item.decode_keyedRow]
    exact congrArg Except.ok (Item.new_new key content t)
  obtain rfl : Item.new key content t = saved := Except.ok.inj (answered.symm.trans built)
  rw [keyed] at cells
  have millis : (Item.new key content t).createdTime.millis = t.millis := Timestamp.millis_truncate t
  have finding : (find m.schema Item.mapping (.integer key)).outcome db' =
      (match Timestamp.ofMillis? t.millis with
        | some u => .ok (some ⟨key, content, u⟩)
        | none => .error (.cell (.outOfRange "Item" "created_time" (Int64.ofInt t.millis))), db') := by
    change (find m.schema Item.mapping (.integer (Item.new key content t).id)).outcome db' = _
    rw [find_of_values described table found' member cells rfl rfl, Item.load_keyedRow, ← millis]
    cases Timestamp.ofMillis? (Item.new key content t).createdTime.millis <;> rfl
  refine ⟨rfl, unchanged, finding, ?_⟩
  rw [show (Item.new key content t).id = key from rfl, finding, ← Timestamp.ofMillis?_millis]
  cases Timestamp.ofMillis? t.millis with
  | none => simp
  | some u => simp [Item.new]

/-- An item from before the epoch is found as it was answered. -/
theorem find_persisted_negative :
    let c : Catalog := ⟨"1", [Item.entity]⟩
    let m : Migration := ⟨⟨[Item.entity], [("Item", 0)]⟩, c.fingerprint⟩
    let t : Timestamp := ⟨-1, 999999999, by decide, by decide, by decide⟩
    let db := m.up.after {}
    let db' := (persist m.schema Item.mapping (Item.new 0 "a" t)).after db
    Migration.ofCatalog c = .ok m ∧ m.up.outcome {} = (.ok (), db) ∧
      (persist m.schema Item.mapping (Item.new 0 "a" t)).outcome db = (.ok (Item.new 1 "a" t), db') ∧
      (find m.schema Item.mapping (.integer 1)).outcome db' = (.ok (some (Item.new 1 "a" t)), db') := by
  intro c m t db db'
  have made : Migration.ofCatalog c = .ok m := Migration.ofCatalog_eq_ok.mpr ⟨by decide +kernel, rfl⟩
  have answer : (m.up.outcome {}).1 = .ok () := by decide +kernel
  have done : m.up.outcome {} = (.ok (), db) := Session.outcome_eq answer
  have own : db.table? "Item" = some { definition := Item.entity.tableDefinition } := by decide +kernel
  have saved : ((persist m.schema Item.mapping (Item.new 0 "a" t)).outcome db).1 = .ok (Item.new 1 "a" t) := by
    decide +kernel
  have persisted : (persist m.schema Item.mapping (Item.new 0 "a" t)).outcome db = (.ok (Item.new 1 "a" t), db') :=
    Session.outcome_eq saved
  obtain ⟨_, _, _, found⟩ :=
    find_persisted made List.mem_cons_self Database.sound_empty done own rfl .refl persisted
  exact ⟨made, done, persisted, found.mpr (by decide)⟩

/-- A leap second is answered and found as the time after it, so that not every item is found as it was answered. -/
theorem find_persisted_leap_second :
    ¬ ∀ (c : Catalog) (m : Migration) (db₀ db db' : Database) (id : Int64) (content : String) (t : Timestamp)
      (saved : Item), Migration.ofCatalog c = .ok m → Item.entity ∈ m.schema.entities →
      m.up.outcome {} = (.ok (), db₀) → Reaches m.schema db₀ db → 0 ≤ id →
      (persist m.schema Item.mapping (Item.new id content t)).outcome db = (.ok saved, db') →
      (find m.schema Item.mapping (.integer saved.id)).outcome db' = (.ok (some saved), db') := by
  intro claim
  let c : Catalog := ⟨"1", [Item.entity]⟩
  let m : Migration := ⟨⟨[Item.entity], [("Item", 0)]⟩, c.fingerprint⟩
  let t : Timestamp := ⟨59, 1500000000, by decide, by decide, by decide⟩
  let db := m.up.after {}
  let db' := (persist m.schema Item.mapping (Item.new 0 "leap" t)).after db
  have made : Migration.ofCatalog c = .ok m := Migration.ofCatalog_eq_ok.mpr ⟨by decide +kernel, rfl⟩
  have answer : (m.up.outcome {}).1 = .ok () := by decide +kernel
  have saved : ((persist m.schema Item.mapping (Item.new 0 "leap" t)).outcome db).1 = .ok (Item.new 1 "leap" t) := by
    decide +kernel
  have same := claim c m db db db' 0 "leap" t (Item.new 1 "leap" t) made List.mem_cons_self (Session.outcome_eq answer)
    .refl (by decide) (Session.outcome_eq saved)
  have other : ((find m.schema Item.mapping (.integer 1)).outcome db').1 ≠ .ok (some (Item.new 1 "leap" t)) := by
    decide +kernel
  exact other (congrArg Prod.fst same)

end Store

end Tabular
