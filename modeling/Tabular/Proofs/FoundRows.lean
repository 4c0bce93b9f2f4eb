import Tabular.Proofs.EntityRows
import Tabular.Proofs.StoreRuns

/-!
# Rows that are found

A row of the table of an entity is found under its key and under no other (`find_of_mem`). What is read from its
cells are the values that they were made of, with times to the millisecond (`load_of_fits`).
-/

namespace Tabular

open Sql

namespace Timestamp

theorem toInt_millis (t : Timestamp) : (Int64.ofInt t.millis).toInt = t.millis := by
  have lower := t.seconds_ge
  have upper := t.seconds_le
  have nanos := t.nanos_lt
  have size : Int64.size = 18446744073709551616 := rfl
  rw [Int64.toInt_ofInt, size, millis, Int.bmod_eq_of_le (by omega) (by omega)]

/-- The time that milliseconds are read as is the one of so many milliseconds that is whole and no leap second. -/
theorem ofMillis?_eq_some {m : Int} {t : Timestamp} :
    ofMillis? m = some t ↔ t.millis = m ∧ t.nanos < 1000000000 ∧ t.nanos % 1000000 = 0 := by
  rw [ofMillis?, ofParts?]
  constructor
  · intro read
    split at read
    · obtain rfl := Option.some.inj read
      simp only [millis]
      omega
    · cases read
  · rintro ⟨rfl, ordinary, whole⟩
    have lower := t.seconds_ge
    have upper := t.seconds_le
    have seconds : t.millis / 1000 = t.seconds := by simp only [millis]; omega
    have nanos : (t.millis % 1000).toNat * 1000000 = t.nanos := by simp only [millis]; omega
    rw [dif_pos ⟨by omega, by omega, by omega⟩]
    exact congrArg some (Timestamp.ext seconds nanos)

/-- A time is read back to the millisecond unless it is a leap second. -/
theorem ofMillis?_millis {t : Timestamp} : ofMillis? t.millis = some t.truncate ↔ t.nanos < 1000000000 := by
  rw [ofMillis?_eq_some, millis_truncate]
  simp only [truncate, true_and]
  omega

end Timestamp

/-- What is read where a value was stored, if it can be read: times are stored as their milliseconds. -/
def Value.stored? : Value → Option Value
  | timestamp t => (Timestamp.ofMillis? t.millis).map timestamp
  | v => some v

namespace Entity

variable {e : Entity} {c k : Column} {key i : Nat} {v w : Value} {row kept : Row}

/-! ## Reading a row -/

theorem readCell_timestamp (kind : c.kind = .timestamp) (t : Timestamp) :
    e.readCell c (Value.timestamp t).cell =
      match Timestamp.ofMillis? t.millis with
      | some u => .ok (.timestamp u)
      | none => .error (.outOfRange e.name c.name (Int64.ofInt t.millis)) := by
  obtain ⟨n, stored⟩ : ∃ n, Int64.ofInt t.millis = n := ⟨_, rfl⟩
  have whole : n.toInt = t.millis := stored ▸ Timestamp.toInt_millis t
  cases read : Timestamp.ofMillis? t.millis with
  | some u => simp only [readCell, kind, Value.cell, stored, whole, read]
  | none => simp only [readCell, kind, Value.cell, stored, whole, read]

theorem readCell_cell (accepted : e.accepts key i c v = true) (stored : v.stored? = some w) :
    e.readCell c v.cell = .ok w := by
  cases v with
  | null =>
    obtain rfl := Option.some.inj stored
    simp [readCell, Value.cell]
  | integer n =>
    have kind : Kind.integer = c.kind := by simpa [accepts_iff, Value.kind?] using accepted
    obtain rfl := Option.some.inj stored
    simp [readCell, Value.cell, ← kind]
  | text s =>
    have kind : Kind.text = c.kind := by simpa [accepts_iff, Value.kind?] using accepted
    obtain rfl := Option.some.inj stored
    simp [readCell, Value.cell, ← kind]
  | timestamp t =>
    have kind : Kind.timestamp = c.kind := by simpa [accepts_iff, Value.kind?] using accepted
    obtain ⟨u, read, rfl⟩ := Option.map_eq_some_iff.mp stored
    rw [readCell_timestamp kind.symm, read]

/-- A value that is stored and read is still of its kind. -/
theorem kind?_of_stored? (stored : v.stored? = some w) : w.kind? = v.kind? := by
  cases v with
  | timestamp t =>
    obtain ⟨u, _, rfl⟩ := Option.map_eq_some_iff.mp stored
    rfl
  | null => rw [Option.some.inj stored]
  | integer n => rw [Option.some.inj stored]
  | text s => rw [Option.some.inj stored]

theorem readCells_map (fits : e.Fits key row) (stored : List.Forall₂ (fun v w => v.stored? = some w) row kept) :
    e.readCells (row.map Value.cell) = .ok kept := by
  have width : (row.map Value.cell).length = e.columns.length := by rw [List.length_map, fits.length]
  rw [readCells, if_pos width, Checks.mapM_eq_ok_getElem?]
  refine ⟨by simp [fits.length, ← stored.length_eq], ?_⟩
  rintro i ⟨c, cell⟩ w pair answer
  obtain ⟨column, value⟩ := List.getElem?_zip_eq_some.mp pair
  rw [List.getElem?_map, Option.map_eq_some_iff] at value
  obtain ⟨v, value, rfl⟩ := value
  obtain ⟨inside, rfl⟩ := List.getElem?_eq_some_iff.mp value
  obtain ⟨answered, rfl⟩ := List.getElem?_eq_some_iff.mp answer
  exact readCell_cell (fits.accepted i c _ column value) (stored.get inside answered)

private theorem getElem?_of_stored (stored : List.Forall₂ (fun v w => v.stored? = some w) row kept)
    (here : kept[i]? = some w) : ∃ v, row[i]? = some v ∧ Value.stored? v = some w := by
  obtain ⟨answered, rfl⟩ := List.getElem?_eq_some_iff.mp here
  have inside : i < row.length := stored.length_eq ▸ answered
  exact ⟨row[i], List.getElem?_eq_getElem inside, stored.get inside answered⟩

theorem Fits.stored (fits : e.Fits key row) (stored : List.Forall₂ (fun v w => v.stored? = some w) row kept) :
    e.Fits key kept := by
  refine ⟨stored.length_eq.symm.trans fits.length, fun i c w column answer => ?_⟩
  obtain ⟨v, value, read⟩ := getElem?_of_stored stored answer
  have accepted := fits.accepted i c v column value
  rw [accepts] at accepted ⊢
  rwa [kind?_of_stored? read]

/-- A row with a key is opened as it is. -/
theorem openValue_eq_self (value : row[key]? = some v) (present : v ≠ .null) :
    row.mapIdx (e.openValue key) = row := by
  refine List.ext_getElem? fun i => ?_
  rw [List.getElem?_mapIdx]
  cases here : row[i]? with
  | none => rfl
  | some w =>
    rw [Option.map_some, openValue, if_neg]
    intro filled
    have parts : (e.autoincrement = true ∧ i = key) ∧ w = .null := by simpa [fillsKey] using filled
    obtain ⟨⟨_, rfl⟩, rfl⟩ := parts
    exact present (Option.some.inj (value.symm.trans here))

/-- An instance is built from what was stored, value by value. -/
theorem load_of_fits {α : Type} (μ : Mapping α) (keyAt : e.KeyAt key k) (fits : e.Fits key row)
    (value : row[key]? = some v) (kind : v.kind? = some k.kind)
    (stored : List.Forall₂ (fun v w => v.stored? = some w) row kept) :
    e.load μ (row.map Value.cell) = (μ.build ⟨e, kept⟩).mapError .mapping := by
  have inside : key < kept.length := by
    rw [← stored.length_eq]
    exact (List.getElem?_eq_some_iff.mp value).1
  have value' : kept[key]? = some kept[key] := List.getElem?_eq_getElem inside
  have present : kept[key] ≠ .null := by
    intro absent
    obtain ⟨u, there, read⟩ := getElem?_of_stored stored value'
    obtain rfl : v = u := Option.some.inj (value.symm.trans there)
    have none := kind?_of_stored? read
    rw [absent, kind] at none
    cases none
  have fields : e.fields kept = .ok ⟨e, kept⟩ :=
    fields_eq_ok.mpr ⟨key, keyAt.index, fits.stored stored, by rw [openValue_eq_self value' present]⟩
  rw [load, readCells_map fits stored]
  show (e.decode μ kept).mapError StoreFault.mapping = _
  rw [decode, fields]
  rfl

end Entity

namespace Cell

theorem same_text {a : Cell} {s : String} : a.same (.text s) = true ↔ a = .text s := by
  cases a <;> simp [same, order, rank]

theorem same_integer {m n : Int64} : same (.integer m) (.integer n) = true ↔ m = n := by
  rw [same_iff (s := .integer) (a := .integer m) (b := .integer n) trivial trivial]
  simp

end Cell

namespace Table

variable {t : Table} {e : Entity} {key : Nat} {k : Column} {r s : Record} {v : Value}

/-- Keys and unique columns tell rows apart, except for a key that is the row id. -/
theorem For.mem_distinguishing (table : t.For e key k) {i : Nat} {c : Column} (column : e.columns[i]? = some c)
    (told : c.isKey = true ∨ c.unique = true) (other : t.idIndex? ≠ some i) :
    (i, e.columnDefinition c) ∈ t.distinguishing := by
  have listed : (e.columnDefinition c, i) ∈ t.columns.zipIdx :=
    List.mem_zipIdx_iff_getElem?.mpr (table.declared column)
  have told' : ((e.columnDefinition c).isKey || (e.columnDefinition c).unique) = true := by
    rw [Entity.columnDefinition]
    cases flagged : c.isKey with
    | true => rfl
    | false => simpa [flagged] using told
  rw [distinguishing, List.mem_reverse, List.mem_map]
  exact ⟨_, List.mem_filter.mpr ⟨listed, Bool.and_eq_true_iff.mpr ⟨told', by simpa using other⟩⟩, rfl⟩

/-- Rows with the same key are one row. -/
theorem For.eq_of_key (table : t.For e key k) (kind : v.kind? = some k.kind) (first : r ∈ t.rows)
    (second : s ∈ t.rows) (one : (r.cells.getD key .null).same v.cell = true)
    (two : (s.cells.getD key .null).same v.cell = true) : r = s := by
  refine table.sound.eq_of_clashes first second ?_
  rw [clashes, Bool.or_eq_true]
  by_cases integer : k.kind.storage = .integer
  · obtain ⟨n, cell⟩ := Value.cell_of_integer kind integer
    rw [cell, table.key_cell integer first, Cell.same_integer] at one
    rw [cell, table.key_cell integer second, Cell.same_integer] at two
    exact .inl (by simp [one, two])
  · obtain ⟨text, rfl⟩ : ∃ text, v = .text text := by
      cases v with
      | text text => exact ⟨text, rfl⟩
      | null => cases kind
      | integer n => exact absurd (by rw [← Option.some.inj kind]; rfl) integer
      | timestamp u => exact absurd (by rw [← Option.some.inj kind]; rfl) integer
    have told := table.mem_distinguishing table.keyAt.column (.inl table.keyAt.isKey)
      (by simp [table.idIndex?_eq, integer])
    refine .inr (List.any_eq_true.mpr ⟨_, told, ?_⟩)
    show (r.cells.getD key .null).same (s.cells.getD key .null) = true
    rw [Cell.same_text.mp one, Cell.same_text.mp two, Cell.same_text]

theorem Sound.nodup (sound : t.Sound) : t.rows.Nodup :=
  sound.ordered.imp fun before same => by
    rw [same] at before
    exact Int64.lt_irrefl before

/-- What is asked for by a key is a row with the key. -/
theorem For.satisfies_key (table : t.For e key k) (kind : v.kind? = some k.kind) (r : Record) :
    t.satisfies [⟨k.name, .compare .equal v⟩] r = (r.cells.getD key .null).same v.cell := by
  rw [satisfies, List.all_cons, List.all_nil, Bool.and_true, table.passes_key kind]

/-- The row with a key is all that is asked for by the key. -/
theorem For.filter_key (table : t.For e key k) (kind : v.kind? = some k.kind) (member : r ∈ t.rows)
    (keyed : (r.cells.getD key .null).same v.cell = true) :
    t.rows.filter (t.satisfies [⟨k.name, .compare .equal v⟩]) = [r] := by
  have tests : ∀ u ∈ t.rows, t.satisfies [⟨k.name, .compare .equal v⟩] u = (u == r) := by
    intro u known
    rw [table.satisfies_key kind, Bool.eq_iff_iff, beq_iff_eq]
    constructor
    · intro same
      exact table.eq_of_key kind known member same keyed
    · rintro rfl
      exact keyed
  rw [List.filter_congr tests, List.filter_beq, List.count_eq_one_of_mem table.sound.nodup member]
  rfl

theorem For.cells_eq (table : t.For e key k) (member : r ∈ t.rows) :
    (e.columns.map (·.name)).map (t.cell · r) = r.cells := by
  have width : r.cells.length = e.columns.length := by
    rw [(table.sound.fits r member).width, table.length_columns]
  refine List.ext_getElem? fun i => ?_
  rw [List.map_map, List.getElem?_map]
  cases column : e.columns[i]? with
  | none =>
    rw [List.getElem?_eq_none (by rw [width]; exact List.getElem?_eq_none_iff.mp column)]
    rfl
  | some c =>
    have inside : i < r.cells.length := by
      rw [width]
      exact (List.getElem?_eq_some_iff.mp column).1
    rw [Option.map_some, Function.comp_apply, cell, table.target?_eq column, List.getElem?_eq_getElem inside]
    simp [inside]

end Table

/-- The instance that the last of some rows stands for, if there are rows. -/
def Entity.loadLast {α : Type} (e : Entity) (μ : Mapping α) (rows : List (List Cell)) : Except StoreFault (Option α) :=
  rows.getLast?.elim (.ok none) fun cells => (e.load μ cells).map some

namespace Store

variable {s : Schema} {e : Entity} {key : Nat} {k : Column} {db : Database} {t : Table} {r : Record} {v : Value}
  {α : Type} {μ : Mapping α}

theorem lookup_eq (keyAt : e.KeyAt key k) (kind : v.kind? = some k.kind) :
    e.lookup v = .ok ⟨e.tableName, e.columns.map (·.name), [⟨k.name, .compare .equal v⟩], [], {}⟩ := by
  rw [Entity.lookup, (Entity.requireKeyValue_eq_ok keyAt.index keyAt.column).mpr ⟨kind, rfl⟩]
  rfl

/-- The row with a key is all that a lookup of the key reads. -/
theorem select_lookup (table : t.For e key k) (found : db.table? e.tableName = some t)
    (kind : v.kind? = some k.kind) (member : r ∈ t.rows) (keyed : (r.cells.getD key .null).same v.cell = true) :
    db.select ⟨e.tableName, e.columns.map (·.name), [⟨k.name, .compare .equal v⟩], [], {}⟩ = .ok [r.cells] := by
  refine Database.select_iff.mpr
    ⟨Database.withinLimits_lookup _ (by simpa using table.width) rfl, t, Database.readable_eq found, ?_⟩
  dsimp only
  rw [table.filter_key kind member keyed, Table.sort, List.mergeSort_singleton]
  show [(e.columns.map (·.name)).map (t.cell · r)] = _
  rw [table.cells_eq member]

/-- What is found is the instance of the last of the rows that a lookup reads. -/
theorem outcome_find_lookup (described : s.describe μ.name = .ok e) (v : Value) :
    (find s μ v).outcome db =
      ((e.lookup v).mapError .mapping >>= fun q => (db.select q).mapError .database >>= e.loadLast μ, db) := by
  rw [find, Session.outcome_bind, entity, Session.outcome_mapped, described]
  show Session.outcome _ db = _
  rw [Session.outcome_bind, Session.outcome_mapped]
  cases e.lookup v with
  | error f => rfl
  | ok q =>
    show Session.outcome _ db = ((db.select q).mapError .database >>= e.loadLast μ, db)
    rw [Session.outcome_bind, Session.outcome_ask]
    cases db.select q with
    | error f => rfl
    | ok rows =>
      show Session.outcome _ db = (e.loadLast μ rows, db)
      rw [Entity.loadLast]
      cases rows.getLast? with
      | none => rfl
      | some cells =>
        simp only [Option.elim_some]
        cases e.load μ cells <;> rfl

theorem outcome_find (described : s.describe μ.name = .ok e) (keyAt : e.KeyAt key k) (kind : v.kind? = some k.kind)
    {rows : List (List Cell)} (read : db.select ⟨e.tableName, e.columns.map (·.name),
      [⟨k.name, .compare .equal v⟩], [], {}⟩ = .ok rows) :
    (find s μ v).outcome db = (rows.getLast?.elim (.ok none) fun cells => (e.load μ cells).map some, db) := by
  rw [outcome_find_lookup described, lookup_eq keyAt kind]
  show ((db.select _).mapError .database >>= e.loadLast μ, db) = _
  rw [read]
  rfl

/-- A row is found under its key. -/
theorem find_of_mem (described : s.describe μ.name = .ok e) (table : t.For e key k)
    (found : db.table? e.tableName = some t) (kind : v.kind? = some k.kind) (member : r ∈ t.rows)
    (keyed : (r.cells.getD key .null).same v.cell = true) :
    (find s μ v).outcome db = ((e.load μ r.cells).map some, db) :=
  outcome_find described table.keyAt kind (select_lookup table found kind member keyed)

/-- Nothing is found under a key that no row has. -/
theorem find_of_absent (described : s.describe μ.name = .ok e) (table : t.For e key k)
    (found : db.table? e.tableName = some t) (kind : v.kind? = some k.kind)
    (absent : t.rows.filter (t.satisfies [⟨k.name, .compare .equal v⟩]) = []) :
    (find s μ v).outcome db = (.ok none, db) := by
  have read : db.select ⟨e.tableName, e.columns.map (·.name), [⟨k.name, .compare .equal v⟩], [], {}⟩ = .ok [] := by
    refine Database.select_iff.mpr
      ⟨Database.withinLimits_lookup _ (by simpa using table.width) rfl, t, Database.readable_eq found, ?_⟩
    dsimp only
    rw [absent, Table.sort, List.mergeSort_nil]
    rfl
  exact outcome_find described table.keyAt kind read

end Store

end Tabular
