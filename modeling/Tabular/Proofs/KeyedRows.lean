import Tabular.Proofs.ReferredRows
import Tabular.Proofs.RevisedRows

/-!
# Rows written by key

An update of an instance and a deletion by key concern the one row with the key and nothing else in the database: the
row is given the cells of the instance, or is taken out, and where no row has the key the database stays as it is
(`keyed_rows`). The key is bound after the values that are assigned, of which there are as many as other columns, and
it is compared as it is stored, so that two times of the same millisecond are one key.
-/

namespace Tabular

open Sql Text

namespace Database

variable {db : Database} {t : Table} {name : String}

theorem requireParents_eq_ok {cs : List ColumnDefinition} : db.requireParents cs = .ok () ↔
    ∀ c ∈ cs, ∀ table, c.references = some table → (db.table? table).isSome = true := by
  have every : ((cs.filterMap (·.references)).find? fun table => (db.table? table).isNone) = none ↔
      ∀ c ∈ cs, ∀ table, c.references = some table → (db.table? table).isSome = true := by
    rw [List.find?_eq_none]
    constructor
    · intro all c member table refers
      have known := all table (List.mem_filterMap.mpr ⟨c, member, refers⟩)
      simpa [Option.isSome_iff_ne_none] using known
    · intro all table listed
      obtain ⟨c, member, refers⟩ := List.mem_filterMap.mp listed
      simpa [Option.isSome_iff_ne_none] using all c member table refers
  rw [requireParents, ← every]
  cases (cs.filterMap (·.references)).find? fun table => (db.table? table).isNone with
  | none => simp
  | some table => simp

/-- A table in its own place is no change. -/
theorem Sound.setTable_eq_self (sound : db.Sound) (found : db.table? name = some t) : db.setTable t = db := by
  have same : (db.tables.map fun u => if sameName u.name t.name then t else u) = db.tables := by
    refine (List.map_congr_left fun u member => ?_).trans (List.map_id _)
    by_cases named : sameName u.name t.name = true
    · rw [if_pos named]
      exact (List.inj_on_of_nodup_map sound.names member (mem_of_table? found) (sameName_iff.mp named)).symm
    · rw [if_neg named]
      rfl
  rw [Database.setTable, same]

theorem Sound.requireConsistent_setTable (sound : db.Sound) (consistent : db.isConsistent = true)
    (found : db.table? name = some t) : (db.setTable t).requireConsistent = .ok db := by
  rw [sound.setTable_eq_self found]
  exact requireConsistent_eq_ok.mpr ⟨consistent, rfl⟩

theorem update_of_none {q : Revision} (sound : db.Sound) (consistent : db.isConsistent = true)
    (within : (Statement.update q).WithinLimits) (found : db.table? q.table = some t)
    (named : ∀ p ∈ q.values, ∃ target, t.target? p.1 = some target) (parents : db.requireParents t.columns = .ok ())
    (none : t.rows.filter (t.satisfies q.conditions) = []) : db.update q = .ok (0, db) := by
  obtain ⟨given, resolved⟩ : ∃ given, q.values.mapM (fun p => do return (← requireTarget t p.1, p.2.cell)) =
      (.ok given : Except DatabaseFault _) := by
    refine Checks.exists_mapM_eq_ok fun p listed => ?_
    obtain ⟨target, known⟩ := named p listed
    exact ⟨_, Checks.bind_eq_ok.mpr ⟨target, requireTarget_eq_ok.mpr known, rfl⟩⟩
  refine requireSize_bind_eq_ok.mpr ⟨within, Checks.bind_eq_ok.mpr ⟨t, require_eq_ok.mpr found,
    Checks.bind_eq_ok.mpr ⟨given, resolved, Checks.bind_eq_ok.mpr ⟨(), requireParents_eq_ok.mpr ?_, ?_⟩⟩⟩⟩
  · intro c listed table refers
    obtain ⟨⟨d, i⟩, member, chosen⟩ := List.mem_filterMap.mp listed
    obtain ⟨_, rfl⟩ : _ ∧ d = c := by simpa using chosen
    exact requireParents_eq_ok.mp parents d (List.fst_mem_of_mem_zipIdx member) table refers
  · simp only [none]
    exact Checks.bind_eq_ok.mpr ⟨t, rfl, Checks.bind_eq_ok.mpr
      ⟨db, sound.requireConsistent_setTable consistent found, rfl⟩⟩

theorem delete_of_none {q : Removal} (sound : db.Sound) (consistent : db.isConsistent = true)
    (within : (Statement.delete q).WithinLimits) (found : db.table? q.table = some t)
    (parents : db.requireParents t.columns = .ok ()) (none : t.rows.filter (t.satisfies q.conditions) = []) :
    db.delete q = .ok (0, db) := by
  have all : (t.rows.filter fun r => !t.satisfies q.conditions r) = t.rows := by
    rw [List.filter_eq_self]
    intro r member
    simpa using List.filter_eq_nil_iff.mp none r member
  have unchanged : (db.setTable { t with rows := t.rows }).requireConsistent = .ok db :=
    sound.requireConsistent_setTable consistent found
  rw [delete_eq within found parents, all, unchanged, none]
  rfl

end Database

namespace Entity

variable {e : Entity} {db db' : Database} {key : Nat} {k : Column} {v : Value} {r : Record}

/-- What stands in a row at the position of the key. -/
def atKey? {α : Type} (e : Entity) (xs : List α) : Option α :=
  e.keyIndex?.bind (xs[·]?)

theorem atKey?_eq {α : Type} (keyAt : e.KeyAt key k) (xs : List α) : e.atKey? xs = xs[key]? := by
  rw [atKey?, keyAt.index, Option.bind_some]

/-- The one row of an entity with the key `v`. -/
structure RowAt (e : Entity) (db : Database) (v : Value) (r : Record) : Prop where
  member : r ∈ e.rowsIn db
  key : e.atKey? r.cells = some v.cell
  only : ∀ u ∈ e.rowsIn db, e.atKey? u.cells = some v.cell → u = r

theorem mem_keysIn_iff (present : v.cell ≠ .null) :
    v.cell ∈ e.keysIn db ↔ ∃ r ∈ e.rowsIn db, e.atKey? r.cells = some v.cell := by
  rw [keysIn, List.mem_map]
  refine exists_congr fun r => and_congr_right fun _ => ?_
  rw [← atKey?]
  cases e.atKey? r.cells with
  | none => simp [present.symm]
  | some cell => simp

/-- The rows of an entity become what `f` makes of them. Nothing else of its table changes, no other table does, and
no index. -/
structure Rewrites (e : Entity) (f : List Record → List Record) (db db' : Database) : Prop where
  table : ∃ t, db.table? e.tableName = some t ∧ db'.table? e.tableName = some { t with rows := f t.rows }
  others : ∀ name, foldCase name ≠ foldCase e.tableName → db'.table? name = db.table? name
  indexes : db'.indexes = db.indexes

theorem Rewrites.rowsIn {f : List Record → List Record} (rewrites : e.Rewrites f db db') :
    e.rowsIn db' = f (e.rowsIn db) := by
  obtain ⟨t, found, found'⟩ := rewrites.table
  rw [rowsIn_eq found, rowsIn_eq found']

theorem Rewrites.rowsIn_of_other {f : List Record → List Record} {d : Entity} (rewrites : e.Rewrites f db db')
    (other : foldCase d.tableName ≠ foldCase e.tableName) : d.rowsIn db' = d.rowsIn db := by
  rw [Entity.rowsIn, Entity.rowsIn, rewrites.others _ other]

theorem rewrites_of_replaces {f : List Record → List Record} {t t' : Table}
    (replaces : Database.Replaces db db' e.tableName t t') (rewritten : t' = { t with rows := f t.rows }) :
    e.Rewrites f db db' where
  table := ⟨t, replaces.found, rewritten ▸ replaces.table?_self⟩
  others := fun name other => by rw [replaces.table?, if_neg other]
  indexes := by rw [replaces.replaced]; rfl

theorem removal_eq_error (keyAt : e.KeyAt key k) (kind : v.kind? ≠ some k.kind) :
    e.removal v = .error (.badKey e.name k.kind (.wrongKind v)) := by
  refine Checks.bind_eq_error.mpr (.inl ?_)
  rw [requireKeyValue_eq keyAt.index keyAt.column, if_neg kind]

theorem removal_eq_ok_iff {q : Removal} (keyAt : e.KeyAt key k) : e.removal v = .ok q ↔
    v.kind? = some k.kind ∧ q = ⟨e.tableName, [⟨k.name, .compare .equal v⟩]⟩ := by
  rw [removal, Checks.bind_eq_ok]
  simp only [requireKeyValue_eq_ok keyAt.index keyAt.column]
  constructor
  · rintro ⟨c, ⟨kind, rfl⟩, answer⟩
    exact ⟨kind, (Except.ok.inj answer).symm⟩
  · rintro ⟨kind, rfl⟩
    exact ⟨k, ⟨kind, rfl⟩, rfl⟩

end Entity

/-- A row, other than the one with the key `v` itself, refers to the row of `e` with this key. -/
def Schema.Referred (s : Schema) (e : Entity) (db : Database) (v : Value) : Prop :=
  ∃ d ∈ s.entities, ∃ u ∈ d.rowsIn db, d.Refers e u v.cell ∧ (d = e → e.atKey? u.cells ≠ some v.cell)

namespace Table

variable {t : Table} {e : Entity} {key i : Nat} {k c : Column} {v w : Value} {r : Record} {row : Row} {q : Revision}

theorem satisfies_iff_eq {u : Record} {conds : List Condition} (only : t.rows.filter (t.satisfies conds) = [r])
    (member : u ∈ t.rows) : t.satisfies conds u = true ↔ u = r := by
  have asked : u ∈ t.rows.filter (t.satisfies conds) ↔ u = r := by rw [only, List.mem_singleton]
  rwa [List.mem_filter, and_iff_right member] at asked

/-- A key is the same as another when it is stored as the same cell. -/
theorem For.same_key (table : t.For e key k) (keeps : t.Keeps e) (kind : v.kind? = some k.kind) (member : r ∈ t.rows) :
    (r.cells.getD key .null).same v.cell = true ↔ r.cells[key]? = some v.cell := by
  have typed := (keeps.typed r member).getD table.keyAt.column
  have present := Value.cell_ne_null kind
  rw [Cell.same_iff typed (Value.ofStorage_cell kind), List.getD_eq_getElem?_getD]
  cases r.cells[key]? with
  | none => simp [present.symm]
  | some cell =>
    rw [Option.getD_some, Option.some.injEq]
    exact ⟨And.left, fun same => ⟨same, same ▸ present⟩⟩

/-- What an update of a row assigns to a column is the value of the row. Only the key is left as it is, unless it is
the only column. -/
theorem For.mem_revision (table : t.For e key k) (accepted : e.revision row = .ok q)
    (column : e.columns[i]? = some c) :
    (c.name, w) ∈ q.values ↔ row[i]? = some w ∧ (i ≠ key ∨ e.columns.length = 1) := by
  obtain ⟨key', k', v, keyed, column', value, _, _, rfl⟩ := Entity.exists_of_revision accepted
  obtain rfl : key = key' := Option.some.inj (table.keyAt.index.symm.trans keyed)
  obtain rfl : k = k' := Option.some.inj (table.keyAt.column.symm.trans column')
  by_cases single : e.columns.length = 1
  · have inside : i < e.columns.length := (List.getElem?_eq_some_iff.mp column).1
    have first : key < e.columns.length := (List.getElem?_eq_some_iff.mp column').1
    obtain rfl : i = key := by omega
    obtain rfl : k = c := Option.some.inj (column'.symm.trans column)
    simp [single, value, eq_comm]
  · rw [if_neg single, Entity.mem_valuesExcept, or_iff_left single]
    constructor
    · rintro ⟨j, d, other, column', named, value⟩
      obtain rfl := table.position_of_name column' column named
      exact ⟨value, other⟩
    · rintro ⟨value, other⟩
      exact ⟨i, c, other, column, rfl, value⟩

/-- The row with the key of an instance becomes the row of the instance. -/
theorem For.assigned_of_revision (table : t.For e key k) (accepted : e.revision row = .ok q)
    (value : row[key]? = some v) (member : r ∈ t.rows) (keyed : r.cells[key]? = some v.cell) :
    e.assigned q.values r = ⟨r.id, row.map Value.cell⟩ := by
  obtain ⟨_, _, _, _, _, _, sameLength, _⟩ := Entity.exists_of_revision accepted
  refine Record.eq_of_cells rfl (List.ext_getElem? fun i => ?_)
  rw [List.getElem?_map]
  cases column : e.columns[i]? with
  | none =>
    have outside : e.columns.length ≤ i := List.getElem?_eq_none_iff.mp column
    have outside' : row[i]? = none := List.getElem?_eq_none (by omega)
    rw [Entity.assigned, List.getElem?_zipWith, column, outside']
    rfl
  | some c =>
    have inside : i < e.columns.length := (List.getElem?_eq_some_iff.mp column).1
    have width : r.cells.length = e.columns.length := by
      rw [(table.sound.fits r member).width, table.length_columns]
    have cell : r.cells[i]? = some r.cells[i] := List.getElem?_eq_getElem (by omega)
    have value' : row[i]? = some row[i] := List.getElem?_eq_getElem (by omega)
    have listed := fun w => table.mem_revision (w := w) accepted column
    rw [Entity.getElem?_cells_assigned column, cell, value', Option.map_some, Option.map_some]
    cases found : q.values.reverse.lookup c.name with
    | none =>
      -- Nothing is assigned to the key, whose cell is that of the row already.
      have unassigned : (c.name, row[i]) ∉ q.values := fun given => by
        have apart := List.lookup_eq_none_iff.mp found _ (List.mem_reverse.mpr given)
        simp at apart
      have here : i = key := by
        by_contra other
        exact unassigned ((listed _).mpr ⟨value', .inl other⟩)
      subst here
      rw [Option.map_none, Option.getD_none, ← cell, keyed, Option.some.inj (value.symm.trans value')]
    | some w =>
      obtain ⟨before, after, split, _⟩ := List.lookup_eq_some_iff.mp found
      have given : (c.name, w) ∈ q.values := List.mem_reverse.mp (split ▸ by simp)
      have same := ((listed w).mp given).1
      rw [value'] at same
      rw [Option.map_some, Option.getD_some, Option.some.inj same]

end Table

namespace Store

variable {s : Schema} {e : Entity} {db db' : Database} {t : Table} {key : Nat} {k : Column} {α : Type} {μ : Mapping α}
  {a : α} {v : Value} {row : Row} {n : Nat} {m : Migration}

theorem update_eq_ok : (update s μ a).outcome db = (.ok n, db') ↔
    ∃ e row q, s.describe μ.name = .ok e ∧ e.encode (μ.field a) = .ok row ∧ e.revision row = .ok q ∧
      db.update q = .ok (n, db') := by
  simp only [update, entity, Session.bind_eq_ok, Session.mapped_eq_ok, Session.execute_eq_ok]
  constructor
  · rintro ⟨e, _, ⟨described, rfl⟩, row, _, ⟨encoded, rfl⟩, q, _, ⟨accepted, rfl⟩, updated⟩
    exact ⟨e, row, q, described, encoded, accepted, updated⟩
  · rintro ⟨e, row, q, described, encoded, accepted, updated⟩
    exact ⟨e, _, ⟨described, rfl⟩, row, _, ⟨encoded, rfl⟩, q, _, ⟨accepted, rfl⟩, updated⟩

theorem delete_eq_ok : (delete s μ v).outcome db = (.ok n, db') ↔
    ∃ e q, s.describe μ.name = .ok e ∧ e.removal v = .ok q ∧ db.delete q = .ok (n, db') := by
  simp only [delete, entity, Session.bind_eq_ok, Session.mapped_eq_ok, Session.execute_eq_ok]
  constructor
  · rintro ⟨e, _, ⟨described, rfl⟩, q, _, ⟨accepted, rfl⟩, deleted⟩
    exact ⟨e, q, described, accepted, deleted⟩
  · rintro ⟨e, q, described, accepted, deleted⟩
    exact ⟨e, _, ⟨described, rfl⟩, q, _, ⟨accepted, rfl⟩, deleted⟩

namespace Hosts

/-- The tables that columns refer to are there. -/
theorem parents (hosts : Hosts s db) (consistent : s.Consistent) (known : e ∈ s.entities)
    (table : t.For e key k) : db.requireParents t.columns = .ok () := by
  refine Database.requireParents_eq_ok.mpr fun definition listed name refers => ?_
  rw [table.columns_eq] at listed
  obtain ⟨c, column, rfl⟩ := List.mem_map.mp listed
  obtain ⟨i, position⟩ := List.getElem?_of_mem known
  have declared : c.references = some name := by
    rw [Entity.columnDefinition_references] at refers
    split at refers
    · cases refers
    · exact refers
  obtain ⟨_, d, _, _, target, named, _⟩ := consistent.references i e c name position column declared
  obtain ⟨u, found, _⟩ := hosts.tables d (List.mem_of_getElem? target)
  rw [← named, found]
  rfl

/-- What is asked for by a key is the one row that has it, or nothing. -/
theorem filter_key (hosts : Hosts s db) (known : e ∈ s.entities) (keyAt : e.KeyAt key k)
    (found : db.table? e.tableName = some t) (kind : v.kind? = some k.kind) :
    (∃ r, e.RowAt db v r ∧ t.rows.filter (t.satisfies [⟨k.name, .compare .equal v⟩]) = [r]) ∨
      v.cell ∉ e.keysIn db ∧ t.rows.filter (t.satisfies [⟨k.name, .compare .equal v⟩]) = [] := by
  obtain ⟨table, keeps⟩ := hosts.table known keyAt found
  by_cases any : ∃ r ∈ t.rows, r.cells[key]? = some v.cell
  · obtain ⟨r, member, keyed⟩ := any
    have same := (table.same_key keeps kind member).mpr keyed
    refine .inl ⟨r, ⟨?_, ?_, fun u listed keyed' => ?_⟩, table.filter_key kind member same⟩
    · rwa [Entity.rowsIn_eq found]
    · rw [Entity.atKey?_eq keyAt, keyed]
    · rw [Entity.rowsIn_eq found] at listed
      rw [Entity.atKey?_eq keyAt] at keyed'
      exact table.eq_of_key kind listed member ((table.same_key keeps kind listed).mpr keyed') same
  · refine .inr ⟨fun listed => ?_, List.filter_eq_nil_iff.mpr fun r member met => ?_⟩
    · obtain ⟨r, member, keyed⟩ := (Entity.mem_keysIn_iff (Value.cell_ne_null kind)).mp listed
      rw [Entity.rowsIn_eq found] at member
      rw [Entity.atKey?_eq keyAt] at keyed
      exact any ⟨r, member, keyed⟩
    · rw [table.satisfies_key kind] at met
      exact any ⟨r, member, (table.same_key keeps kind member).mp met⟩

theorem filter_key_of_absent (hosts : Hosts s db) (known : e ∈ s.entities) (keyAt : e.KeyAt key k)
    (found : db.table? e.tableName = some t) (kind : v.kind? = some k.kind) (absent : v.cell ∉ e.keysIn db) :
    t.rows.filter (t.satisfies [⟨k.name, .compare .equal v⟩]) = [] := by
  rcases hosts.filter_key known keyAt found kind with ⟨r, rowAt, _⟩ | ⟨_, none⟩
  · exact absurd ((Entity.mem_keysIn_iff (Value.cell_ne_null kind)).mpr ⟨r, rowAt.member, rowAt.key⟩) absent
  · exact none

/-- An update concerns the row with the key of the instance, and gives it the cells of the instance. -/
theorem update_keyed (hosts : Hosts s db) (consistent : s.Consistent) (described : s.describe μ.name = .ok e)
    (updated : (Store.update s μ a).outcome db = (.ok n, db')) :
    ∃ row v, e.encode (μ.field a) = .ok row ∧ e.atKey? row = some v ∧
      (n = 1 ∧ (∃ r, e.RowAt db v r ∧
          e.Rewrites (·.map fun u => if u = r then ⟨r.id, row.map Value.cell⟩ else u) db db') ∨
        n = 0 ∧ v.cell ∉ e.keysIn db ∧ db' = db) := by
  obtain ⟨d, row, q, described', encoded, accepted, answer⟩ := update_eq_ok.mp updated
  obtain rfl : e = d := Except.ok.inj (described.symm.trans described')
  have known := mem_of_describe described
  have valid := Entity.violations_eq_nil.mp (consistent.valid e known)
  obtain ⟨key, k, keyAt⟩ := consistent.keyAt known
  have revises := Entity.revises_of_revision valid keyAt (Entity.fits_of_encode keyAt encoded) accepted
  obtain ⟨key', k', v, keyed, column, value, _, kind, asked⟩ := Entity.exists_of_revision accepted
  obtain rfl : key = key' := Option.some.inj (keyAt.index.symm.trans keyed)
  obtain rfl : k = k' := Option.some.inj (keyAt.column.symm.trans column)
  have conditions : q.conditions = [⟨k.name, .compare .equal v⟩] := by rw [asked]
  obtain ⟨t, t', given, replaces, resolved, counted, revised⟩ := Database.update_steps answer
  rw [revises.table] at replaces
  obtain ⟨table, _⟩ := hosts.table known keyAt replaces.found
  refine ⟨row, v, encoded, by rw [Entity.atKey?_eq keyAt, value], ?_⟩
  rcases hosts.filter_key known keyAt replaces.found kind with ⟨r, rowAt, only⟩ | ⟨absent, none⟩
  · refine .inl ⟨by rw [counted, conditions, only, List.length_singleton], r, rowAt, ?_⟩
    have rows := table.rows_of_revise revises resolved revised
    obtain ⟨changed, rfl, _⟩ := Database.revise_eq_ok revised
    refine Entity.rewrites_of_replaces replaces (congrArg (fun rows => { t with rows := rows }) (rows.trans ?_))
    refine List.map_congr_left fun u member => ?_
    have met : t.satisfies q.conditions u = true ↔ u = r := by
      rw [conditions]
      exact Table.satisfies_iff_eq only member
    by_cases here : u = r
    · subst here
      have cells := rowAt.key
      rw [Entity.atKey?_eq keyAt] at cells
      rw [if_pos (met.mpr rfl), if_pos rfl, table.assigned_of_revision accepted value member cells]
    · rw [if_neg (mt met.mp here), if_neg here]
  · refine .inr ⟨by rw [counted, conditions, none, List.length_nil], absent, ?_⟩
    rw [conditions, none] at revised
    obtain rfl : t = t' := Except.ok.inj revised
    rw [replaces.replaced, hosts.sound.setTable_eq_self replaces.found]

theorem update_absent (hosts : Hosts s db) (consistent : s.Consistent) (described : s.describe μ.name = .ok e)
    (encoded : e.encode (μ.field a) = .ok row) (keyAt : e.KeyAt key k) (value : e.atKey? row = some v)
    (kind : v.kind? = some k.kind) (absent : v.cell ∉ e.keysIn db) :
    (Store.update s μ a).outcome db = (.ok 0, db) := by
  have known := mem_of_describe described
  have valid := Entity.violations_eq_nil.mp (consistent.valid e known)
  have fits := Entity.fits_of_encode keyAt encoded
  obtain ⟨t, found, _⟩ := hosts.tables e known
  obtain ⟨table, _⟩ := hosts.table known keyAt found
  rw [Entity.atKey?_eq keyAt] at value
  have accepted := (Entity.revision_eq_ok keyAt.index keyAt.column value fits.length).mpr ⟨kind, rfl⟩
  have revises := Entity.revises_of_revision valid keyAt fits accepted
  have none := hosts.filter_key_of_absent known keyAt found kind absent
  have few : (if e.columns.length = 1 then [(k.name, v)] else e.valuesExcept key row).length ≤ Database.maxColumns := by
    have width := hosts.width e known
    have others := Entity.length_valuesExcept keyAt.index fits.length
    split
    · exact Nat.le_of_ble_eq_true rfl
    · omega
  refine update_eq_ok.mpr ⟨e, row, _, described, encoded, accepted, ?_⟩
  refine Database.update_of_none hosts.sound hosts.consistent (Database.withinLimits_revision _ few rfl) found
    (fun p listed => ?_) (hosts.parents consistent known table) none
  obtain ⟨c, member, named⟩ := revises.named p listed
  obtain ⟨i, column⟩ := List.getElem?_of_mem member
  exact ⟨_, named ▸ table.target?_eq column⟩

/-- A deletion takes out the row with the key, and nothing is found under the key afterwards. -/
theorem delete_keyed (hosts : Hosts s db) (consistent : s.Consistent) (described : s.describe μ.name = .ok e)
    (deleted : (delete s μ v).outcome db = (.ok n, db')) :
    (n = 1 ∧ (∃ r, e.RowAt db v r ∧ e.Rewrites (·.filter (· ≠ r)) db db') ∨
      n = 0 ∧ v.cell ∉ e.keysIn db ∧ db' = db) ∧
      v.cell ∉ e.keysIn db' := by
  obtain ⟨d, q, described', accepted, answer⟩ := delete_eq_ok.mp deleted
  obtain rfl : e = d := Except.ok.inj (described.symm.trans described')
  have known := mem_of_describe described
  obtain ⟨key, k, keyAt⟩ := consistent.keyAt known
  obtain ⟨kind, rfl⟩ := (Entity.removal_eq_ok_iff keyAt).mp accepted
  obtain ⟨t, replaces, counted⟩ := Database.delete_eq_ok answer
  obtain ⟨table, _⟩ := hosts.table known keyAt replaces.found
  rcases hosts.filter_key known keyAt replaces.found kind with ⟨r, rowAt, only⟩ | ⟨absent, none⟩
  · have kept : (t.rows.filter fun u => !t.satisfies [⟨k.name, .compare .equal v⟩] u) = t.rows.filter (· ≠ r) := by
      refine List.filter_congr fun u member => ?_
      rw [Bool.eq_iff_iff, Bool.not_eq_true', Bool.eq_false_iff, decide_eq_true_eq]
      exact not_congr (Table.satisfies_iff_eq only member)
    refine ⟨.inl ⟨by rw [counted, only, List.length_singleton], r, rowAt,
      Entity.rewrites_of_replaces replaces (congrArg (fun rows => { t with rows := rows }) kept)⟩, fun again => ?_⟩
    obtain ⟨u, member, keyed⟩ := (Entity.mem_keysIn_iff (Value.cell_ne_null kind)).mp again
    rw [Entity.rowsIn_eq replaces.table?_self, kept] at member
    obtain ⟨stored, other⟩ := List.mem_filter.mp member
    exact of_decide_eq_true other (rowAt.only u (by rwa [Entity.rowsIn_eq replaces.found]) keyed)
  · have nothing := Database.delete_of_none hosts.sound hosts.consistent
      (Database.withinLimits_of_delete answer) replaces.found (hosts.parents consistent known table) none
    obtain ⟨rfl, rfl⟩ := Prod.mk.inj (Except.ok.inj (nothing.symm.trans answer))
    exact ⟨.inr ⟨rfl, absent, rfl⟩, absent⟩

theorem delete_absent (hosts : Hosts s db) (consistent : s.Consistent) (described : s.describe μ.name = .ok e)
    (keyAt : e.KeyAt key k) (kind : v.kind? = some k.kind) (absent : v.cell ∉ e.keysIn db) :
    (delete s μ v).outcome db = (.ok 0, db) := by
  have known := mem_of_describe described
  obtain ⟨t, found, _⟩ := hosts.tables e known
  obtain ⟨table, _⟩ := hosts.table known keyAt found
  refine delete_eq_ok.mpr ⟨e, _, described, (Entity.removal_eq_ok_iff keyAt).mpr ⟨kind, rfl⟩, ?_⟩
  exact Database.delete_of_none hosts.sound hosts.consistent (Database.withinLimits_removal _ rfl) found
    (hosts.parents consistent known table) (hosts.filter_key_of_absent known keyAt found kind absent)

/-- A row that was deleted was not referred to. -/
theorem not_referred_of_deleted (hosts : Hosts s db) (hosts' : Hosts s db') (consistent : s.Consistent)
    (known : e ∈ s.entities) (present : v.cell ≠ .null) {r : Record} (rowAt : e.RowAt db v r)
    (rewrites : e.Rewrites (·.filter (· ≠ r)) db db') (absent : v.cell ∉ e.keysIn db') : ¬ s.Referred e db v := by
  rintro ⟨d, known', u, member, ⟨i, c, column, other, refers, cell⟩, apart⟩
  have stays : u ∈ d.rowsIn db' := by
    by_cases same : d = e
    · subst same
      rw [rewrites.rowsIn]
      exact List.mem_filter.mpr ⟨member, decide_eq_true fun here => apart rfl (here ▸ rowAt.key)⟩
    · rwa [rewrites.rowsIn_of_other fun folded => same (hosts.eq_of_foldCase consistent known' known folded)]
  obtain ⟨parent, known'', named, listed⟩ := hosts'.leads consistent known' stays column other refers cell present
  obtain rfl : parent = e := List.inj_on_of_nodup_map consistent.tables known'' known named
  exact absent listed

theorem isConsistent_of_not_referred (hosts : Hosts m.schema db) (belongs : m.Belongs db)
    (consistent : m.schema.Consistent) (known : e ∈ m.schema.entities) (keyAt : e.KeyAt key k)
    (found : db.table? e.tableName = some t) {r : Record} (rowAt : e.RowAt db v r) {conds : List Condition}
    (only : t.rows.filter (t.satisfies conds) = [r]) (free : ¬ m.schema.Referred e db v) :
    (db.setTable { t with rows := t.rows.filter fun u => !t.satisfies conds u }).isConsistent = true := by
  refine hosts.isConsistent_of_kept belongs consistent known keyAt found rfl ?_
  intro d known' u stored stays gone there met refers
  obtain rfl : gone = r := (Table.satisfies_iff_eq only there).mp (by simpa using met)
  have keyed := rowAt.key
  rw [Entity.atKey?_eq keyAt] at keyed
  rw [List.getD_eq_getElem?_getD, keyed, Option.getD_some] at refers
  refine free ⟨d, known', u, stored, refers, fun same keyed' => ?_⟩
  obtain rfl : u = gone := rowAt.only u (same ▸ stored) keyed'
  have unmet := stays same
  rw [met] at unmet
  cases unmet

/-- The row with a key is deleted unless another row refers to it. -/
theorem delete_present (hosts : Hosts m.schema db) (belongs : m.Belongs db)
    (consistent : m.schema.Consistent) (described : m.schema.describe μ.name = .ok e) (keyAt : e.KeyAt key k)
    (kind : v.kind? = some k.kind) (present : v.cell ∈ e.keysIn db) :
    (¬ m.schema.Referred e db v ∧ ∃ db', (delete m.schema μ v).outcome db = (.ok 1, db')) ∨
      m.schema.Referred e db v ∧
        (delete m.schema μ v).outcome db = (.error (.database .danglingReference), db) := by
  have known := mem_of_describe described
  obtain ⟨t, found, _⟩ := hosts.tables e known
  obtain ⟨table, _⟩ := hosts.table known keyAt found
  have accepted := (Entity.removal_eq_ok_iff (v := v) keyAt).mpr ⟨kind, rfl⟩
  have within : (Statement.delete ⟨e.tableName, [⟨k.name, .compare .equal v⟩]⟩).WithinLimits :=
    Database.withinLimits_removal _ rfl
  have answer := Database.delete_eq within found (hosts.parents consistent known table)
  rcases hosts.filter_key known keyAt found kind with ⟨r, rowAt, only⟩ | ⟨absent, _⟩
  · rw [only, List.length_singleton, Database.requireConsistent] at answer
    split at answer
    · have deleted := delete_eq_ok.mpr ⟨e, _, described, accepted, answer⟩
      obtain ⟨⟨_, r', rowAt', rewrites⟩ | ⟨none, _⟩, absent⟩ := hosts.delete_keyed consistent described deleted
      · have hosts' := hosts.change consistent (.removed known rfl answer)
        exact .inl ⟨hosts.not_referred_of_deleted hosts' consistent known (Value.cell_ne_null kind) rowAt' rewrites
          absent, _, deleted⟩
      · cases none
    · rename_i dangling
      refine .inr ⟨by_contra fun free => dangling ?_, Session.mapped_bind_eq_error.mpr (.inr ⟨e, described, ?_⟩)⟩
      · exact hosts.isConsistent_of_not_referred belongs consistent known keyAt found rowAt only free
      · exact Session.mapped_bind_eq_error.mpr (.inr ⟨_, accepted, Session.execute_eq_error.mpr ⟨_, answer, rfl, rfl⟩⟩)
  · exact absurd present absent

theorem find_absent (hosts : Hosts s db) (described : s.describe μ.name = .ok e) (keyAt : e.KeyAt key k)
    (kind : v.kind? = some k.kind) (absent : v.cell ∉ e.keysIn db) : (find s μ v).outcome db = (.ok none, db) := by
  have known := mem_of_describe described
  obtain ⟨t, found, _⟩ := hosts.tables e known
  obtain ⟨table, _⟩ := hosts.table known keyAt found
  exact find_of_absent described table found kind (hosts.filter_key_of_absent known keyAt found kind absent)

end Hosts

/-- In a database that a program has reached, an update gives its cells to the one row with the key of the instance,
and a deletion takes out the one row with the key. No other row and no other table changes, and nothing at all where no
row has the key. Nothing is left to delete or to find under a key that was deleted. A row with the key can only be kept
by another row that refers to it. -/
theorem keyed_rows {cat : Catalog} {m : Migration} {db₀ : Database} (made : Migration.ofCatalog cat = .ok m)
    (created : m.Creates db₀) (reached : Reaches m.schema db₀ db) (described : m.schema.describe μ.name = .ok e) :
    (∀ a n db', (update m.schema μ a).outcome db = (.ok n, db') →
      ∃ row v, e.encode (μ.field a) = .ok row ∧ e.atKey? row = some v ∧
        (n = 1 ∧ (∃ r, e.RowAt db v r ∧
            e.Rewrites (·.map fun u => if u = r then ⟨r.id, row.map Value.cell⟩ else u) db db') ∨
          n = 0 ∧ v.cell ∉ e.keysIn db ∧ db' = db)) ∧
    (∀ v n db', (delete m.schema μ v).outcome db = (.ok n, db') →
      (n = 1 ∧ (∃ r, e.RowAt db v r ∧ e.Rewrites (·.filter (· ≠ r)) db db') ∨
        n = 0 ∧ v.cell ∉ e.keysIn db ∧ db' = db) ∧
      (delete m.schema μ v).outcome db' = (.ok 0, db') ∧ (find m.schema μ v).outcome db' = (.ok none, db')) ∧
    ∀ k, e.key? = some k →
      (∀ v, v.kind? ≠ some k.kind →
        (delete m.schema μ v).outcome db = (.error (.mapping (.badKey e.name k.kind (.wrongKind v))), db)) ∧
      (∀ v, v.kind? = some k.kind → v.cell ∉ e.keysIn db →
        (delete m.schema μ v).outcome db = (.ok 0, db) ∧
        ∀ a row, e.encode (μ.field a) = .ok row → e.atKey? row = some v →
          (update m.schema μ a).outcome db = (.ok 0, db)) ∧
      ∀ v, v.kind? = some k.kind → v.cell ∈ e.keysIn db →
        (¬ m.schema.Referred e db v ∧ ∃ db', (delete m.schema μ v).outcome db = (.ok 1, db')) ∨
        m.schema.Referred e db v ∧
          (delete m.schema μ v).outcome db = (.error (.database .danglingReference), db) := by
  have consistent := Migration.consistent_of_ofCatalog made
  have hosts := reached.hosts consistent created.hosts
  have belongs : m.Belongs db := by
    obtain ⟨belongs, leads⟩ := Migration.belongs_of_up created.done
    exact (belongs.reaches leads reached).1
  obtain ⟨key, k, keyAt⟩ := consistent.keyAt (mem_of_describe described)
  refine ⟨fun a n db' => hosts.update_keyed consistent described, fun v n db' deleted => ?_, fun k' keyed => ?_⟩
  · obtain ⟨d, q, described', accepted, answer⟩ := delete_eq_ok.mp deleted
    obtain rfl : e = d := Except.ok.inj (described.symm.trans described')
    obtain ⟨kind, rfl⟩ := (Entity.removal_eq_ok_iff keyAt).mp accepted
    have hosts' := hosts.change consistent (.removed (mem_of_describe described) rfl answer)
    obtain ⟨taken, absent⟩ := hosts.delete_keyed consistent described deleted
    exact ⟨taken, hosts'.delete_absent consistent described keyAt kind absent,
      hosts'.find_absent described keyAt kind absent⟩
  · obtain rfl : k' = k := Option.some.inj (keyed.symm.trans keyAt.key?_eq)
    refine ⟨fun v other => ?_, fun v kind absent => ?_, fun v kind present => ?_⟩
    · have refused := Entity.removal_eq_error keyAt other
      refine Session.mapped_bind_eq_error.mpr (.inr ⟨e, described, ?_⟩)
      exact Session.mapped_bind_eq_error.mpr (.inl ⟨_, refused, rfl, rfl⟩)
    · exact ⟨hosts.delete_absent consistent described keyAt kind absent, fun a row encoded value =>
        hosts.update_absent consistent described encoded keyAt value kind absent⟩
    · exact hosts.delete_present belongs consistent described keyAt kind present

/-- A tag is known by any time of its millisecond. One of two tags is given another label or deleted, and the other
one is kept by a note. -/
theorem keyed_rows_millisecond :
    let label : Column := { name := "label", kind := .text }
    let time : Column := { name := "time", kind := .timestamp, isKey := true }
    let id : Column := { name := "id", kind := .integer, isKey := true }
    let tag : Entity := { name := "Tag", columns := [label, time] }
    let note : Entity :=
      { name := "Note", columns := [id, { name := "tag", kind := .timestamp, references := some "Tag" }] }
    let cat : Catalog := ⟨"1", [tag, note]⟩
    let m : Migration := ⟨⟨[tag, note], [("Note", 1), ("Tag", 0)]⟩, cat.fingerprint⟩
    let named : String → Mapping (List (String × Value)) := fun name => ⟨name, fun a c => a.lookup c, fun _ => .ok []⟩
    let first : Value := .timestamp ⟨0, 1200000, by decide, by decide, by decide⟩
    let later : Value := .timestamp ⟨0, 1999999, by decide, by decide, by decide⟩
    let second : Value := .timestamp ⟨2, 0, by decide, by decide, by decide⟩
    let db₀ := m.up.after {}
    let db₁ := Operation.after m.schema db₀ (.insert (named "Tag") [("label", .text "a"), ("time", first)])
    let db₂ := Operation.after m.schema db₁ (.insert (named "Tag") [("label", .text "b"), ("time", second)])
    let db := Operation.after m.schema db₂ (.insert (named "Note") [("id", .integer 1), ("tag", second)])
    let revised := (update m.schema (named "Tag") [("label", .text "c"), ("time", later)]).after db
    let deleted := (delete m.schema (named "Tag") later).after db
    Migration.ofCatalog cat = .ok m ∧ m.Creates db₀ ∧ Reaches m.schema db₀ db ∧
      m.schema.describe "Tag" = .ok tag ∧
      tag.rowsIn db = [⟨1, [.text "a", .integer 1]⟩, ⟨2000, [.text "b", .integer 2000]⟩] ∧
      (update m.schema (named "Tag") [("label", .text "c"), ("time", later)]).outcome db = (.ok 1, revised) ∧
      tag.rowsIn revised = [⟨1, [.text "c", .integer 1]⟩, ⟨2000, [.text "b", .integer 2000]⟩] ∧
      (delete m.schema (named "Tag") later).outcome db = (.ok 1, deleted) ∧
      (delete m.schema (named "Tag") later).outcome deleted = (.ok 0, deleted) ∧
      (find m.schema (named "Tag") later).outcome deleted = (.ok none, deleted) ∧
      m.schema.Referred tag db second ∧
      (delete m.schema (named "Tag") second).outcome db = (.error (.database .danglingReference), db) := by
  intro label time id tag note cat m named first later second db₀ db₁ db₂ db revised deleted
  have made : Migration.ofCatalog cat = .ok m := Migration.ofCatalog_eq_ok.mpr ⟨by decide +kernel, rfl⟩
  have done : (m.up.outcome {}).1 = .ok () := by decide +kernel
  have created : m.Creates db₀ := ⟨Session.outcome_eq done, by decide +kernel⟩
  have reached : Reaches m.schema db₀ db := .next _ (.next _ (.next _ .refl))
  have described : m.schema.describe (named "Tag").name = .ok tag := by decide +kernel
  have rows : tag.rowsIn db = [⟨1, [.text "a", .integer 1]⟩, ⟨2000, [.text "b", .integer 2000]⟩] := by decide +kernel
  have changed : ((update m.schema (named "Tag") [("label", .text "c"), ("time", later)]).outcome db).1 = .ok 1 := by
    decide +kernel
  have removed : ((delete m.schema (named "Tag") later).outcome db).1 = .ok 1 := by decide +kernel
  have kept : ((delete m.schema (named "Tag") second).outcome db).1 ≠ .ok 1 := by decide +kernel
  have updated := Session.outcome_eq changed
  have taken := Session.outcome_eq removed
  obtain ⟨_, deletes, keyed⟩ := keyed_rows made created reached described
  obtain ⟨_, again, missing⟩ := deletes later 1 deleted taken
  obtain ⟨_, _, present⟩ := keyed time rfl
  have listed : second.cell ∈ tag.keysIn db := by decide +kernel
  refine ⟨made, created, reached, described, rows, updated, by decide +kernel, taken, again, missing, ?_⟩
  rcases present second rfl listed with ⟨_, db', answer⟩ | ⟨referred, refused⟩
  · exact absurd (congrArg Prod.fst answer) kept
  · exact ⟨referred, refused⟩

end Store

end Tabular
