import Tabular.Proofs.EntityTables

/-!
# Rows in the table of an entity

What the statements that a store makes put into the table of an entity. `Keeps` is what all of them keep: cells
belong to their columns, and keys that storage chooses are positive and not larger than the largest id ever used.
It holds of a new table (`keeps_empty`) and after every insertion, update and deletion (`Keeps.insert`,
`Keeps.update`, `Keeps.sublist`).
-/

namespace Tabular

open Sql

namespace Entity

variable {e : Entity} {c k : Column} {key i : Nat} {v w : Value} {row : Row}

/-- Where storage chooses the key, an unset key goes to the row as absent and a negative one is refused. -/
theorem encodeKey_eq_ok : e.encodeKey key i c v = .ok w ↔
    (e.fillsKey key i = true → ∀ n, v = .integer n → ¬ n < 0) ∧
      w = if e.fillsKey key i = true ∧ v = .integer unsetKey then .null else v := by
  have others : v.integer? = none → e.encodeKey key i c v = .ok v := by
    cases v with
    | integer n => simp [Value.integer?]
    | null => exact fun _ => rfl
    | text s => exact fun _ => rfl
    | timestamp t => exact fun _ => rfl
  cases number : v.integer? with
  | none =>
    have different : ∀ n, v ≠ .integer n := by
      rintro n rfl
      cases number
    rw [others number, if_neg fun unset => different unsetKey unset.2, Except.ok.injEq]
    exact ⟨fun same => ⟨fun _ n number => absurd number (different n), same.symm⟩, fun same => same.2.symm⟩
  | some n =>
    obtain rfl : v = .integer n := by cases v <;> simp_all [Value.integer?]
    rw [encodeKey]
    by_cases fills : e.fillsKey key i = true
    · rw [if_pos fills]
      by_cases unset : n = unsetKey
      · simp [fills, unset, unsetKey, eq_comm]
      · rw [if_neg unset]
        by_cases negative : n < 0
        · rw [if_pos negative]
          constructor
          · intro refused
            cases refused
          · rintro ⟨kept, _⟩
            exact absurd negative (kept fills n rfl)
        · simp [fills, unset, Int64.not_lt.mp negative, negative, eq_comm]
    · simp [fills, eq_comm]

/-- The value in the row of an instance is its field, less a key that is unset. -/
theorem value_of_encode {field : String → Option Value} (keyAt : e.KeyAt key k) (encoded : e.encode field = .ok row)
    (column : e.columns[i]? = some c) :
    ∃ v, field c.name = some v ∧ (e.fillsKey key i = true → ∀ n, v = .integer n → ¬ n < 0) ∧
      row[i]? = some (if e.fillsKey key i = true ∧ v = .integer unsetKey then .null else v) := by
  obtain ⟨key', index, sameLength, each⟩ := encode_eq_ok.mp encoded
  obtain rfl : key = key' := Option.some.inj (keyAt.index.symm.trans index)
  have inside : i < row.length := by
    rw [sameLength]
    exact (List.getElem?_eq_some_iff.mp column).1
  have value : row[i]? = some row[i] := List.getElem?_eq_getElem inside
  obtain ⟨v, given, stored, _⟩ := encodeField_eq_ok.mp (each i c _ column value)
  obtain ⟨kept, same⟩ := encodeKey_eq_ok.mp stored
  exact ⟨v, given, kept, by rw [value, same]⟩

theorem fits_of_encode {field : String → Option Value} (keyAt : e.KeyAt key k) (encoded : e.encode field = .ok row) :
    e.Fits key row := by
  obtain ⟨key', index, sameLength, each⟩ := encode_eq_ok.mp encoded
  obtain rfl : key = key' := Option.some.inj (keyAt.index.symm.trans index)
  exact fits_encodeField sameLength each

/-- A key that storage is not to choose is positive. -/
theorem key_of_encode {field : String → Option Value} (keyAt : e.KeyAt key k) (encoded : e.encode field = .ok row)
    (auto : e.autoincrement = true) (has : e.lacksKey key row = false) :
    ∃ n, row[key]? = some (.integer n) ∧ 0 < n := by
  obtain ⟨w, value, kind⟩ := keyAt.value_of_fits (fits_of_encode keyAt encoded) has
  obtain ⟨v, _, kept, stored⟩ := value_of_encode keyAt encoded keyAt.column
  have fills : e.fillsKey key key = true := by simp [fillsKey, auto]
  obtain rfl := Option.some.inj (value.symm.trans stored)
  rw [keyAt.counted auto] at kind
  by_cases unset : v = .integer unsetKey
  · rw [if_pos ⟨fills, unset⟩] at kind
    cases kind
  · rw [if_neg fun both => unset both.2] at kind value
    cases v with
    | integer n =>
      have different : unsetKey ≠ n := fun zero => unset (by rw [zero])
      exact ⟨n, value, Int64.lt_of_le_of_ne (Int64.not_lt.mp (kept fills n rfl)) different⟩
    | null => cases kind
    | text s => cases kind
    | timestamp t => cases kind

/-- An update as the store makes it: columns are set to what they may hold, and the key is set to itself at
most. -/
structure Revises (e : Entity) (k : Column) (q : Revision) : Prop where
  table : q.table = e.tableName
  suited : ∀ p ∈ q.values, ∃ c ∈ e.columns, c.name = p.1 ∧ (p.2 = .null ∨ p.2.kind? = some c.kind)
  keyed : ∀ v, (k.name, v) ∈ q.values → v.kind? = some k.kind ∧ q.conditions = [⟨k.name, .compare .equal v⟩]

theorem Revises.named {q : Revision} (revises : e.Revises k q) :
    ∀ p ∈ q.values, ∃ c ∈ e.columns, c.name = p.1 := by
  intro p listed
  obtain ⟨c, known, named, _⟩ := revises.suited p listed
  exact ⟨c, known, named⟩

/-- A column that is not at the position of the key does not bear its name. -/
private theorem name_ne_key (valid : e.Valid) (keyAt : e.KeyAt key k) (column : e.columns[i]? = some c)
    (other : i ≠ key) : c.name ≠ k.name := by
  intro same
  have inside : i < e.columns.length := (List.getElem?_eq_some_iff.mp column).1
  refine other ((List.getElem?_inj (by simpa using inside) valid.distinct).mp ?_)
  rw [List.getElem?_map, List.getElem?_map, column, keyAt.column, Option.map_some, Option.map_some, same]

theorem revises_of_revision {q : Revision} (valid : e.Valid) (keyAt : e.KeyAt key k) (fits : e.Fits key row)
    (accepted : e.revision row = .ok q) : e.Revises k q := by
  obtain ⟨key', k', v, keyed, column, _, _, kind, rfl⟩ := exists_of_revision accepted
  obtain rfl : key = key' := Option.some.inj (keyAt.index.symm.trans keyed)
  obtain rfl : k = k' := Option.some.inj (keyAt.column.symm.trans column)
  -- An entity that consists of its key sets the key of the row that is found under it.
  by_cases single : e.columns.length = 1
  · refine ⟨rfl, ?_, ?_⟩
    · intro p listed
      rw [if_pos single] at listed
      obtain rfl := List.mem_singleton.mp listed
      exact ⟨k, List.mem_of_getElem? column, rfl, .inr kind⟩
    · intro w listed
      rw [if_pos single] at listed
      obtain ⟨-, rfl⟩ := Prod.mk.inj (List.mem_singleton.mp listed)
      exact ⟨kind, rfl⟩
  · refine ⟨rfl, ?_, ?_⟩
    · intro p listed
      rw [if_neg single] at listed
      obtain ⟨i, d, other, column, named, value⟩ := mem_valuesExcept.mp listed
      refine ⟨d, List.mem_of_getElem? column, named, ?_⟩
      rcases accepts_iff.mp (fits.accepted i d _ column value) with kind | ⟨absent, _⟩
      · exact .inr kind
      · exact .inl absent
    · intro w listed
      rw [if_neg single] at listed
      obtain ⟨i, d, other, column, named, _⟩ := mem_valuesExcept.mp listed
      exact absurd named (name_ne_key valid keyAt column other)

/-- An update with conditions leaves the key alone. -/
theorem key_notMem_of_revisionWhere {values : List (String × Value)} {conds : List Condition} {q : Revision}
    (keyAt : e.KeyAt key k) (accepted : e.revisionWhere values conds = .ok q) : ∀ v, (k.name, v) ∉ q.values := by
  intro v listed
  rw [revisionWhere_eq_ok accepted] at listed
  obtain ⟨c, found, other, _⟩ := assignable_of_revisionWhere accepted _ listed
  rw [keyAt.key?_eq, Option.map_some, name_of_column? found] at other
  exact other rfl

theorem revises_of_revisionWhere {values : List (String × Value)} {conds : List Condition} {q : Revision}
    (keyAt : e.KeyAt key k) (accepted : e.revisionWhere values conds = .ok q) : e.Revises k q := by
  have beside := key_notMem_of_revisionWhere keyAt accepted
  have assignable := assignable_of_revisionWhere accepted
  obtain rfl := revisionWhere_eq_ok accepted
  refine ⟨rfl, ?_, fun v listed => absurd listed (beside v)⟩
  intro p listed
  obtain ⟨c, found, _, suits⟩ := assignable p listed
  exact ⟨c, List.mem_of_find?_eq_some found, name_of_column? found, suits.imp_left And.left⟩

end Entity

/-- A row whose cells belong to the columns of an entity. -/
def Record.OfColumns (r : Record) (e : Entity) : Prop :=
  ∀ (i : Nat) (c : Column) (v : Cell), e.columns[i]? = some c → r.cells[i]? = some v → Cell.OfStorage c.kind.storage v

theorem Record.OfColumns.getD {r : Record} {e : Entity} {i : Nat} {c : Column} (typed : r.OfColumns e)
    (column : e.columns[i]? = some c) : Cell.OfStorage c.kind.storage (r.cells.getD i .null) := by
  rw [List.getD_eq_getElem?_getD]
  cases cell : r.cells[i]? with
  | none => trivial
  | some v => exact typed i c v column cell

/-- What every row in the table of an entity has, whatever was done with it. -/
structure Table.Keeps (t : Table) (e : Entity) : Prop where
  typed : ∀ r ∈ t.rows, r.OfColumns e
  keyed : ∀ r ∈ t.rows, ∀ key, e.keyIndex? = some key → r.cells.getD key .null ≠ .null
  started : 0 ≤ t.lastId
  generated : e.autoincrement = true → ∀ r ∈ t.rows, 0 < r.id ∧ r.id ≤ t.lastId

namespace Table

open Database

variable {t t' : Table} {e : Entity} {key i : Nat} {k : Column} {given : List (Target × Cell)} {r s : Record}
  {rows : List Record}

theorem keeps_empty {d : TableDefinition} : Keeps { definition := d } e where
  typed := by simp
  keyed := by simp
  started := Int64.le_refl 0
  generated := by simp

theorem Keeps.sublist (keeps : t.Keeps e) (kept : rows.Sublist t.rows) : Keeps { t with rows := rows } e where
  typed := fun r member => keeps.typed r (kept.subset member)
  keyed := fun r member => keeps.keyed r (kept.subset member)
  started := keeps.started
  generated := fun auto r member => keeps.generated auto r (kept.subset member)

section Inserted

variable {field : String → Option Value} {row : Row} {mode : Conflict} {asked : Insertion} {id : Int64}
  {done : Option Int64}

theorem For.typed_inserted (table : t.For e key k) (fits : e.Fits key row)
    (accepted : e.insertion mode row = .ok asked) (resolved : Resolved t (cellsOf asked.values) given)
    (chosen : newId t given = .ok id) : (t.withId id (newCells t given)).OfColumns e := by
  intro i c v column cell
  rw [table.cells_inserted fits accepted resolved chosen, List.getElem?_map, Entity.getElem?_withKey] at cell
  by_cases lacks : e.lacksKey key row = true ∧ i = key
  · obtain ⟨absent, rfl⟩ := lacks
    obtain rfl : k = c := Option.some.inj (table.keyAt.column.symm.trans column)
    rw [if_pos ⟨absent, rfl⟩] at cell
    rw [table.keyAt.counted (Entity.lacksKey_iff.mp absent).1, ← Option.some.inj cell]
    trivial
  · rw [if_neg lacks] at cell
    obtain ⟨w, value, rfl⟩ := Option.map_eq_some_iff.mp cell
    exact Entity.ofStorage_of_accepts (fits.accepted i c w column value)

/-- A row that is inserted has a key, which storage chooses if it has none. -/
theorem For.keyed_inserted (table : t.For e key k) (fits : e.Fits key row)
    (accepted : e.insertion mode row = .ok asked) (resolved : Resolved t (cellsOf asked.values) given)
    (chosen : newId t given = .ok id) : (t.withId id (newCells t given)).cells.getD key .null ≠ .null := by
  rw [table.cells_inserted fits accepted resolved chosen, List.getD_eq_getElem?_getD, List.getElem?_map,
    Entity.getElem?_withKey]
  cases lacks : e.lacksKey key row with
  | true => simp [Value.cell]
  | false =>
    obtain ⟨v, value, kind⟩ := table.keyAt.value_of_fits fits lacks
    have present : v ≠ .null := by
      rintro rfl
      cases kind
    simpa [value] using present

/-- The id of a row in a table whose keys storage chooses is positive. If it was chosen, it comes after all that
were used. -/
theorem For.id_inserted (table : t.For e key k) (auto : e.autoincrement = true) (started : 0 ≤ t.lastId)
    (encoded : e.encode field = .ok row) (accepted : e.insertion mode row = .ok asked)
    (resolved : Resolved t (cellsOf asked.values) given) (chosen : newId t given = .ok id) :
    0 < id ∧ (e.lacksKey key row = true → t.lastId < id) := by
  have never : t.neverReuses = true := table.neverReuses_eq.trans auto
  cases lacks : e.lacksKey key row with
  | true =>
    rw [table.newId_of_lacksKey accepted resolved lacks] at chosen
    have later := lastId_lt_of_nextId never chosen
    exact ⟨Int64.lt_of_le_of_lt started later, fun _ => later⟩
  | false =>
    obtain ⟨n, value, positive⟩ := Entity.key_of_encode table.keyAt encoded auto lacks
    have integer : k.kind.storage = .integer := by rw [table.keyAt.counted auto]; rfl
    have same := table.newId_of_key accepted resolved lacks integer value rfl
    obtain rfl : n = id := Except.ok.inj (same.symm.trans chosen)
    exact ⟨positive, fun impossible => by cases impossible⟩

theorem Keeps.insert (keeps : t.Keeps e) (table : t.For e key k) (encoded : e.encode field = .ok row)
    (accepted : e.insertion mode row = .ok asked) (resolved : Resolved t (cellsOf asked.values) given)
    (chosen : newId t given = .ok id)
    (placed : insertRow t asked.mode (t.withId id (newCells t given)) = .ok (done, t')) : t'.Keeps e := by
  have grown := lastId_le_noteId t (t.withId id (newCells t given)).id
  rcases insertRow_eq_ok placed with ⟨_, _, rfl⟩ | ⟨kept, old, _, _, _, _, rfl⟩
  · have rows : (noteId t (t.withId id (newCells t given)).id).rows = t.rows := by rw [noteId_eq]
    refine ⟨rows ▸ keeps.typed, rows ▸ keeps.keyed, Int64.le_trans keeps.started grown, fun auto r member => ?_⟩
    rw [rows] at member
    obtain ⟨positive, used⟩ := keeps.generated auto r member
    exact ⟨positive, Int64.le_trans used grown⟩
  · have fits := Entity.fits_of_encode table.keyAt encoded
    refine ⟨fun r member => ?_, fun r member => ?_, Int64.le_trans keeps.started grown, fun auto r member => ?_⟩
    · rcases mem_place.mp member with rfl | before
      · exact table.typed_inserted fits accepted resolved chosen
      · exact keeps.typed r (old.subset before)
    · rcases mem_place.mp member with rfl | before
      · intro key' index
        obtain rfl : key = key' := Option.some.inj (table.keyAt.index.symm.trans index)
        exact table.keyed_inserted fits accepted resolved chosen
      · exact keeps.keyed r (old.subset before)
    · rcases mem_place.mp member with rfl | before
      · refine ⟨?_, le_lastId_noteId (table.neverReuses_eq.trans auto) _⟩
        rw [withId_id]
        exact (table.id_inserted auto keeps.started encoded accepted resolved chosen).1
      · obtain ⟨positive, used⟩ := keeps.generated auto r (old.subset before)
        exact ⟨positive, Int64.le_trans used grown⟩

end Inserted

section Conditions

variable {c : Column} {v : Value}

theorem For.cell_column (table : t.For e key k) (column : e.columns[i]? = some c) :
    t.cell c.name r = r.cells.getD i .null := by
  simp only [cell, table.target?_eq column]

/-- A value of the kind of a column is compared as it is. -/
theorem For.operand_column (table : t.For e key k) (column : e.columns[i]? = some c) (kind : v.kind? = some c.kind) :
    t.operand c.name v = v.cell := by
  simp only [operand, table.target?_eq column]
  exact Cell.convert_eq_self (Value.ofStorage_cell kind)

/-- A row has a key when its cell for it is the cell of the key. -/
theorem For.passes_key (table : t.For e key k) (kind : v.kind? = some k.kind) (r : Record) :
    t.passes ⟨k.name, .compare .equal v⟩ r = (r.cells.getD key .null).same v.cell := by
  simp only [passes, table.cell_column table.keyAt.column, table.operand_column table.keyAt.column kind]
  rfl

end Conditions

/-- An integer key is the id of its row. -/
theorem For.key_cell (table : t.For e key k) (integer : k.kind.storage = .integer) (member : r ∈ t.rows) :
    r.cells.getD key .null = .integer r.id := by
  have stored := (table.sound.fits r member).key key (table.idIndex?_eq_some.mpr ⟨rfl, integer⟩)
  rw [List.getD_eq_getElem?_getD, stored, Option.getD_some]

section Updated

variable {q : Revision}

theorem For.ofStorage_of_revises (table : t.For e key k) (revises : e.Revises k q) {c : Column} {v : Value}
    (column : e.columns[i]? = some c) (listed : (c.name, v) ∈ q.values) :
    Cell.OfStorage c.kind.storage v.cell := by
  obtain ⟨d, known, named, suits⟩ := revises.suited _ listed
  obtain ⟨j, other⟩ := List.getElem?_of_mem known
  obtain rfl := table.position_of_name column other named.symm
  obtain rfl : c = d := Option.some.inj (column.symm.trans other)
  rcases suits with absent | kind
  · rw [show v = .null from absent]
    trivial
  · exact Value.ofStorage_cell kind

/-- A cell of a row that is changed is that of an integer key, or the one that is assigned, or the one it was. -/
theorem For.cell_assigned (table : t.For e key k) (revises : e.Revises k q)
    (resolved : Resolved t (cellsOf q.values) given) {c : Column} (column : e.columns[i]? = some c)
    (assigned : assign t given r = .ok s) :
    (i = key ∧ k.kind.storage = .integer ∧ s.cells[i]? = some (.integer s.id)) ∨
      (∃ w, (c.name, w) ∈ q.values ∧ s.cells[i]? = some w.cell) ∨ s.cells[i]? = some (r.cells.getD i .null) := by
  obtain ⟨id, rfl, _⟩ := assign_eq_ok assigned
  rw [getElem?_withId id length_assignedCells, withId_id]
  by_cases isKey : t.idIndex? = some i
  · obtain ⟨rfl, integer⟩ := table.idIndex?_eq_some.mp isKey
    exact .inl ⟨rfl, integer, if_pos isKey⟩
  · have found := table.lookup_given resolved revises.named (fun _ => List.mem_reverse) column
    rw [if_neg isKey, assignedCells, List.getElem?_map, List.getElem?_zipIdx, table.getElem?_columns, column]
    simp only [Option.map_some, Nat.zero_add, Entity.columnDefinition_storage, Option.some.injEq]
    cases answer : given.reverse.lookup (.column i c.kind.storage) with
    | none => exact .inr (.inr rfl)
    | some w =>
      rw [answer] at found
      obtain ⟨u, listed, rfl⟩ := found
      have fits := table.ofStorage_of_revises revises column listed
      exact .inr (.inl ⟨u, listed, Cell.convert_eq_self fits⟩)

theorem For.typed_assigned (table : t.For e key k) (revises : e.Revises k q)
    (resolved : Resolved t (cellsOf q.values) given) (typed : r.OfColumns e) (assigned : assign t given r = .ok s) :
    s.OfColumns e := by
  intro i c v column cell
  rcases table.cell_assigned revises resolved column assigned with ⟨rfl, integer, id⟩ | ⟨w, listed, given'⟩ | kept
  · obtain rfl : k = c := Option.some.inj (table.keyAt.column.symm.trans column)
    rw [integer, Option.some.inj (cell.symm.trans id)]
    trivial
  · rw [Option.some.inj (cell.symm.trans given')]
    exact table.ofStorage_of_revises revises column listed
  · rw [Option.some.inj (cell.symm.trans kept)]
    exact typed.getD column

/-- A row that is changed keeps having a key, as no value that a key may have is absent. -/
theorem For.keyed_assigned (table : t.For e key k) (revises : e.Revises k q)
    (resolved : Resolved t (cellsOf q.values) given) (keyed : r.cells.getD key .null ≠ .null)
    (assigned : assign t given r = .ok s) : s.cells.getD key .null ≠ .null := by
  rw [List.getD_eq_getElem?_getD]
  rcases table.cell_assigned revises resolved table.keyAt.column assigned with ⟨_, _, id⟩ | ⟨w, listed, given'⟩ | kept
  · simp [id]
  · have present : w ≠ .null := by
      rintro rfl
      cases (revises.keyed _ listed).1
    simpa [given'] using present
  · rw [kept, Option.getD_some]
    exact keyed

/-- The id of a row stays what it is. -/
theorem For.id_assigned (table : t.For e key k) (revises : e.Revises k q)
    (resolved : Resolved t (cellsOf q.values) given) (member : r ∈ t.rows) (met : t.satisfies q.conditions r = true)
    (assigned : assign t given r = .ok s) : s.id = r.id := by
  obtain ⟨id, rfl, same | ⟨⟨target, v⟩, listed, isKey, assignedId⟩⟩ := assign_eq_ok assigned
  · rw [withId_id, same]
  · obtain ⟨i, c, w, column, given', rfl, rfl⟩ := (table.mem_given resolved revises.named).mp listed
    obtain ⟨rfl, integer⟩ := table.isId_column.mp isKey
    obtain rfl : k = c := Option.some.inj (table.keyAt.column.symm.trans column)
    obtain ⟨kind, condition⟩ := revises.keyed w given'
    obtain ⟨n, cell⟩ := Value.cell_of_integer kind integer
    -- The row was found under the key that is assigned.
    have same : (Cell.integer r.id).same (.integer n) = true := by
      rw [condition, satisfies, List.all_cons, Bool.and_eq_true, table.passes_key kind,
        table.key_cell integer member, cell] at met
      exact met.1
    have equal := (Cell.same_iff (s := .integer) (a := .integer r.id) (b := .integer n) trivial trivial).mp same
    rw [cell] at assignedId
    rw [withId_id, Cell.integer.inj equal.1]
    exact (Option.some.inj assignedId).symm

theorem Keeps.update (keeps : t.Keeps e) (table : t.For e key k) (revises : e.Revises k q)
    (resolved : Resolved t (cellsOf q.values) given)
    (origins : ∀ s ∈ rows, s ∈ t.rows ∨
      ∃ r ∈ t.rows, t.satisfies q.conditions r = true ∧ assign t given r = .ok s) :
    Keeps { t with rows := rows } e where
  typed := by
    intro s member
    rcases origins s member with old | ⟨r, known, _, assigned⟩
    · exact keeps.typed s old
    · exact table.typed_assigned revises resolved (keeps.typed r known) assigned
  keyed := by
    intro s member key' index
    rcases origins s member with old | ⟨r, known, _, assigned⟩
    · exact keeps.keyed s old key' index
    · obtain rfl : key = key' := Option.some.inj (table.keyAt.index.symm.trans index)
      exact table.keyed_assigned revises resolved (keeps.keyed r known key index) assigned
  started := keeps.started
  generated := by
    intro auto s member
    rcases origins s member with old | ⟨r, known, met, assigned⟩
    · exact keeps.generated auto s old
    · rw [table.id_assigned revises resolved known met assigned]
      exact keeps.generated auto r known

end Updated

end Table

end Tabular
