import Tabular.Proofs.DatabaseStatements
import Tabular.Proofs.Requests
import Tabular.Proofs.Rows
import Tabular.Proofs.Validity

/-!
# Tables of entities

The table of an entity has the columns of the entity in their order. The names that a statement about the entity
gives values to are therefore found at the positions of its columns (`mem_given`), and a row that is inserted has
the values of the row that was encoded, with the id that storage chose in the place of an absent key
(`cells_inserted`).
-/

namespace Tabular

open Sql Text

namespace Entity

variable {e : Entity} {c k : Column} {key i : Nat}

@[simp]
theorem columnDefinition_name : (e.columnDefinition c).name = c.name := by
  rw [columnDefinition]
  split <;> rfl

@[simp]
theorem columnDefinition_storage : (e.columnDefinition c).storage = c.kind.storage := by
  rw [columnDefinition]
  split <;> rfl

@[simp]
theorem columnDefinition_isKey : (e.columnDefinition c).isKey = c.isKey := by
  rw [columnDefinition]
  split <;> simp_all

@[simp]
theorem columnDefinition_autoincrement : (e.columnDefinition c).autoincrement = (c.isKey && e.autoincrement) := by
  rw [columnDefinition]
  split <;> simp_all

/-- Only a column that is not the key is declared with what it refers to. -/
@[simp]
theorem columnDefinition_references :
    (e.columnDefinition c).references = if c.isKey then none else c.references := by
  rw [columnDefinition]
  split <;> rfl

/-! ## Values that a column may hold -/

theorem accepts_iff {v : Value} : e.accepts key i c v = true ↔
    v.kind? = some c.kind ∨ v = .null ∧ (c.nullable = true ∨ e.fillsKey key i = true) := by
  rw [accepts, ← Value.kind?_eq_none]
  cases v.kind? with
  | none => simp
  | some kind => simp

theorem ofStorage_of_accepts {v : Value} (accepted : e.accepts key i c v = true) :
    Cell.OfStorage c.kind.storage v.cell := by
  rcases accepts_iff.mp accepted with kind | ⟨rfl, _⟩
  · exact Value.ofStorage_cell kind
  · exact trivial

/-! ## Rows whose key storage chooses -/

/-- Whether storage is to choose the key of a row. -/
def lacksKey (e : Entity) (key : Nat) (row : Row) : Bool :=
  e.autoincrement && row[key]? = some .null

/-- A row with the given key if it lacks one. -/
def withKey (e : Entity) (key : Nat) (id : Int64) (row : Row) : Row :=
  if e.lacksKey key row then row.set key (.integer id) else row

theorem lacksKey_iff {row : Row} :
    e.lacksKey key row = true ↔ e.autoincrement = true ∧ row[key]? = some .null := by
  simp [lacksKey]

theorem getElem?_withKey (id : Int64) (row : Row) (i : Nat) :
    (e.withKey key id row)[i]? =
      if e.lacksKey key row = true ∧ i = key then some (.integer id) else row[i]? := by
  rw [withKey]
  by_cases lacks : e.lacksKey key row = true
  · have inside : key < row.length := (List.getElem?_eq_some_iff.mp (lacksKey_iff.mp lacks).2).1
    rw [if_pos lacks, List.getElem?_set]
    by_cases here : key = i
    · simp [here ▸ inside, here, here ▸ lacks]
    · simp [here, Ne.symm here]
  · simp [lacks]

/-- A row that does not lack its key has a value of the kind of the key column. -/
theorem KeyAt.value_of_fits {row : Row} (keyAt : e.KeyAt key k) (fits : e.Fits key row)
    (has : e.lacksKey key row = false) :
    ∃ v, row[key]? = some v ∧ v.kind? = some k.kind := by
  have inside : key < row.length := by
    rw [fits.length]
    exact (List.getElem?_eq_some_iff.mp keyAt.column).1
  have value : row[key]? = some row[key] := List.getElem?_eq_getElem inside
  have accepted := fits.accepted key k _ keyAt.column value
  rcases accepts_iff.mp accepted with kind | ⟨absent, filled⟩
  · exact ⟨row[key], value, kind⟩
  · have auto : e.autoincrement = true := by simpa [keyAt.required, fillsKey] using filled
    rw [lacksKey, auto, value, absent] at has
    simp at has

theorem lacksKey_withKey (id : Int64) (row : Row) : e.lacksKey key (e.withKey key id row) = false := by
  rw [Bool.eq_false_iff]
  intro lacks
  obtain ⟨auto, absent⟩ := lacksKey_iff.mp lacks
  rw [getElem?_withKey] at absent
  by_cases before : e.lacksKey key row = true
  · rw [if_pos ⟨before, rfl⟩] at absent
    cases absent
  · rw [if_neg fun both => before both.1] at absent
    exact before (lacksKey_iff.mpr ⟨auto, absent⟩)

theorem length_withKey (id : Int64) (row : Row) : (e.withKey key id row).length = row.length := by
  rw [withKey]
  split <;> simp

theorem keyed_eq_ok {β : Type} {row : Row} {next : Nat → Except Fault β} {b : β}
    (keyed : e.keyIndex? = some key) :
    (do e.requireLength row; next (← e.requireKey)) = .ok b ↔ row.length = e.columns.length ∧ next key = .ok b := by
  have index : e.requireKey = .ok key := requireKey_eq_ok.mpr keyed
  rw [Checks.bind_eq_ok, index]
  constructor
  · rintro ⟨_, sameLength, answer⟩
    exact ⟨requireLength_eq_ok.mp sameLength, answer⟩
  · rintro ⟨sameLength, answer⟩
    exact ⟨(), requireLength_eq_ok.mpr sameLength, answer⟩

/-- A row is inserted with all its values, less the key that storage is to choose. -/
theorem insertion_eq_ok {mode : Conflict} {row : Row} {asked : Insertion} (keyed : e.keyIndex? = some key) :
    e.insertion mode row = .ok asked ↔ row.length = e.columns.length ∧
      asked = ⟨mode, e.tableName,
        if e.lacksKey key row then e.valuesExcept key row else (e.columns.map (·.name)).zip row⟩ := by
  rw [insertion, keyed_eq_ok keyed, ← lacksKey, ← apply_ite pure, ← apply_ite (Insertion.mk mode e.tableName)]
  exact and_congr_right fun _ => ⟨fun answer => (Except.ok.inj answer).symm, fun same => by rw [same]; rfl⟩

theorem assignKey_eq_ok {row : Row} {id : Int64} {taken : Bool × Row} (keyed : e.keyIndex? = some key) :
    e.assignKey row id = .ok taken ↔ row.length = e.columns.length ∧
      taken = (e.lacksKey key row, e.withKey key id row) := by
  have answer : (if e.lacksKey key row then (true, row.set key (.integer id)) else (false, row)) =
      (e.lacksKey key row, e.withKey key id row) := by
    rw [withKey]
    cases e.lacksKey key row <;> rfl
  rw [assignKey, keyed_eq_ok keyed, ← lacksKey, ← apply_ite pure, answer]
  exact and_congr_right fun _ => ⟨fun answer => (Except.ok.inj answer).symm, fun same => by rw [same]; rfl⟩

theorem requireKeyValue_eq {v : Value} (keyed : e.keyIndex? = some key) (column : e.columns[key]? = some k) :
    e.requireKeyValue v =
      if v.kind? = some k.kind then .ok k else .error (.badKey e.name k.kind (.wrongKind v)) := by
  have index : e.requireKey = .ok key := requireKey_eq_ok.mpr keyed
  simp only [requireKeyValue, index, bind, Except.bind, column]
  rfl

theorem requireKeyValue_eq_ok {v : Value} (keyed : e.keyIndex? = some key) (column : e.columns[key]? = some k) :
    e.requireKeyValue v = .ok c ↔ v.kind? = some k.kind ∧ c = k := by
  rw [requireKeyValue_eq keyed column]
  by_cases kind : v.kind? = some k.kind
  · simp [kind, eq_comm]
  · simp [kind]

theorem length_valuesExcept {row : Row} (keyed : e.keyIndex? = some key) (sameLength : row.length = e.columns.length) :
    (e.valuesExcept key row).length + 1 = e.columns.length := by
  have inside : key < e.columns.length := (List.findIdx?_eq_some_iff_getElem.mp keyed).1
  rw [valuesExcept, List.length_eraseIdx, List.length_zip, List.length_map, sameLength, Nat.min_self, if_pos inside]
  omega

/-- A row is updated when it has a key of the kind of the key column. Every other column is set, or the key to itself
when there are none. -/
theorem revision_eq_ok {row : Row} {v : Value} {asked : Revision} (keyed : e.keyIndex? = some key)
    (column : e.columns[key]? = some k) (value : row[key]? = some v) (sameLength : row.length = e.columns.length) :
    e.revision row = .ok asked ↔ v.kind? = some k.kind ∧ asked =
      ⟨e.tableName, if e.columns.length = 1 then [(k.name, v)] else e.valuesExcept key row,
        [⟨k.name, .compare .equal v⟩]⟩ := by
  have others := length_valuesExcept keyed sameLength
  have single : e.valuesExcept key row = [] ↔ e.columns.length = 1 := by
    rw [← List.length_eq_zero_iff]
    omega
  have asks : ∀ ask : Column → Revision, (∃ c, (v.kind? = some k.kind ∧ c = k) ∧
      (Except.ok (ask c) : Except Fault Revision) = .ok asked) ↔ v.kind? = some k.kind ∧ asked = ask k := by
    simp [eq_comm]
  rw [revision, keyed_eq_ok keyed, and_iff_right sameLength, value, Option.getD_some, Checks.bind_eq_ok]
  simp only [requireKeyValue_eq_ok keyed column]
  cases known : e.valuesExcept key row with
  | nil =>
    rw [if_pos (single.mp known)]
    exact asks fun c => ⟨e.tableName, [(c.name, v)], [⟨c.name, .compare .equal v⟩]⟩
  | cons first rest =>
    rw [if_neg fun one => List.cons_ne_nil first rest (known.symm.trans (single.mpr one))]
    exact asks fun c => ⟨e.tableName, first :: rest, [⟨c.name, .compare .equal v⟩]⟩

/-- What an update of a row consists of, if it is made. -/
theorem exists_of_revision {row : Row} {asked : Revision} (accepted : e.revision row = .ok asked) :
    ∃ key k v, e.keyIndex? = some key ∧ e.columns[key]? = some k ∧ row[key]? = some v ∧
      row.length = e.columns.length ∧ v.kind? = some k.kind ∧ asked =
        ⟨e.tableName, if e.columns.length = 1 then [(k.name, v)] else e.valuesExcept key row,
          [⟨k.name, .compare .equal v⟩]⟩ := by
  obtain ⟨_, sameLength, located⟩ := Checks.bind_eq_ok.mp accepted
  obtain ⟨key, index, _⟩ := Checks.bind_eq_ok.mp located
  have sameLength := requireLength_eq_ok.mp sameLength
  have keyed := requireKey_eq_ok.mp index
  have inside : key < e.columns.length := (List.findIdx?_eq_some_iff_getElem.mp keyed).1
  have column : e.columns[key]? = some e.columns[key] := List.getElem?_eq_getElem inside
  have inside' : key < row.length := by omega
  have value : row[key]? = some row[key] := List.getElem?_eq_getElem inside'
  obtain ⟨kind, asked⟩ := (revision_eq_ok keyed column value sameLength).mp accepted
  exact ⟨key, _, _, keyed, column, value, sameLength, kind, asked⟩

private theorem mem_names_zip {row : Row} {l : Nat} {p : String × Value} :
    ((e.columns.map (·.name)).zip row)[l]? = some p ↔
      ∃ c, e.columns[l]? = some c ∧ c.name = p.1 ∧ row[l]? = some p.2 := by
  rw [List.getElem?_zip_eq_some, List.getElem?_map, Option.map_eq_some_iff]
  constructor
  · rintro ⟨⟨c, column, named⟩, value⟩
    exact ⟨c, column, named, value⟩
  · rintro ⟨c, column, named, value⟩
    exact ⟨⟨c, column, named⟩, value⟩

theorem mem_values {row : Row} {p : String × Value} :
    p ∈ (e.columns.map (·.name)).zip row ↔
      ∃ (i : Nat) (c : Column), e.columns[i]? = some c ∧ c.name = p.1 ∧ row[i]? = some p.2 := by
  simp only [List.mem_iff_getElem?, mem_names_zip]

theorem mem_valuesExcept {row : Row} {p : String × Value} :
    p ∈ e.valuesExcept key row ↔
      ∃ (i : Nat) (c : Column), i ≠ key ∧ e.columns[i]? = some c ∧ c.name = p.1 ∧ row[i]? = some p.2 := by
  rw [valuesExcept, List.mem_eraseIdx_iff_getElem?]
  simp only [mem_names_zip, exists_and_left]

theorem mem_insertion {mode : Conflict} {row : Row} {asked : Insertion} (keyAt : e.KeyAt key k)
    (accepted : e.insertion mode row = .ok asked) {p : String × Value} :
    p ∈ asked.values ↔ ∃ (i : Nat) (c : Column), e.columns[i]? = some c ∧ c.name = p.1 ∧ row[i]? = some p.2 ∧
      ¬ (e.lacksKey key row = true ∧ i = key) := by
  obtain ⟨_, rfl⟩ := (insertion_eq_ok keyAt.index).mp accepted
  by_cases lacks : e.lacksKey key row = true
  · simp only [lacks, if_true, mem_valuesExcept, true_and]
    refine exists_congr fun i => exists_congr fun c => ?_
    tauto
  · simp [lacks, mem_values]

end Entity

/-- A sound table that was created for an entity whose key is the column `k` at the position `key`. -/
structure Table.For (t : Table) (e : Entity) (key : Nat) (k : Column) : Prop where
  sound : t.Sound
  definition : t.definition = e.tableDefinition
  keyAt : e.KeyAt key k
  width : e.columns.length ≤ Database.maxColumns

namespace Table.For

open Database

variable {t : Table} {e : Entity} {key i : Nat} {k c d : Column} {given : List (Table.Target × Cell)}
  {values : List (String × Value)}

theorem columns_eq (table : t.For e key k) : t.columns = e.columns.map e.columnDefinition := by
  rw [Table.columns, table.definition]
  rfl

theorem getElem?_columns (table : t.For e key k) (i : Nat) :
    t.columns[i]? = (e.columns[i]?).map e.columnDefinition := by
  rw [table.columns_eq, List.getElem?_map]

theorem declared (table : t.For e key k) (column : e.columns[i]? = some c) :
    t.columns[i]? = some (e.columnDefinition c) := by
  rw [table.getElem?_columns, column, Option.map_some]

theorem length_columns (table : t.For e key k) : t.columns.length = e.columns.length := by
  rw [table.columns_eq, List.length_map]

/-- The key is the row id when it is stored as an integer. -/
theorem idIndex?_eq (table : t.For e key k) :
    t.idIndex? = if k.kind.storage = .integer then some key else none := by
  have tests : ((fun c : ColumnDefinition => c.isKey && c.storage = .integer) ∘ e.columnDefinition) =
      fun c => c.isKey && c.kind.storage = .integer := by
    funext c
    simp
  rw [idIndex?, table.columns_eq, List.findIdx?_map, tests]
  by_cases integer : k.kind.storage = .integer
  · rw [if_pos integer, List.findIdx?_eq_some_iff_getElem]
    obtain ⟨inside, here⟩ := List.getElem?_eq_some_iff.mp table.keyAt.column
    refine ⟨inside, by simp [here, table.keyAt.isKey, integer], fun j before flagged => ?_⟩
    have key' : e.columns[j].isKey = true := by
      rw [Bool.and_eq_true] at flagged
      exact flagged.1
    have same := table.keyAt.only j _ (List.getElem?_eq_getElem (Nat.lt_trans before inside)) key'
    omega
  · rw [if_neg integer, List.findIdx?_eq_none_iff]
    intro c member
    obtain ⟨j, column⟩ := List.getElem?_of_mem member
    by_cases flagged : c.isKey = true
    · obtain rfl := table.keyAt.only j c column flagged
      obtain rfl : k = c := Option.some.inj (table.keyAt.column.symm.trans column)
      simp [integer]
    · simp [flagged]

theorem idIndex?_eq_some (table : t.For e key k) : t.idIndex? = some i ↔ i = key ∧ k.kind.storage = .integer := by
  rw [table.idIndex?_eq]
  by_cases integer : k.kind.storage = .integer
  · simp [integer, eq_comm]
  · simp [integer]

theorem neverReuses_eq (table : t.For e key k) : t.neverReuses = e.autoincrement := by
  have member : k ∈ e.columns := List.mem_of_getElem? table.keyAt.column
  rw [neverReuses, table.columns_eq, List.any_map]
  cases auto : e.autoincrement with
  | true =>
    refine List.any_eq_true.mpr ⟨k, member, ?_⟩
    simp [auto, table.keyAt.isKey]
  | false =>
    rw [List.any_eq_false]
    intro c _
    simp [auto]

theorem idIndex?_of_autoincrement (table : t.For e key k) (auto : e.autoincrement = true) :
    t.idIndex? = some key := by
  rw [table.idIndex?_eq, table.keyAt.counted auto, Kind.storage, if_pos rfl]

/-- The name of a column stands for the column. -/
theorem target?_eq (table : t.For e key k) (column : e.columns[i]? = some c) :
    t.target? c.name = some (.column i c.kind.storage) := by
  have declared := table.declared column
  obtain ⟨inside, here⟩ := List.getElem?_eq_some_iff.mp declared
  have first : t.columns.findIdx? (sameName ·.name c.name) = some i := by
    rw [List.findIdx?_eq_some_iff_getElem]
    refine ⟨inside, by rw [here, Entity.columnDefinition_name]; exact sameName_self _, fun j before same => ?_⟩
    -- Column names that differ in case only do not stand side by side.
    have folded : (t.columns.map fun c => foldCase c.name)[j]? = (t.columns.map fun c => foldCase c.name)[i]? := by
      rw [List.getElem?_map, List.getElem?_map, declared, List.getElem?_eq_getElem (Nat.lt_trans before inside)]
      simpa using sameName_iff.mp same
    have here := (List.getElem?_inj (by simpa using Nat.lt_trans before inside) table.sound.names).mp folded
    omega
  rw [target?, first]
  simp only [declared, Option.map_some, Entity.columnDefinition_storage]

theorem position_of_name {j : Nat} (table : t.For e key k) (one : e.columns[i]? = some c)
    (two : e.columns[j]? = some d) (same : c.name = d.name) : i = j := by
  have target := table.target?_eq one
  rw [same, table.target?_eq two] at target
  simp only [Option.some.injEq, Table.Target.column.injEq] at target
  exact target.1.symm

/-- What is given to the columns of an entity under their names is given at their positions. -/
theorem mem_given (table : t.For e key k) (resolved : Resolved t (cellsOf values) given)
    (named : ∀ p ∈ values, ∃ c ∈ e.columns, c.name = p.1) {target : Table.Target} {v : Cell} :
    (target, v) ∈ given ↔ ∃ i c w, e.columns[i]? = some c ∧ (c.name, w) ∈ values ∧
      target = .column i c.kind.storage ∧ v = w.cell := by
  constructor
  · intro member
    obtain ⟨p, stored, found, same⟩ := resolved.of_mem member
    obtain ⟨⟨name, w⟩, listed, rfl⟩ := List.mem_map.mp stored
    obtain ⟨c, known, rfl⟩ := named _ listed
    obtain ⟨i, column⟩ := List.getElem?_of_mem known
    exact ⟨i, c, w, column, listed, Option.some.inj (found.symm.trans (table.target?_eq column)), same.symm⟩
  · rintro ⟨i, c, w, column, listed, rfl, rfl⟩
    obtain ⟨⟨target, v⟩, member, found, same⟩ :=
      resolved.mem (p := (c.name, w.cell)) (List.mem_map.mpr ⟨(c.name, w), listed, rfl⟩)
    obtain rfl : target = .column i c.kind.storage := Option.some.inj (found.symm.trans (table.target?_eq column))
    obtain rfl : w.cell = v := same
    exact member

/-- What is found for a column among the values that are given, in whatever order. -/
theorem lookup_given {found : List (Table.Target × Cell)} (table : t.For e key k)
    (resolved : Resolved t (cellsOf values) given) (named : ∀ p ∈ values, ∃ c ∈ e.columns, c.name = p.1)
    (same : ∀ p, p ∈ found ↔ p ∈ given) (column : e.columns[i]? = some c) :
    match found.lookup (.column i c.kind.storage) with
    | some v => ∃ w, (c.name, w) ∈ values ∧ v = w.cell
    | none => ∀ w, (c.name, w) ∉ values := by
  cases answer : found.lookup (.column i c.kind.storage) with
  | some v =>
    obtain ⟨before, rest, rfl, _⟩ := List.lookup_eq_some_iff.mp answer
    have member : (Target.column i c.kind.storage, v) ∈ given := (same _).mp (by simp)
    obtain ⟨j, d, w, other, listed, target, rfl⟩ := (table.mem_given resolved named).mp member
    obtain ⟨rfl, _⟩ := Table.Target.column.inj target
    obtain rfl : c = d := Option.some.inj (column.symm.trans other)
    exact ⟨w, listed, rfl⟩
  | none =>
    intro w listed
    have member := (same _).mpr ((table.mem_given resolved named).mpr ⟨i, c, w, column, listed, rfl, rfl⟩)
    have apart := List.lookup_eq_none_iff.mp answer _ member
    simp at apart

theorem isId_column (table : t.For e key k) {s : Storage} :
    isId t (.column i s) = true ↔ i = key ∧ k.kind.storage = .integer := by
  rw [isId, beq_iff_eq, table.idIndex?_eq_some]

section Inserted

variable {row : Row} {mode : Conflict} {asked : Insertion}

theorem named_insertion (table : t.For e key k) (accepted : e.insertion mode row = .ok asked) :
    ∀ p ∈ asked.values, ∃ c ∈ e.columns, c.name = p.1 := by
  intro p listed
  obtain ⟨i, c, column, named, _⟩ := (Entity.mem_insertion table.keyAt accepted).mp listed
  exact ⟨c, List.mem_of_getElem? column, named⟩

/-- The value that an insertion holds for a column is the one at its position in the row. -/
theorem mem_insertion_of_column (table : t.For e key k) (accepted : e.insertion mode row = .ok asked)
    (column : e.columns[i]? = some c) {v : Value} :
    (c.name, v) ∈ asked.values ↔ row[i]? = some v ∧ ¬ (e.lacksKey key row = true ∧ i = key) := by
  rw [Entity.mem_insertion table.keyAt accepted]
  constructor
  · rintro ⟨j, d, other, named, value, kept⟩
    obtain rfl := table.position_of_name other column named
    exact ⟨value, kept⟩
  · rintro ⟨value, kept⟩
    exact ⟨i, c, column, rfl, value, kept⟩

theorem newId_of_lacksKey (table : t.For e key k) (accepted : e.insertion mode row = .ok asked)
    (resolved : Resolved t (cellsOf asked.values) given) (lacks : e.lacksKey key row = true) :
    newId t given = t.nextId := by
  have none : ∀ p ∈ given, ¬ isId t p.1 = true := by
    rintro ⟨target, v⟩ member isKey
    obtain ⟨i, c, w, column, listed, rfl, rfl⟩ :=
      (table.mem_given resolved (table.named_insertion accepted)).mp member
    obtain ⟨rfl, _⟩ := table.isId_column.mp isKey
    exact ((table.mem_insertion_of_column accepted column).mp listed).2 ⟨lacks, rfl⟩
  rw [newId, List.filter_eq_nil_iff.mpr, List.getLast?_nil]
  exact none

/-- A row that has an integer key has it as its id. -/
theorem newId_of_key (table : t.For e key k) (accepted : e.insertion mode row = .ok asked)
    (resolved : Resolved t (cellsOf asked.values) given) (has : e.lacksKey key row = false)
    (integer : k.kind.storage = .integer) {v : Value} {n : Int64} (value : row[key]? = some v)
    (cell : v.cell = .integer n) : newId t given = .ok n := by
  have listed : (k.name, v) ∈ asked.values :=
    (table.mem_insertion_of_column accepted table.keyAt.column).mpr ⟨value, by simp [has]⟩
  have named := table.named_insertion accepted
  have member : (Target.column key k.kind.storage, v.cell) ∈ given :=
    (table.mem_given resolved named).mpr ⟨key, k, v, table.keyAt.column, listed, rfl, rfl⟩
  -- What is given for the key is the row's value for it.
  have only : ∀ target w, (target, w) ∈ given → isId t target = true → w = .integer n := by
    intro target w known isKey
    obtain ⟨i, c, u, column, held, rfl, rfl⟩ := (table.mem_given resolved named).mp known
    obtain ⟨rfl, _⟩ := table.isId_column.mp isKey
    have value' := ((table.mem_insertion_of_column accepted column).mp held).1
    obtain rfl : v = u := Option.some.inj (value.symm.trans value')
    exact cell
  rw [newId]
  split
  case h_1 last =>
    have empty := List.getLast?_eq_none_iff.mp last
    exact absurd (table.isId_column.mpr ⟨rfl, integer⟩) (List.filter_eq_nil_iff.mp empty _ member)
  case h_2 target last =>
    obtain ⟨known, isKey⟩ := List.mem_filter.mp (List.mem_of_getLast? last)
    cases only _ _ known isKey
  case h_3 target w _ last =>
    obtain ⟨known, isKey⟩ := List.mem_filter.mp (List.mem_of_getLast? last)
    rw [only _ _ known isKey]
    rfl

/-- Beside a key that storage is to choose, the cells of a new row are those of the values. -/
theorem getElem?_newCells (table : t.For e key k) (fits : e.Fits key row)
    (accepted : e.insertion mode row = .ok asked) (resolved : Resolved t (cellsOf asked.values) given)
    (given' : ¬ (e.lacksKey key row = true ∧ i = key)) : (newCells t given)[i]? = (row[i]?).map Value.cell := by
  rw [newCells, List.getElem?_map, List.getElem?_zipIdx, table.getElem?_columns]
  cases column : e.columns[i]? with
  | none =>
    have outside : e.columns.length ≤ i := List.getElem?_eq_none_iff.mp column
    rw [List.getElem?_eq_none (by rw [fits.length]; exact outside)]
    rfl
  | some c =>
    have inside : i < row.length := by
      rw [fits.length]
      exact (List.getElem?_eq_some_iff.mp column).1
    have value : row[i]? = some row[i] := List.getElem?_eq_getElem inside
    have listed := (table.mem_insertion_of_column accepted column).mpr ⟨value, given'⟩
    have found := table.lookup_given resolved (table.named_insertion accepted) (fun _ => .rfl) column
    have kept := Cell.convert_eq_self (Entity.ofStorage_of_accepts (fits.accepted i c _ column value))
    cases answer : given.lookup (.column i c.kind.storage) with
    | none =>
      rw [answer] at found
      exact absurd listed (found _)
    | some v =>
      rw [answer] at found
      obtain ⟨w, held, rfl⟩ := found
      have value' := ((table.mem_insertion_of_column accepted column).mp held).1
      obtain rfl : row[i] = w := Option.some.inj (value.symm.trans value')
      simp [answer, value, kept]

/-- A row that is inserted holds the values of the row that was encoded, with its id for a key that it
lacked. -/
theorem cells_inserted (table : t.For e key k) (fits : e.Fits key row) (accepted : e.insertion mode row = .ok asked)
    (resolved : Resolved t (cellsOf asked.values) given) {id : Int64} (chosen : newId t given = .ok id) :
    (t.withId id (newCells t given)).cells = (e.withKey key id row).map Value.cell := by
  refine List.ext_getElem? fun i => ?_
  rw [getElem?_withId id length_newCells, List.getElem?_map, Entity.getElem?_withKey]
  -- The id overwrites the cell of an integer key, which is the same cell if the row had the key.
  by_cases isKey : t.idIndex? = some i
  · obtain ⟨rfl, integer⟩ := table.idIndex?_eq_some.mp isKey
    rw [if_pos isKey]
    cases lacks : e.lacksKey i row with
    | true => simp [Value.cell]
    | false =>
      obtain ⟨v, value, kind⟩ := table.keyAt.value_of_fits fits lacks
      obtain ⟨n, cell⟩ := Value.cell_of_integer kind integer
      have same := table.newId_of_key accepted resolved lacks integer value cell
      obtain rfl : n = id := Except.ok.inj (same.symm.trans chosen)
      simp [value, cell]
  · have other : ¬ (e.lacksKey key row = true ∧ i = key) := by
      rintro ⟨lacks, rfl⟩
      exact isKey (table.idIndex?_of_autoincrement (Entity.lacksKey_iff.mp lacks).1)
    rw [if_neg isKey, if_neg other]
    exact table.getElem?_newCells fits accepted resolved other

end Inserted

end Table.For

end Tabular
