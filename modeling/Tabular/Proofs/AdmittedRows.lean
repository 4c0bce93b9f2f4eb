import Tabular.Proofs.FailedOperations

/-!
# Rows as an entity declares them

Whatever a program does with a store, the rows in the table of an entity are as its columns demand (`Entity.Admits`):
they have a cell of the right class for every column, only a nullable column has no value, and no two rows share a key
or a value of a unique column. So every row is read without a fault, but for times that are too far away
(`stored_rows`).
-/

namespace Tabular

open Sql

/-- Rows as an entity declares them. -/
structure Entity.Admits (e : Entity) (rows : List Record) : Prop where
  width : ∀ r ∈ rows, r.cells.length = e.columns.length
  typed : ∀ r ∈ rows, r.OfColumns e
  required : ∀ r ∈ rows, ∀ (i : Nat) (c : Column), e.columns[i]? = some c → r.cells[i]? = some .null →
    c.nullable = true ∧ c.isKey = false
  keys : rows.Pairwise fun r s => ∀ (i : Nat) (c : Column), e.columns[i]? = some c → c.isKey = true →
    r.cells[i]? ≠ s.cells[i]?
  unique : rows.Pairwise fun r s => ∀ (i : Nat) (c : Column) (v : Cell), e.columns[i]? = some c → c.unique = true →
    r.cells[i]? = some v → s.cells[i]? = some v → v = .null

namespace Table

variable {t : Table} {e : Entity} {key i : Nat} {k c : Column} {r s : Record} {v : Cell}

theorem For.length_cells (table : t.For e key k) (member : r ∈ t.rows) : r.cells.length = e.columns.length := by
  rw [(table.sound.fits r member).width, table.length_columns]

/-- A row has a cell for every column. -/
theorem For.getElem?_cells (table : t.For e key k) (member : r ∈ t.rows) (column : e.columns[i]? = some c) :
    r.cells[i]? = some (r.cells.getD i .null) := by
  have inside : i < r.cells.length := by
    rw [table.length_cells member]
    exact (List.getElem?_eq_some_iff.mp column).1
  rw [List.getD_eq_getElem?_getD, List.getElem?_eq_getElem inside, Option.getD_some]

/-- Only a nullable column that is not the key may have no value. The key is not declared so when it is a text. -/
theorem For.required (table : t.For e key k) (keeps : t.Keeps e) (member : r ∈ t.rows)
    (column : e.columns[i]? = some c) (absent : r.cells[i]? = some .null) : c.nullable = true ∧ c.isKey = false := by
  cases flagged : c.isKey with
  | true =>
    obtain rfl := table.keyAt.only i c column flagged
    have present := keeps.keyed r member i table.keyAt.index
    rw [List.getD_eq_getElem?_getD, absent, Option.getD_some] at present
    exact absurd rfl present
  | false =>
    have whole := (table.sound.fits r member).required
    rw [missing?, Option.map_eq_none_iff, List.find?_eq_none] at whole
    have cell := whole (e.columnDefinition c, .null)
      (List.mem_of_getElem? (List.getElem?_zip_eq_some.mpr ⟨table.declared column, absent⟩))
    rw [Entity.columnDefinition, if_neg (by simp [flagged])] at cell
    exact ⟨by simpa using cell, rfl⟩

/-- Two rows of a table share no value of a column that tells rows apart. -/
theorem For.eq_null_of_shared (table : t.For e key k) (keeps : t.Keeps e) (first : r ∈ t.rows) (second : s ∈ t.rows)
    (apart : t.clashes r s = false) (column : e.columns[i]? = some c) (told : c.isKey = true ∨ c.unique = true)
    (one : r.cells[i]? = some v) (two : s.cells[i]? = some v) : v = .null := by
  rw [clashes, Bool.or_eq_false_iff] at apart
  by_cases isKey : t.idIndex? = some i
  · have id := (table.sound.fits r first).key i isKey
    have id' := (table.sound.fits s second).key i isKey
    have same : r.id = s.id := Cell.integer.inj (Option.some.inj (id.symm.trans (one.trans (two.symm.trans id'))))
    rw [same, beq_self_eq_true] at apart
    cases apart.1
  · by_contra present
    have different := List.any_eq_false.mp apart.2 _ (table.mem_distinguishing column told isKey)
    refine different ?_
    show (r.cells.getD i .null).same (s.cells.getD i .null) = true
    rw [List.getD_eq_getElem?_getD, List.getD_eq_getElem?_getD, one, two, Option.getD_some]
    exact Cell.same_self (keeps.typed r first i c v column one) present

/-- The rows in the table of an entity are as the entity declares them. -/
theorem For.admits (table : t.For e key k) (keeps : t.Keeps e) : e.Admits t.rows where
  width := fun _ member => table.length_cells member
  typed := keeps.typed
  required := fun _ member _ _ column absent => table.required keeps member column absent
  keys := by
    refine table.sound.distinct.imp_of_mem fun {r s} first second apart i c column flagged same => ?_
    have one := table.getElem?_cells first column
    have absent := table.eq_null_of_shared keeps first second apart column (.inl flagged) one (same.symm.trans one)
    have other := (table.required keeps first column (absent ▸ one)).2
    rw [flagged] at other
    cases other
  unique := table.sound.distinct.imp_of_mem fun first second apart _ _ _ column flagged one two =>
    table.eq_null_of_shared keeps first second apart column (.inr flagged) one two

end Table

/-- The fault of a time that is too far away. -/
def CellFault.OfRange (f : CellFault) : Prop :=
  ∃ entity column millis, f = .outOfRange entity column millis

namespace Entity

variable {e : Entity} {c : Column} {rows : List Record} {r : Record} {f : CellFault}

theorem readCell_eq_error {v : Cell} (fits : Cell.OfStorage c.kind.storage v) (failed : e.readCell c v = .error f) :
    f.OfRange := by
  cases v with
  | null => simp [readCell] at failed
  | integer n =>
    cases kind : c.kind with
    | integer => simp [readCell, kind] at failed
    | text =>
      rw [kind] at fits
      exact fits.elim
    | timestamp =>
      cases read : Timestamp.ofMillis? n.toInt with
      | some u => simp [readCell, kind, read] at failed
      | none =>
        simp only [readCell, kind, read, Except.error.injEq] at failed
        exact ⟨_, _, _, failed.symm⟩
  | real x => cases kind : c.kind <;> rw [kind] at fits <;> exact fits.elim
  | text s =>
    cases kind : c.kind with
    | text => simp [readCell, kind] at failed
    | integer | timestamp =>
      rw [kind] at fits
      exact fits.elim
  | blob b => cases kind : c.kind <;> rw [kind] at fits <;> exact fits.elim

/-- A row that an entity admits has the cells that a reader expects. -/
theorem Admits.readCells_eq_error (admits : e.Admits rows) (member : r ∈ rows)
    (failed : e.readCells r.cells = .error f) : f.OfRange := by
  rw [readCells, if_pos (admits.width r member), Checks.mapM_eq_error] at failed
  obtain ⟨before, ⟨c, v⟩, after, split, _, refused⟩ := failed
  have listed : (c, v) ∈ e.columns.zip r.cells := by simp [split]
  obtain ⟨i, pair⟩ := List.getElem?_of_mem listed
  obtain ⟨column, cell⟩ := List.getElem?_zip_eq_some.mp pair
  exact readCell_eq_error (admits.typed r member i c v column cell) refused

theorem Admits.load_eq_error {α : Type} {m : Mapping α} (admits : e.Admits rows) (member : r ∈ rows)
    (failed : e.load m r.cells = .error (.cell f)) : f.OfRange := by
  rcases Checks.bind_eq_error.mp failed with unread | ⟨row, _, undecoded⟩
  · cases read : e.readCells r.cells with
    | ok row =>
      rw [read] at unread
      cases unread
    | error g =>
      rw [read] at unread
      cases unread
      exact admits.readCells_eq_error member read
  · cases decoded : e.decode m row with
    | ok a =>
      rw [decoded] at undecoded
      cases undecoded
    | error g =>
      rw [decoded] at undecoded
      cases undecoded

end Entity

namespace Session

variable {α β : Type} {db db' : Database}

/-- A session that finds the cells of rows as it expects them. -/
def ReadsWell (x : Session α) (db : Database) : Prop :=
  ∀ f, x.fault? db = some (.cell f) → f.OfRange

theorem readsWell_pure (a : α) : ReadsWell (pure a) db := by
  intro f failed
  cases failed

theorem readsWell_throw {f : StoreFault} (other : ∀ g, f = .cell g → g.OfRange) :
    ReadsWell (throw f : Session α) db :=
  fun g failed => other g (Option.some.inj failed)

theorem ReadsWell.bind {x : Session α} {next : α → Session β} (first : x.ReadsWell db)
    (rest : ∀ a db', x.outcome db = (.ok a, db') → (next a).ReadsWell db') : ReadsWell (x >>= next) db := by
  intro f failed
  rcases bind_eq_error.mp (fault?_eq_some.mp failed) with refused | ⟨a, db', passed, later⟩
  · exact first f (by rw [fault?, refused])
  · exact rest a db' passed f (by rw [fault?, later])

theorem readsWell_mapped (r : Except Fault α) : ReadsWell (mapped r) db := by
  intro f failed
  obtain ⟨_, _, other, _⟩ := mapped_eq_error.mp (fault?_eq_some.mp failed)
  cases other

theorem ReadsWell.mapped_bind {r : Except Fault α} {next : α → Session β}
    (rest : ∀ a, r = .ok a → (next a).ReadsWell db) : ReadsWell (mapped r >>= next) db := by
  refine (readsWell_mapped r).bind fun a db' passed => ?_
  obtain ⟨accepted, rfl⟩ := mapped_eq_ok.mp passed
  exact rest a accepted

theorem readsWell_ask (question : Database → Except DatabaseFault α) : ReadsWell (ask question) db := by
  intro f failed
  have refused := fault?_eq_some.mp failed
  rw [outcome_ask] at refused
  cases answer : question db with
  | ok a =>
    rw [answer] at refused
    cases refused
  | error g =>
    rw [answer] at refused
    cases refused

theorem ReadsWell.ask_bind {question : Database → Except DatabaseFault α} {next : α → Session β}
    (rest : ∀ a, question db = .ok a → (next a).ReadsWell db) : ReadsWell (ask question >>= next) db := by
  refine (readsWell_ask question).bind fun a db' passed => ?_
  obtain ⟨answer, rfl⟩ := ask_eq_ok.mp passed
  exact rest a answer

theorem readsWell_execute (statement : Database → Except DatabaseFault (α × Database)) :
    ReadsWell (execute statement) db := by
  intro f failed
  obtain ⟨_, _, other, _⟩ := execute_eq_error.mp (fault?_eq_some.mp failed)
  cases other

theorem ReadsWell.refuse {p : Prop} [Decidable p] {fault : StoreFault} {next : PUnit → Session β}
    (other : ∀ g, fault = .cell g → g.OfRange) (rest : (next ⟨⟩).ReadsWell db) :
    ReadsWell (if p then throw fault >>= next else next ⟨⟩) db := by
  by_cases refused : p
  · rw [if_pos refused]
    exact (readsWell_throw other).bind fun _ _ passed => by cases passed
  · rw [if_neg refused]
    exact rest

end Session

/-- A selection of whole rows from the table of an entity. -/
structure Entity.Selects (e : Entity) (q : Selection) : Prop where
  table : q.table = e.tableName
  columns : q.columns = e.columns.map (·.name)

namespace Entity

variable {e : Entity} {q : Selection}

theorem selects_of_lookup {key : Value} (accepted : e.lookup key = .ok q) : e.Selects q := by
  obtain ⟨_, _, answer⟩ := Checks.bind_eq_ok.mp accepted
  obtain rfl := Except.ok.inj answer
  exact ⟨rfl, rfl⟩

theorem selects_of_listing (accepted : e.listing = .ok q) : e.Selects q := by
  obtain ⟨_, _, answer⟩ := Checks.bind_eq_ok.mp accepted
  obtain rfl := Except.ok.inj answer
  exact ⟨rfl, rfl⟩

theorem selects_of_selection {asked : Query} (accepted : e.selection asked = .ok q) : e.Selects q := by
  obtain ⟨_, _, rfl⟩ := selection_eq_ok accepted
  exact ⟨rfl, rfl⟩

end Entity

theorem Database.mem_of_mem_cut {α : Type} {p : Page} {rows : List α} {a : α} (member : a ∈ cut p rows) : a ∈ rows := by
  rw [cut] at member
  cases limit : p.limit with
  | none =>
    rw [limit] at member
    exact List.mem_of_mem_drop member
  | some n =>
    rw [limit] at member
    exact List.mem_of_mem_drop (List.mem_of_mem_take member)

/-- What a selection reads are the cells of rows in the table. -/
theorem Table.For.mem_select {t : Table} {e : Entity} {key : Nat} {k : Column} {db : Database} {q : Selection}
    {rows : List (List Cell)} {cells : List Cell} (table : t.For e key k) (found : db.table? e.tableName = some t)
    (selects : e.Selects q) (read : db.select q = .ok rows) (member : cells ∈ rows) :
    ∃ r ∈ t.rows, r.cells = cells := by
  obtain ⟨_, u, own, rfl⟩ := Database.select_iff.mp read
  rw [selects.table, Database.readable_eq found] at own
  obtain rfl := Except.ok.inj own
  obtain ⟨r, listed, rfl⟩ := List.mem_map.mp member
  have sorted := List.mem_mergeSort.mp (Database.mem_of_mem_cut listed)
  have stored := List.mem_of_mem_filter sorted
  exact ⟨r, stored, by rw [selects.columns, table.cells_eq stored]⟩

namespace Store

open Session

variable {s : Schema} {e : Entity} {db : Database} {t : Table} {α : Type} {m : Mapping α} {q : Selection}

theorem Hosts.admits (hosts : Hosts s db) (consistent : s.Consistent) (known : e ∈ s.entities)
    (found : db.table? e.tableName = some t) : e.Admits t.rows := by
  obtain ⟨key, k, keyAt⟩ := consistent.keyAt known
  obtain ⟨table, keeps⟩ := hosts.table known keyAt found
  exact table.admits keeps

/-- What a selection reads from a database that hosts the schema, it reads from rows that the entity admits. -/
theorem Hosts.load_eq_error (hosts : Hosts s db) (consistent : s.Consistent) (known : e ∈ s.entities)
    (selects : e.Selects q) {rows : List (List Cell)} {cells : List Cell} {f : CellFault}
    (read : db.select q = .ok rows) (member : cells ∈ rows) (failed : e.load m cells = .error (.cell f)) :
    f.OfRange := by
  obtain ⟨key, k, keyAt⟩ := consistent.keyAt known
  obtain ⟨t, found, _⟩ := hosts.tables e known
  obtain ⟨table, keeps⟩ := hosts.table known keyAt found
  obtain ⟨r, stored, rfl⟩ := table.mem_select found selects read member
  exact (table.admits keeps).load_eq_error stored failed

section Reading

variable (hosts : Hosts s db) (consistent : s.Consistent)

include hosts consistent

theorem readsWell_loadAll (known : e ∈ s.entities) (selects : e.Selects q) : (loadAll m e q).ReadsWell db := by
  refine .ask_bind fun rows read => ?_
  cases loaded : rows.mapM (e.load m) with
  | ok instances => exact readsWell_pure instances
  | error f =>
    obtain ⟨before, cells, after, split, _, failed⟩ := Checks.mapM_eq_error.mp loaded
    refine readsWell_throw ?_
    rintro g rfl
    exact hosts.load_eq_error consistent known selects read (by simp [split]) failed

theorem readsWell_find (key : Value) : (find s m key).ReadsWell db := by
  refine .mapped_bind fun e described => .mapped_bind fun q accepted => .ask_bind fun rows read => ?_
  cases last : rows.getLast? with
  | none => exact readsWell_pure none
  | some cells =>
    dsimp only
    cases loaded : e.load m cells with
    | ok a => exact readsWell_pure (some a)
    | error f =>
      refine readsWell_throw ?_
      rintro g rfl
      exact hosts.load_eq_error consistent (mem_of_describe described) (Entity.selects_of_lookup accepted) read
        (List.mem_of_getLast? last) loaded

theorem readsWell_findReferenced {β : Type} (a : α) (column : String) (target : Mapping β) :
    (findReferenced s m a column target).ReadsWell db := by
  refine .mapped_bind fun e _ => .mapped_bind fun parent _ => .mapped_bind fun c _ => .refuse (by simp) ?_
  cases m.field a column with
  | none => exact readsWell_throw (by simp)
  | some key => cases key <;> first | exact readsWell_pure none | exact readsWell_find hosts consistent _

theorem readsWell_select (q : Query) : (select s m q).ReadsWell db :=
  .mapped_bind fun _ described => .mapped_bind fun _ accepted =>
    readsWell_loadAll hosts consistent (mem_of_describe described) (Entity.selects_of_selection accepted)

theorem readsWell_all : (all s m).ReadsWell db :=
  .mapped_bind fun _ described => .mapped_bind fun _ accepted =>
    readsWell_loadAll hosts consistent (mem_of_describe described) (Entity.selects_of_listing accepted)

end Reading

theorem readsWell_insertWith (a : α) (mode : Conflict) : (insertWith s m a mode).ReadsWell db :=
  .mapped_bind fun _ _ => .mapped_bind fun _ _ => .mapped_bind fun _ _ => readsWell_execute _

theorem readsWell_persist (a : α) : (persist s m a).ReadsWell db := by
  refine .mapped_bind fun _ _ => .mapped_bind fun _ _ => .mapped_bind fun _ _ => ?_
  exact (readsWell_execute _).bind fun _ _ _ => .mapped_bind fun _ _ => readsWell_mapped _

/-- An operation on a database that hosts the schema reads no cell that it does not expect. -/
theorem Hosts.readsWell (hosts : Hosts s db) (consistent : s.Consistent) (o : Operation) {f : CellFault}
    (failed : o.fault? s db = some (.cell f)) : f.OfRange := by
  cases o with
  | insert m a => exact ((readsWell_insertWith a .unspecified).bind fun id _ _ => readsWell_pure (id.getD 0)) f failed
  | insertWith m a mode => exact readsWell_insertWith a mode f failed
  | persist m a => exact readsWell_persist a f failed
  | find m key => exact readsWell_find hosts consistent key f failed
  | findReferenced m a column target => exact readsWell_findReferenced hosts consistent a column target f failed
  | all m => exact readsWell_all hosts consistent f failed
  | select m q => exact readsWell_select hosts consistent q f failed
  | first m q =>
    exact ((readsWell_select hosts consistent q.first).bind fun found _ _ => readsWell_pure found.head?) f failed
  | count m => exact ReadsWell.mapped_bind (fun _ _ => readsWell_ask _) f failed
  | countWhere m conds =>
    exact ReadsWell.mapped_bind (fun _ _ => .mapped_bind fun _ _ => readsWell_ask _) f failed
  | update m a =>
    exact ReadsWell.mapped_bind
      (fun _ _ => .mapped_bind fun _ _ => .mapped_bind fun _ _ => readsWell_execute _) f failed
  | updateWhere m values conds =>
    exact ReadsWell.mapped_bind (fun _ _ => .mapped_bind fun _ _ => readsWell_execute _) f failed
  | delete m key =>
    exact ReadsWell.mapped_bind (fun _ _ => .mapped_bind fun _ _ => readsWell_execute _) f failed
  | deleteWhere m conds =>
    exact ReadsWell.mapped_bind (fun _ _ => .mapped_bind fun _ _ => readsWell_execute _) f failed

/-- Whatever a program does with a store, the table of every entity has rows as the entity declares them, and neither
these rows nor any operation meet with a cell that is not expected where it stands. -/
theorem stored_rows {c : Catalog} {m : Migration} {db₀ db : Database} (made : Migration.ofCatalog c = .ok m)
    (created : m.Creates db₀) (reached : Reaches m.schema db₀ db) :
    (∀ e ∈ m.schema.entities, ∃ t, db.table? e.tableName = some t ∧ t.definition = e.tableDefinition ∧
      e.Admits t.rows ∧ ∀ r ∈ t.rows, ∀ f, e.readCells r.cells = .error f → f.OfRange) ∧
    ∀ (o : Operation) (f : CellFault), o.fault? m.schema db = some (.cell f) → f.OfRange := by
  have consistent := Migration.consistent_of_ofCatalog made
  have hosts := reached.hosts consistent created.hosts
  refine ⟨fun e known => ?_, fun o f failed => hosts.readsWell consistent o failed⟩
  obtain ⟨t, found, definition, _⟩ := hosts.tables e known
  have admits := hosts.admits consistent known found
  exact ⟨t, found, definition, admits, fun r member f failed => admits.readCells_eq_error member failed⟩

/-- Tags are told apart by their texts and by their ranks, which not all of them have. -/
theorem stored_rows_ranked :
    let text : Column := { name := "text", kind := .text, isKey := true }
    let rank : Column := { name := "rank", kind := .integer, unique := true, nullable := true }
    let tag : Entity := { name := "Tag", columns := [text, rank] }
    let cat : Catalog := ⟨"1", [tag]⟩
    let m : Migration := ⟨⟨[tag], [("Tag", 0)]⟩, cat.fingerprint⟩
    let tags : Mapping (List (String × Value)) := ⟨"Tag", fun a c => a.lookup c, fun _ => .ok []⟩
    let db₀ := m.up.after {}
    let db₁ := Operation.after m.schema db₀ (.insert tags [("text", .text "a"), ("rank", .null)])
    let db₂ := Operation.after m.schema db₁ (.insert tags [("text", .text "b"), ("rank", .integer 4)])
    let db₃ := Operation.after m.schema db₂ (.insertWith tags [("text", .text "c"), ("rank", .integer 4)] .replace)
    let db := Operation.after m.schema db₃ (.updateWhere tags [("rank", .null)] [])
    let rows : List Record := [⟨1, [.text "a", .null]⟩, ⟨3, [.text "c", .null]⟩]
    Migration.ofCatalog cat = .ok m ∧ m.Creates db₀ ∧ Reaches m.schema db₀ db ∧ tag.rowsIn db = rows ∧
      tag.Admits rows ∧ ∀ (o : Operation) (f : CellFault), o.fault? m.schema db = some (.cell f) → f.OfRange := by
  intro text rank tag cat m tags db₀ db₁ db₂ db₃ db rows
  have made : Migration.ofCatalog cat = .ok m := Migration.ofCatalog_eq_ok.mpr ⟨by decide +kernel, rfl⟩
  have done : (m.up.outcome {}).1 = .ok () := by decide +kernel
  have created : m.Creates db₀ := ⟨Session.outcome_eq done, by decide +kernel⟩
  have reached : Reaches m.schema db₀ db := .next _ (.next _ (.next _ (.next _ .refl)))
  have listed : tag.rowsIn db = rows := by decide +kernel
  obtain ⟨tables, reads⟩ := stored_rows made created reached
  obtain ⟨t, found, _, admits, _⟩ := tables tag List.mem_cons_self
  rw [← Entity.rowsIn_eq found, listed] at admits
  exact ⟨made, created, reached, listed, admits, reads⟩

end Store

end Tabular
