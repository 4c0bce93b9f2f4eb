import Tabular.Proofs.Fingerprints
import Tabular.Proofs.SettledDefinitions

/-!
# Creations that are repeated

A creation finds its tables and indexes settled when it is carried out again, and puts one row in the place of the one
that remembers the fingerprint (`remember_eq_ok`), so that it succeeds again and changes nothing but an id that no
column shows. Whatever tables there were before keep their definitions and their rows (`up_again`).
-/

namespace Tabular

open Sql Text

namespace Table

variable {t : Table} {rows : List Record} {r : Record} {n : Int64}

/-- The number of bytes that a database file may have, which is more than there are rows in any table. -/
def rowLimit : Nat := 281474976710656

/-- The id that is tried next after a row was looked at. -/
def nextTry (n : Int64) (r : Record) : Int64 :=
  if r.id = n then n + 1 else n

theorem foldl_nextTry_of_lt (above : ∀ r ∈ rows, n < r.id) : rows.foldl nextTry n = n := by
  induction rows with
  | nil => rfl
  | cons r rest ih =>
    obtain ⟨here, others⟩ := List.forall_mem_cons.mp above
    have other : r.id ≠ n := (Int64.ne_of_lt here).symm
    rw [List.foldl_cons, nextTry, if_neg other, ih others]

/-- Going through rows in their order leads to an id that none of them has, as long as there are enough ids. -/
theorem foldl_nextTry_fresh (ordered : rows.Pairwise fun r s => r.id < s.id)
    (room : n.toInt + rows.length ≤ Int64.maxValue.toInt) :
    n ≤ rows.foldl nextTry n ∧ ∀ r ∈ rows, r.id ≠ rows.foldl nextTry n := by
  induction rows generalizing n with
  | nil => exact ⟨Int64.le_refl n, by simp⟩
  | cons r rest ih =>
    obtain ⟨first, others⟩ := List.pairwise_cons.mp ordered
    rw [List.length_cons] at room
    rw [List.foldl_cons, nextTry]
    by_cases taken : r.id = n
    · rw [if_pos taken]
      have notLast : n ≠ Int64.maxValue := by
        rintro rfl
        omega
      have less := Int64.lt_add_one notLast
      have step : (n + 1).toInt = n.toInt + 1 := by
        have lower := Int64.le_toInt n
        have one : (1 : Int64).toInt = 1 := rfl
        have last : Int64.maxValue.toInt = 9223372036854775807 := rfl
        rw [Int64.toInt_add, one, Int.bmod_eq_of_le (by omega) (by omega)]
      obtain ⟨after, fresh⟩ := ih (n := n + 1) others (by omega)
      have beyond : n < rest.foldl nextTry (n + 1) := Int64.lt_of_lt_of_le less after
      refine ⟨Int64.le_of_lt beyond, List.forall_mem_cons.mpr ⟨?_, fresh⟩⟩
      rw [taken]
      exact Int64.ne_of_lt beyond
    · rw [if_neg taken]
      obtain ⟨after, fresh⟩ := ih (n := n) others (by omega)
      refine ⟨after, List.forall_mem_cons.mpr ⟨?_, fresh⟩⟩
      by_cases before : r.id < n
      · exact Int64.ne_of_lt (Int64.lt_of_lt_of_le before after)
      · -- All later rows have larger ids, so that the id tried is the one to be found.
        have above : n < r.id := Int64.lt_of_le_of_ne (Int64.not_lt.mp before) (Ne.symm taken)
        rw [foldl_nextTry_of_lt fun s later => Int64.lt_trans above (first s later)]
        exact taken

theorem le_largestId (ordered : t.rows.Pairwise fun r s => r.id < s.id) (largest : t.largestId? = some n) :
    ∀ r ∈ t.rows, r.id ≤ n := by
  obtain ⟨last, final, rfl⟩ := Option.map_eq_some_iff.mp largest
  obtain ⟨earlier, split⟩ := List.getLast?_eq_some_iff.mp final
  rw [split] at ordered ⊢
  obtain ⟨_, _, less⟩ := List.pairwise_append.mp ordered
  intro r member
  rcases List.mem_append.mp member with before | here
  · exact Int64.le_of_lt (less r before last (List.mem_singleton_self last))
  · rw [List.mem_singleton.mp here]
    exact Int64.le_refl _

/-- The id of a new row is none that a row has. -/
theorem fresh_of_nextId (ordered : t.rows.Pairwise fun r s => r.id < s.id) (room : t.rows.length ≤ rowLimit)
    (reuses : t.neverReuses = false) (chosen : t.nextId = .ok n) : ∀ r ∈ t.rows, r.id ≠ n := by
  have answer : (if t.largestId? = some Int64.maxValue then t.unusedId else (t.largestId?.map (· + 1)).getD 1) = n := by
    rw [nextId, reuses] at chosen
    exact Except.ok.inj chosen
  by_cases full : t.largestId? = some Int64.maxValue
  · rw [if_pos full] at answer
    have enough : (Int64.maxValue / 4).toInt + rowLimit ≤ Int64.maxValue.toInt := by decide
    obtain ⟨_, fresh⟩ := foldl_nextTry_fresh (n := Int64.maxValue / 4) ordered (by omega)
    rw [← answer]
    exact fresh
  · rw [if_neg full] at answer
    intro r member
    cases largest : t.largestId? with
    | none =>
      have none := List.getLast?_eq_none_iff.mp (Option.map_eq_none_iff.mp largest)
      rw [none] at member
      cases member
    | some k =>
      rw [largest, Option.map_some, Option.getD_some] at answer
      rw [← answer]
      refine Int64.ne_of_lt (Int64.lt_of_le_of_lt (le_largestId ordered largest r member) (Int64.lt_add_one ?_))
      rintro rfl
      exact full largest

theorem filter_place {p : Record → Bool} (dropped : p r = false) : (place r rows).filter p = rows.filter p := by
  induction rows with
  | nil => simp [place, dropped]
  | cons s rest ih =>
    rw [place]
    by_cases before : r.id < s.id
    · rw [if_pos before, List.filter_cons_of_neg (by simp [dropped])]
    · rw [if_neg before, List.filter_cons, List.filter_cons, ih]

/-- Tables with the same columns and rows. Where no column shows the ids of the rows, these may differ, and the order of
the rows with them. -/
structure Alike (t u : Table) : Prop where
  definition : u.definition = t.definition
  lastId : u.lastId = t.lastId
  rows : (u.rows.map (·.cells)).Perm (t.rows.map (·.cells))

theorem alike_refl (t : Table) : Alike t t :=
  ⟨rfl, rfl, .refl _⟩

end Table

namespace Database

variable {db db' : Database} {t t' : Table} {r : Record} {done : Option Int64} {name : String}

/-- In the mode that replaces rows a row is refused only for what it lacks, and the rows that it clashes with go. -/
theorem insertRow_replace : insertRow t .replace r = .ok (done, t') ↔ t.missing? r = none ∧ done = some r.id ∧
    t' = { noteId t r.id with rows := Table.place r (t.rows.filter fun s => !t.clashes r s) } := by
  have missing : (noteId t r.id).missing? r = t.missing? r := by rw [noteId_eq]; rfl
  have shared : (noteId t r.id).shared? r t.rows = t.shared? r t.rows := by rw [noteId_eq]; rfl
  have rows : (noteId t r.id).rows = t.rows := by rw [noteId_eq]
  have clashes : ∀ s, (noteId t r.id).clashes r s = t.clashes r s := by rw [noteId_eq]; exact fun _ => rfl
  simp only [insertRow, missing, shared, rows, clashes]
  cases t.missing? r with
  | some c => simp
  | none =>
    cases free : t.shared? r t.rows with
    | some column => simp [eq_comm]
    | none =>
      have all : t.rows.filter (fun s => !t.clashes r s) = t.rows :=
        List.filter_eq_self.mpr fun s member => by simp [Table.shared?_eq_none.mp free s member]
      simp [all, eq_comm]

/-- A table that holds all keys of another can take its place, if its own references lead somewhere. -/
theorem isConsistent_setTable (consistent : db.isConsistent = true) (found : db.table? name = some t)
    (definition : t'.definition = t.definition) (keys : ∀ v, isKeyOf t v = true → isKeyOf t' v = true)
    (own : ∀ r ∈ t'.rows, (db.setTable t').rowLeads t' r = true) : (db.setTable t').isConsistent = true := by
  have leads : ∀ table v, db.leads table v = true → (db.setTable t').leads table v = true := by
    intro table v
    rw [Database.leads, Database.leads, table?_setTable found (congrArg TableDefinition.name definition)]
    simp only [Bool.or_eq_true]
    refine Or.imp_right fun held => ?_
    by_cases same : foldCase table = foldCase name
    · rw [if_pos same, Option.any_some]
      rw [table?_congr same, found, Option.any_some] at held
      exact keys v held
    · rw [if_neg same]
      exact held
  rw [isConsistent, List.all_eq_true]
  intro u member
  rw [List.all_eq_true]
  intro r row
  rcases mem_setTable member with rfl | old
  · exact own r row
  · rw [isConsistent, List.all_eq_true] at consistent
    have held := List.all_eq_true.mp (consistent u old) r row
    rw [rowLeads, List.all_eq_true] at held ⊢
    rintro ⟨c, v⟩ cell
    have column : (c.references.all fun table => db.leads table v) = true := held (c, v) cell
    show (c.references.all fun table => (db.setTable t').leads table v) = true
    cases target : c.references with
    | none => rfl
    | some table =>
      rw [target, Option.all_some] at column
      rw [Option.all_some]
      exact leads table v column

theorem isKeyOf_of_cells (definition : t'.definition = t.definition)
    (kept : ∀ r ∈ t.rows, ∃ s ∈ t'.rows, s.cells = r.cells) (v : Cell) (held : isKeyOf t v = true) :
    isKeyOf t' v = true := by
  have columns : t'.columns = t.columns := congrArg TableDefinition.columns definition
  rw [isKeyOf] at held ⊢
  rw [columns]
  cases index : t.columns.findIdx? (·.isKey) with
  | none =>
    rw [index] at held
    cases held
  | some i =>
    rw [index] at held
    obtain ⟨r, member, same⟩ := List.any_eq_true.mp held
    obtain ⟨s, member', cells⟩ := kept r member
    refine List.any_eq_true.mpr ⟨s, member', ?_⟩
    rw [cells]
    exact same

/-- A database whose tables fit into a file. -/
def Storable (db : Database) : Prop :=
  ∀ t ∈ db.tables, t.rows.length < Table.rowLimit

end Database

namespace Migration

open Database

variable {m : Migration} {db db' made : Database} {t t' : Table} {n : Int64} {value : String}

/-! ## The row that remembers the fingerprint -/

/-- What is stored to remember a fingerprint. -/
abbrev memory (value : String) : List (String × Cell) :=
  [("key", .text fingerprintKey), ("value", .text value)]

/-- The table with a row that remembers a fingerprint in the place of any such row. -/
def remembered (t : Table) (n : Int64) (value : String) : Table :=
  let others := t.rows.filter fun r => !t.satisfies remembering r
  { t with rows := Table.place ⟨n, [.text fingerprintKey, .text value]⟩ others }

/-- A row with an id of its own clashes with the row that remembers a fingerprint, and with no other. -/
theorem clashes_entry (own : t.definition = metaDefinition) {r : Record} (fresh : r.id ≠ n) :
    t.clashes ⟨n, [.text fingerprintKey, .text value]⟩ r = t.satisfies remembering r := by
  have distinguishing :
      t.distinguishing = [(0, { name := "key", storage := .text, isKey := true, notNull := true })] := by
    rw [Table.distinguishing, idIndex?_eq_none own, Table.columns, own]
    decide +kernel
  have other : (r.id == n) = false := by simpa using fresh
  rw [Table.clashes, distinguishing, satisfies_remembering own, other, Bool.false_or, List.any_cons, List.any_nil,
    Bool.or_false]
  exact Cell.same_comm _ _

theorem insertRow_memory (own : t.definition = metaDefinition) (fresh : ∀ r ∈ t.rows, r.id ≠ n) {done : Option Int64} :
    insertRow t .replace ⟨n, [.text fingerprintKey, .text value]⟩ = .ok (done, t') ↔
      done = some n ∧ t' = remembered t n value := by
  have whole : t.missing? ⟨n, [.text fingerprintKey, .text value]⟩ = none := by
    rw [Table.missing?, Table.columns, own]
    rfl
  have unnoted : noteId t n = t := by rw [noteId, neverReuses_eq_false own, if_neg Bool.false_ne_true]
  have rows : (t.rows.filter fun s => !t.clashes ⟨n, [.text fingerprintKey, .text value]⟩ s) =
      t.rows.filter fun s => !t.satisfies remembering s :=
    List.filter_congr fun s member => by rw [clashes_entry own (fresh s member)]
  rw [insertRow_replace, and_iff_right whole, rows, unnoted, remembered]

/-- Remembering a fingerprint puts a row with a new id in the place of any row that remembered one. -/
theorem remember_eq_ok (sound : db.Sound) (found : db.table? metaName = some t) (own : t.definition = metaDefinition)
    (room : t.rows.length ≤ Table.rowLimit) {done : Option Int64}
    (inserted : db.insert .replace metaName (memory value) = .ok (done, db')) :
    ∃ n, Replaces db db' metaName t (remembered t n value) := by
  obtain ⟨u, u', given, n, replaces, resolved, chosen, placed⟩ := insert_eq_ok inserted
  obtain rfl : u = t := Option.some.inj (replaces.found.symm.trans found)
  obtain rfl := given_of_resolved own resolved
  rw [newId_eq_nextId own] at chosen
  have fresh := Table.fresh_of_nextId (sound.of_table? found).ordered room (neverReuses_eq_false own) chosen
  rw [withId_newCells own] at placed
  obtain ⟨_, rfl⟩ := (insertRow_memory own fresh).mp placed
  exact ⟨n, replaces⟩

theorem filter_remembered (own : t.definition = metaDefinition) :
    (remembered t n value).rows.filter (fun r => !(remembered t n value).satisfies remembering r) =
      t.rows.filter fun r => !t.satisfies remembering r := by
  have same : (remembered t n value).satisfies remembering = t.satisfies remembering := by
    funext r
    rw [satisfies_remembering own]
    exact satisfies_remembering own r
  have entry : (!t.satisfies remembering ⟨n, [.text fingerprintKey, .text value]⟩) = false := by
    rw [satisfies_remembering own]
    exact congrArg not (Cell.same_text.mpr rfl)
  rw [same, remembered]
  dsimp only
  rw [Table.filter_place entry, List.filter_filter]
  simp only [Bool.and_self]

theorem cells_remembered (t : Table) (n : Int64) (value : String) :
    ((remembered t n value).rows.map (·.cells)).Perm
      ([.text fingerprintKey, .text value] ::
        (t.rows.filter fun r => !t.satisfies remembering r).map (·.cells)) :=
  (Table.place_perm _ _).map _

/-- Remembering the same fingerprint twice leaves the rows as they were after the first time. -/
theorem alike_remembered (own : t.definition = metaDefinition) (n k : Int64) (value : String) :
    Table.Alike (remembered t n value) (remembered (remembered t n value) k value) := by
  refine ⟨rfl, rfl, ?_⟩
  have again := cells_remembered (remembered t n value) k value
  rw [filter_remembered own] at again
  exact again.trans (cells_remembered t n value).symm

theorem length_remembered (t : Table) (n : Int64) (value : String) :
    (remembered t n value).rows.length ≤ t.rows.length + 1 := by
  rw [remembered, (Table.place_perm _ _).length_eq, List.length_cons]
  exact Nat.succ_le_succ (List.length_filter_le _ _)

/-- When all references lead somewhere, remembering the same fingerprint again changes no key, so that it succeeds. -/
theorem exists_remember_again (sound : db.Sound) (consistent : db.isConsistent = true)
    (found : db.table? metaName = some (remembered t n value)) (own : t.definition = metaDefinition)
    (room : t.rows.length < Table.rowLimit) :
    ∃ done db', db.insert .replace metaName (memory value) = .ok (done, db') := by
  have room' := length_remembered t n value
  have own' : (remembered t n value).definition = metaDefinition := own
  refine exists_insert_of_consistent found own fun k done t' chosen placed => ?_
  have fresh := Table.fresh_of_nextId (sound.of_table? found).ordered (by omega) (neverReuses_eq_false own) chosen
  obtain ⟨_, rfl⟩ := (insertRow_memory own' fresh).mp placed
  have alike := alike_remembered own n k value
  refine isConsistent_setTable consistent found alike.definition (isKeyOf_of_cells alike.definition fun r member => ?_)
    fun r _ => rowLeads_meta own r
  have kept : r.cells ∈ (remembered (remembered t n value) k value).rows.map (·.cells) :=
    alike.rows.mem_iff.mpr (List.mem_map.mpr ⟨r, member, rfl⟩)
  exact List.mem_map.mp kept

/-! ## A creation step by step -/

/-- A creation carries out its definitions, and then remembers the fingerprint in a row of the table `t`. -/
structure Steps (m : Migration) (db made db' : Database) (t : Table) (n : Int64) : Prop where
  valid : ∀ e ∈ m.schema.entities, e.violations = []
  defined : db.defineAll (.createTable metaDefinition :: m.definitions) = .ok made
  sound : made.Sound
  room : t.rows.length < Table.rowLimit
  own : t.definition = metaDefinition
  replaces : Replaces made db' metaName t (remembered t n m.fingerprint)

theorem exists_steps (wellmade : Wellmade db) (storable : db.Storable) (done : m.up.outcome db = (.ok (), db')) :
    ∃ made t n, Steps m db made db' t n := by
  obtain ⟨valid, made, row, defined, inserted⟩ := up_eq_ok.mp done
  obtain ⟨added, _, _, tables, kept⟩ := defineAll_eq_ok dropTable_not_mem_definitions defined
  obtain ⟨t, t', _, _, replaces, _⟩ := insert_eq_ok inserted
  have own : t.definition = metaDefinition := by
    obtain ⟨u, here, own⟩ := wellmade.remembers.up done
    obtain rfl := Option.some.inj (here.symm.trans replaces.table?_self)
    rw [← replaces.definition, own]
  have room : t.rows.length < Table.rowLimit := by
    have member := mem_of_table? replaces.found
    rw [tables, List.mem_append] at member
    rcases member with old | new
    · exact storable t old
    · obtain ⟨d, _, rfl⟩ := List.mem_map.mp new
      exact Nat.zero_lt_succ _
  have sound := kept wellmade.sound
  obtain ⟨n, replaces'⟩ := remember_eq_ok sound replaces.found own (by omega) inserted
  exact ⟨made, t, n, valid, defined, sound, room, own, replaces'⟩

namespace Steps

/-- Whatever table there was, it is still there; only the table that remembers the fingerprint may have another row. -/
theorem table? (steps : Steps m db made db' t n) {u : Table} (known : u ∈ db.tables) :
    db'.table? u.name = some (if sameName u.name metaName then remembered u n m.fingerprint else u) := by
  obtain ⟨added, _, _, tables, _⟩ := defineAll_eq_ok dropTable_not_mem_definitions steps.defined
  have member : u ∈ made.tables := by
    rw [tables]
    exact List.mem_append_left _ known
  have found := steps.sound.table?_of_mem member
  rw [steps.replaces.table?]
  by_cases same : sameName u.name metaName = true
  · rw [if_pos (sameName_iff.mp same), if_pos same]
    rw [table?_congr (sameName_iff.mp same), steps.replaces.found] at found
    rw [Option.some.inj found]
  · rw [if_neg (mt sameName_iff.mpr same), if_neg same, found]

/-- The definitions find everything settled, and the row of the fingerprint is put in the place of itself. -/
theorem again (steps : Steps m db made db' t n) (sound : db'.Sound) :
    ∃ db'' k, m.up.outcome db' = (.ok (), db'') ∧ Replaces db' db'' metaName (remembered t n m.fingerprint)
      (remembered (remembered t n m.fingerprint) k m.fingerprint) := by
  have creating := dropTable_not_mem_definitions (m := m)
  have settled : ∀ d ∈ .createTable metaDefinition :: m.definitions, db'.Settled d := by
    intro d member
    refine ((settled_defineAll creating steps.defined).2 d member).grows ?_ steps.replaces.grows
    rintro name rfl
    exact creating name member
  have found := steps.replaces.table?_self
  have room := steps.room
  have room' := length_remembered t n m.fingerprint
  obtain ⟨row, db'', inserted⟩ := exists_remember_again sound steps.replaces.consistent found steps.own (by omega)
  obtain ⟨k, replaces⟩ := remember_eq_ok sound found steps.own (by omega) inserted
  exact ⟨db'', k, up_eq_ok.mpr ⟨steps.valid, db', row, defineAll_of_settled settled, inserted⟩, replaces⟩

end Steps

/-- The databases that are left by what is done with the tables of any catalogs, and by what any stores do. -/
inductive Left : Database → Prop
  | empty : Left {}
  | used {db : Database} (u : Use) (left : Left db) : Left (u.leave db)
  | operated {db : Database} (s : Schema) (o : Store.Operation) (left : Left db) : Left (o.after s db)

theorem Wellmade.leave (wellmade : Wellmade db) (u : Use) : Wellmade (u.leave db) := by
  rcases u.leave_cases db with same | ⟨m, _, ⟨found, finds, created⟩ | removed⟩
  · rw [same]
    exact wellmade
  · exact (finds.wellmade wellmade).up created
  · exact wellmade.down removed

theorem Wellmade.operate (wellmade : Wellmade db) (s : Schema) (o : Store.Operation) : Wellmade (o.after s db) := by
  rcases Store.after_eq_or_change o db with same | change
  · rw [same]
    exact wellmade
  · obtain ⟨name, t, t', replaces, kept, _⟩ := change.replaces
    refine ⟨replaces.sound wellmade.sound kept, fun u found => ?_⟩
    rw [replaces.table?] at found
    by_cases same : foldCase metaName = foldCase name
    · rw [if_pos same] at found
      rw [← Option.some.inj found, replaces.definition]
      exact wellmade.remembers t ((table?_congr same).trans replaces.found)
    · rw [if_neg same] at found
      exact wellmade.remembers u found

theorem Left.wellmade (left : Left db) : Wellmade db := by
  induction left with
  | empty => exact wellmade_empty
  | used u _ ih => exact ih.leave u
  | operated s o _ ih => exact ih.operate s o

/-! ## What a creation keeps -/

/-- A table keeps its definition, and its rows but for those that remember a fingerprint. -/
structure Spares (t t' : Table) : Prop where
  definition : t'.definition = t.definition
  others : sameName t.name metaName = false → t' = t
  rows : sameName t.name metaName = true →
    t'.rows.filter (fun r => !t'.satisfies remembering r) = t.rows.filter fun r => !t.satisfies remembering r

/-- A database with the same tables, rows and indexes, but for the ids of rows in the table that remembers the
fingerprint. -/
structure Alike (db db' : Database) : Prop where
  indexes : db'.indexes = db.indexes
  tables : List.Forall₂ Table.Alike db.tables db'.tables
  others : ∀ name, sameName name metaName = false → db'.table? name = db.table? name

theorem alike_of_replaces (sound : db.Sound) (replaces : Replaces db db' metaName t t') (alike : Table.Alike t t') :
    Alike db db' := by
  refine ⟨by rw [replaces.replaced]; rfl, ?_, fun name other => ?_⟩
  · rw [replaces.replaced, Database.setTable, List.forall₂_map_right_iff, List.forall₂_same]
    intro u member
    by_cases same : sameName u.name t'.name = true
    · have found := sound.table?_of_mem member
      have named : foldCase t'.name = foldCase metaName := foldCase_of_table? replaces.table?_self
      rw [table?_congr ((sameName_iff.mp same).trans named), replaces.found] at found
      rw [if_pos same, ← Option.some.inj found]
      exact alike
    · rw [if_neg same]
      exact Table.alike_refl u
  · rw [replaces.table?, if_neg]
    intro same
    rw [sameName_iff.mpr same] at other
    cases other

/-- A creation that succeeds keeps the tables that it finds and their rows, and remembers its fingerprint. Carried out
again it succeeds, and leaves the same tables, rows, indexes and fingerprint. -/
theorem up_again {c : Catalog} (made : ofCatalog c = .ok m) (wellmade : Wellmade db) (storable : db.Storable)
    (done : m.up.outcome db = (.ok (), db')) :
    (∀ t ∈ db.tables, ∃ t', db'.table? t.name = some t' ∧ Spares t t') ∧
      stored.outcome db' = (.ok (some c.fingerprint), db') ∧
      ∃ db'', m.up.outcome db' = (.ok (), db'') ∧ Alike db' db'' ∧
        stored.outcome db'' = (.ok (some c.fingerprint), db'') := by
  obtain ⟨_, t, n, steps⟩ := exists_steps wellmade storable done
  have after := wellmade.up done
  obtain ⟨db'', k, done', replaces⟩ := steps.again after.sound
  rw [← (ofCatalog_eq_ok.mp made).2]
  refine ⟨fun u known => ⟨_, steps.table? known, ?_⟩, stored_of_up wellmade.remembers done, db'', done',
    alike_of_replaces after.sound replaces (alike_remembered steps.own n k m.fingerprint),
    stored_of_up after.remembers done'⟩
  by_cases same : sameName u.name metaName = true
  · have own : u.definition = metaDefinition := by
      refine wellmade.remembers u ?_
      rw [← table?_congr (sameName_iff.mp same)]
      exact wellmade.sound.table?_of_mem known
    rw [if_pos same]
    exact ⟨rfl, fun other => absurd same (by simp [other]), fun _ => filter_remembered own⟩
  · rw [if_neg same]
    exact ⟨rfl, fun _ => rfl, fun _ => rfl⟩

/-- A creation for another catalog, which finds a table with a row. -/
theorem up_again_other_catalog :
    let id : Column := { name := "id", kind := .integer, isKey := true }
    let note : Entity := { name := "Note", columns := [id] }
    let tag : Entity := { name := "Tag", columns := [id, { name := "note", kind := .integer, indexed := true }] }
    let notes : Mapping (List (String × Value)) := ⟨"Note", fun a c => a.lookup c, fun _ => .ok []⟩
    let c : Catalog := ⟨"1", [note, tag]⟩
    let m : Migration := ⟨⟨[note, tag], [("Tag", 1), ("Note", 0)]⟩, c.fingerprint⟩
    let start := Use.leave ⟨.up, ⟨"1", [note]⟩⟩ {}
    let db := Store.Operation.after ⟨[note], [("Note", 0)]⟩ start (.insert notes [("id", .integer 7)])
    let db' := m.up.after db
    ofCatalog c = .ok m ∧ Left db ∧ db.Storable ∧ m.up.outcome db = (.ok (), db') ∧
      note.rowsIn db = [⟨7, [.integer 7]⟩] ∧ note.rowsIn db' = [⟨7, [.integer 7]⟩] ∧
      stored.outcome db' = (.ok (some c.fingerprint), db') ∧
      ∃ db'', m.up.outcome db' = (.ok (), db'') ∧ Alike db' db'' := by
  intro id note tag notes c m start db db'
  have made : ofCatalog c = .ok m := ofCatalog_eq_ok.mpr ⟨by decide +kernel, rfl⟩
  have left : Left db := .operated _ _ (.used _ .empty)
  have storable : db.Storable := by
    have few : (db.tables.all fun t => t.rows.length < Table.rowLimit) = true := by decide +kernel
    simpa [Storable] using few
  have answer : (m.up.outcome db).1 = .ok () := by decide +kernel
  have done : m.up.outcome db = (.ok (), db') := Session.outcome_eq answer
  have before : note.rowsIn db = [⟨7, [.integer 7]⟩] := by decide +kernel
  obtain ⟨spared, remembers, db'', again, alike, _⟩ := up_again made left.wellmade storable done
  obtain ⟨t, found⟩ : ∃ t, db.table? note.tableName = some t := Option.isSome_iff_exists.mp (by decide +kernel)
  have named : t.name = note.tableName := by
    have names : (db.table? note.tableName).map (·.name) = some note.tableName := by decide +kernel
    rw [found] at names
    exact Option.some.inj names
  obtain ⟨t', found', spares⟩ := spared t (mem_of_table? found)
  have other : sameName t.name metaName = false := by
    rw [named]
    decide +kernel
  obtain rfl := spares.others other
  rw [named] at found'
  have after : note.rowsIn db' = [⟨7, [.integer 7]⟩] := by
    rw [← before, Entity.rowsIn_eq found, Entity.rowsIn_eq found']
  exact ⟨made, left, storable, done, before, after, remembers, db'', again, alike⟩

end Migration

end Tabular
