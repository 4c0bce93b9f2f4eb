import Mathlib.Data.List.Forall2
import Tabular.Proofs.StatementSizes
import Tabular.Proofs.TableRows

/-!
# Statements on a database

A statement on the rows of a table that is carried out puts another table of the same definition in its place
(`Replaces`): an insertion with one row more or none (`insert_eq_ok`), an update with some rows changed
(`update_eq_ok`), a deletion with some rows less (`delete_eq_ok`). All other tables are left as they were, no
reference leads nowhere afterwards, and a sound database stays sound.
-/

namespace Tabular.Database

open Sql Text

variable {db db' : Database} {t t' : Table} {name : String}

theorem sameName_iff {a b : String} : sameName a b = true ↔ foldCase a = foldCase b := by
  rw [sameName, beq_iff_eq]

theorem require_eq_ok : db.require name = .ok t ↔ db.table? name = some t := by
  rw [require]
  cases db.table? name with
  | none => simp
  | some u => simp

theorem readable_eq (found : db.table? name = some t) : db.readable name = .ok t := by
  rw [readable, found]

theorem mem_of_table? (found : db.table? name = some t) : t ∈ db.tables :=
  List.mem_of_find?_eq_some found

theorem foldCase_of_table? (found : db.table? name = some t) : foldCase t.name = foldCase name := by
  have same := List.find?_some found
  exact sameName_iff.mp same

/-- Names that differ in case only stand for one table. -/
theorem table?_congr {a b : String} (same : foldCase a = foldCase b) : db.table? a = db.table? b := by
  have tests : (fun t : Table => sameName t.name a) = fun t => sameName t.name b := by
    funext t
    rw [sameName, sameName, same]
  rw [table?, table?, tests]

/-- A name stands for the table that was put in place of the one it stood for, and any other name for the same
table as before. -/
theorem table?_setTable (found : db.table? name = some t) (named : t'.name = t.name) (other : String) :
    (db.setTable t').table? other = if foldCase other = foldCase name then some t' else db.table? other := by
  have named' : foldCase t'.name = foldCase name := by rw [named, foldCase_of_table? found]
  have kept : (fun u : Table => sameName (if sameName u.name t'.name then t' else u).name other) =
      fun u => sameName u.name other := by
    funext u
    by_cases here : sameName u.name t'.name = true
    · rw [if_pos here, sameName, sameName, sameName_iff.mp here]
    · rw [if_neg here]
  have moved : (db.setTable t').table? other =
      (db.table? other).map fun u => if sameName u.name t'.name then t' else u := by
    rw [table?, setTable, List.find?_map]
    exact congrArg (Option.map _) (congrArg (List.find? · db.tables) kept)
  by_cases same : foldCase other = foldCase name
  · rw [moved, if_pos same, table?_congr same, found, Option.map_some, named, if_pos (sameName_self _)]
  · rw [moved, if_neg same]
    cases elsewhere : db.table? other with
    | none => rfl
    | some u =>
      have apart : ¬ sameName u.name t'.name = true := by
        rw [sameName_iff, foldCase_of_table? elsewhere, named']
        exact same
      rw [Option.map_some, if_neg apart]

theorem mem_setTable {u : Table} (member : u ∈ (db.setTable t').tables) : u = t' ∨ u ∈ db.tables := by
  obtain ⟨old, known, rfl⟩ := List.mem_map.mp member
  by_cases here : sameName old.name t'.name = true
  · rw [if_pos here]
    exact .inl rfl
  · rw [if_neg here]
    exact .inr known

/-- A database of sound tables with names that tell them apart. -/
structure Sound (db : Database) : Prop where
  tables : ∀ t ∈ db.tables, t.Sound
  names : (db.tables.map fun t => foldCase t.name).Nodup

theorem sound_empty : Sound {} where
  tables := by simp
  names := .nil

theorem Sound.of_table? (sound : db.Sound) (found : db.table? name = some t) : t.Sound :=
  sound.tables t (mem_of_table? found)

theorem Sound.setTable (sound : db.Sound) (kept : t'.Sound) : (db.setTable t').Sound where
  tables := by
    intro u member
    rcases mem_setTable member with rfl | old
    · exact kept
    · exact sound.tables u old
  names := by
    have same : ((db.setTable t').tables.map fun t => foldCase t.name) = db.tables.map fun t => foldCase t.name := by
      rw [Database.setTable, List.map_map]
      refine List.map_congr_left fun u _ => ?_
      by_cases here : sameName u.name t'.name = true
      · rw [Function.comp_apply, if_pos here, sameName_iff.mp here]
      · rw [Function.comp_apply, if_neg here]
    rw [same]
    exact sound.names

/-- A table was put in the place of the one that a name stands for, and no reference leads nowhere. -/
structure Replaces (db db' : Database) (name : String) (t t' : Table) : Prop where
  found : db.table? name = some t
  definition : t'.definition = t.definition
  replaced : db' = db.setTable t'
  consistent : db'.isConsistent = true

namespace Replaces

theorem table? (replaces : Replaces db db' name t t') (other : String) :
    db'.table? other = if foldCase other = foldCase name then some t' else db.table? other := by
  rw [replaces.replaced, table?_setTable replaces.found (congrArg TableDefinition.name replaces.definition)]

theorem table?_self (replaces : Replaces db db' name t t') : db'.table? name = some t' := by
  rw [replaces.table?, if_pos rfl]

theorem sound (replaces : Replaces db db' name t t') (before : db.Sound) (kept : t.Sound → t'.Sound) : db'.Sound := by
  rw [replaces.replaced]
  exact before.setTable (kept (before.of_table? replaces.found))

end Replaces

theorem requireConsistent_eq_ok : db.requireConsistent = .ok db' ↔ db.isConsistent = true ∧ db' = db := by
  rw [requireConsistent]
  by_cases consistent : db.isConsistent = true
  · simp [consistent, eq_comm]
  · simp [consistent]

/-- The last step of every statement. -/
private theorem replaces_of_requireConsistent (found : db.table? name = some t)
    (definition : t'.definition = t.definition) (accepted : (db.setTable t').requireConsistent = .ok db') :
    Replaces db db' name t t' := by
  obtain ⟨consistent, rfl⟩ := requireConsistent_eq_ok.mp accepted
  exact ⟨found, definition, rfl, consistent⟩

/-! ## Statements -/

/-- The cells that values are stored as, under the same names. -/
def cellsOf (values : List (String × Value)) : List (String × Cell) :=
  values.map fun (column, v) => (column, v.cell)

/-- What the names of values stand for in a table, beside the values. -/
def Resolved (t : Table) : List (String × Cell) → List (Table.Target × Cell) → Prop :=
  List.Forall₂ fun p q => t.target? p.1 = some q.1 ∧ p.2 = q.2

theorem requireTarget_eq_ok {target : Table.Target} :
    requireTarget t name = .ok target ↔ t.target? name = some target := by
  rw [requireTarget]
  cases t.target? name with
  | none => simp
  | some found => simp

private theorem resolve_eq_ok {p : String × Cell} {q : Table.Target × Cell} :
    (do return (← requireTarget t p.1, p.2) : Except DatabaseFault _) = .ok q ↔
      t.target? p.1 = some q.1 ∧ p.2 = q.2 := by
  rw [Checks.bind_eq_ok]
  simp only [requireTarget_eq_ok]
  constructor
  · rintro ⟨target, found, answer⟩
    obtain rfl := Except.ok.inj answer
    exact ⟨found, rfl⟩
  · rintro ⟨found, same⟩
    exact ⟨q.1, found, by rw [same]; rfl⟩

theorem Resolved.of_mem {values : List (String × Cell)} {given : List (Table.Target × Cell)}
    (resolved : Resolved t values given) {q : Table.Target × Cell} (member : q ∈ given) :
    ∃ p ∈ values, t.target? p.1 = some q.1 ∧ p.2 = q.2 :=
  Checks.exists_of_mem_right resolved member

theorem Resolved.mem {values : List (String × Cell)} {given : List (Table.Target × Cell)}
    (resolved : Resolved t values given) {p : String × Cell} (member : p ∈ values) :
    ∃ q ∈ given, t.target? p.1 = some q.1 ∧ p.2 = q.2 :=
  Checks.exists_of_mem_left resolved member

theorem select_iff {s : Selection} {rows : List (List Cell)} : db.select s = .ok rows ↔
    (Statement.select s).WithinLimits ∧ ∃ t, db.readable s.table = .ok t ∧
      ((cut s.page (t.sort s.order (t.rows.filter (t.satisfies s.conditions)))).map fun r =>
        s.columns.map (t.cell · r)) = rows := by
  rw [select, requireSize_bind_eq_ok]
  simp only [Checks.bind_eq_ok]
  exact and_congr_right fun _ => exists_congr fun t => and_congr_right fun _ => ⟨Except.ok.inj, congrArg Except.ok⟩

theorem count_iff {q : Tally} {n : Nat} : db.count q = .ok n ↔
    (Statement.count q).WithinLimits ∧ ∃ t, db.readable q.table = .ok t ∧
      t.rows.countP (t.satisfies q.conditions) = n := by
  rw [count, requireSize_bind_eq_ok]
  simp only [Checks.bind_eq_ok]
  exact and_congr_right fun _ => exists_congr fun t => and_congr_right fun _ => ⟨Except.ok.inj, congrArg Except.ok⟩

theorem select_of_parameters {s : Selection} (many : maxParameters < (Statement.select s).params.length) :
    db.select s = .error .tooManyParameters := by
  rw [select, requireSize_of_parameters many]
  rfl

theorem count_of_parameters {q : Tally} (many : maxParameters < (Statement.count q).params.length) :
    db.count q = .error .tooManyParameters := by
  rw [count, requireSize_of_parameters many]
  rfl

/-- An insertion adds one row, unless it drops it. -/
theorem insert_eq_ok {mode : Conflict} {values : List (String × Cell)} {done : Option Int64}
    (inserted : db.insert mode name values = .ok (done, db')) :
    ∃ t t' given id, Replaces db db' name t t' ∧ Resolved t values given ∧ newId t given = .ok id ∧
      insertRow t mode (t.withId id (newCells t given)) = .ok (done, t') := by
  obtain ⟨_, _, accepted⟩ := Checks.bind_eq_ok.mp inserted
  obtain ⟨t, found, targeted⟩ := Checks.bind_eq_ok.mp accepted
  obtain ⟨given, resolved, parents⟩ := Checks.bind_eq_ok.mp targeted
  obtain ⟨_, _, numbered⟩ := Checks.bind_eq_ok.mp parents
  obtain ⟨id, chosen, placed⟩ := Checks.bind_eq_ok.mp numbered
  obtain ⟨⟨row, t'⟩, added, checked⟩ := Checks.bind_eq_ok.mp placed
  obtain ⟨after, consistent, answer⟩ := Checks.bind_eq_ok.mp checked
  simp only [pure, Except.pure, Except.ok.injEq, Prod.mk.injEq] at answer
  obtain ⟨rfl, rfl⟩ := answer
  have definition : t'.definition = t.definition := by
    rcases insertRow_eq_ok added with ⟨_, _, rfl⟩ | ⟨_, _, _, _, _, _, rfl⟩
    · rw [noteId_eq]
    · rw [noteId_eq]
  have replaces := replaces_of_requireConsistent (require_eq_ok.mp found) definition consistent
  have resolved' : Resolved t values given := (Checks.mapM_eq_ok.mp resolved).imp fun _ _ => resolve_eq_ok.mp
  exact ⟨t, t', given, id, replaces, resolved', chosen, added⟩

/-- An update changes the rows that meet its conditions one after the other, and answers with their number. -/
theorem update_steps {q : Revision} {n : Nat} (updated : db.update q = .ok (n, db')) :
    ∃ t t' given, Replaces db db' q.table t t' ∧ Resolved t (cellsOf q.values) given ∧
      n = (t.rows.filter (t.satisfies q.conditions)).length ∧
      (t.rows.filter (t.satisfies q.conditions)).foldlM (fun t r => do reviseRow t r.id (← assign t given r)) t =
        .ok t' := by
  obtain ⟨_, accepted⟩ := requireSize_bind_eq_ok.mp updated
  obtain ⟨t, found, targeted⟩ := Checks.bind_eq_ok.mp accepted
  obtain ⟨given, resolved, parents⟩ := Checks.bind_eq_ok.mp targeted
  obtain ⟨_, _, changing⟩ := Checks.bind_eq_ok.mp parents
  obtain ⟨t', revised, checked⟩ := Checks.bind_eq_ok.mp changing
  obtain ⟨after, consistent, answer⟩ := Checks.bind_eq_ok.mp checked
  simp only [pure, Except.pure, Except.ok.injEq, Prod.mk.injEq] at answer
  obtain ⟨rfl, rfl⟩ := answer
  obtain ⟨rows, rfl, _⟩ := revise_eq_ok revised
  have resolved' : Resolved t (cellsOf q.values) given := by
    rw [Resolved, cellsOf, List.forall₂_map_left_iff]
    refine (Checks.mapM_eq_ok.mp resolved).imp ?_
    rintro ⟨column, v⟩ q accepted
    exact resolve_eq_ok.mp accepted
  exact ⟨t, { t with rows := rows }, given, replaces_of_requireConsistent (require_eq_ok.mp found) rfl consistent,
    resolved', rfl, revised⟩

/-- An update leaves old rows, and what became of rows that meet its conditions. -/
theorem update_eq_ok {q : Revision} {n : Nat} (updated : db.update q = .ok (n, db')) :
    ∃ t rows given, Replaces db db' q.table t { t with rows := rows } ∧
      Resolved t (cellsOf q.values) given ∧
      (t.Sound → Table.Sound { t with rows := rows }) ∧
      ∀ s ∈ rows, s ∈ t.rows ∨ ∃ r ∈ t.rows, t.satisfies q.conditions r = true ∧ assign t given r = .ok s := by
  obtain ⟨t, t', given, replaces, resolved, _, revised⟩ := update_steps updated
  obtain ⟨rows, rfl, sound, origins⟩ := revise_eq_ok revised
  refine ⟨t, rows, given, replaces, resolved, sound, fun s member => ?_⟩
  rcases origins s member with old | ⟨r, matching, changed⟩
  · exact .inl old
  · obtain ⟨known, met⟩ := List.mem_filter.mp matching
    exact .inr ⟨r, known, met, changed⟩

/-- What is deleted are the rows that meet the conditions. Only a reference to one of them can keep them. -/
theorem delete_eq {q : Removal} (within : (Statement.delete q).WithinLimits) (found : db.table? q.table = some t)
    (parents : db.requireParents t.columns = .ok ()) : db.delete q =
      (fun db' => ((t.rows.filter (t.satisfies q.conditions)).length, db')) <$>
      (db.setTable { t with rows := t.rows.filter fun r => !t.satisfies q.conditions r }).requireConsistent := by
  have counted : t.rows.length - (t.rows.filter fun r => !t.satisfies q.conditions r).length =
      (t.rows.filter (t.satisfies q.conditions)).length := by
    rw [← List.countP_eq_length_filter, ← List.countP_eq_length_filter,
      List.length_eq_countP_add_countP (t.satisfies q.conditions)]
    simp
  rw [delete, requireSize_eq_ok.mpr within, require_eq_ok.mpr found]
  show (db.requireParents t.columns >>= fun _ => _) = _
  rw [parents]
  show (do
    let after ← (db.setTable { t with rows := t.rows.filter fun r => !t.satisfies q.conditions r }).requireConsistent
    return (t.rows.length - (t.rows.filter fun r => !t.satisfies q.conditions r).length, after)) = _
  rw [counted]
  cases (db.setTable { t with rows := t.rows.filter fun r => !t.satisfies q.conditions r }).requireConsistent <;> rfl

theorem withinLimits_of_delete {q : Removal} {n : Nat} (deleted : db.delete q = .ok (n, db')) :
    (Statement.delete q).WithinLimits :=
  (requireSize_bind_eq_ok.mp deleted).1

/-- A deletion keeps the rows that do not meet its conditions, and answers with the number of the others. -/
theorem delete_eq_ok {q : Removal} {n : Nat} (deleted : db.delete q = .ok (n, db')) :
    ∃ t, Replaces db db' q.table t { t with rows := t.rows.filter fun r => !t.satisfies q.conditions r } ∧
      n = (t.rows.filter (t.satisfies q.conditions)).length := by
  obtain ⟨within, accepted⟩ := requireSize_bind_eq_ok.mp deleted
  obtain ⟨t, found, checked⟩ := Checks.bind_eq_ok.mp accepted
  obtain ⟨_, parents, _⟩ := Checks.bind_eq_ok.mp checked
  have known := require_eq_ok.mp found
  rw [delete_eq within known parents, Checks.map_eq_ok] at deleted
  obtain ⟨after, consistent, answer⟩ := deleted
  obtain ⟨rfl, rfl⟩ := Prod.mk.inj answer
  exact ⟨t, replaces_of_requireConsistent known rfl consistent, rfl⟩

theorem Sound.insert {mode : Conflict} {values : List (String × Cell)} {done : Option Int64} (sound : db.Sound)
    (inserted : db.insert mode name values = .ok (done, db')) : db'.Sound := by
  obtain ⟨t, t', given, id, replaces, _, _, placed⟩ := insert_eq_ok inserted
  exact replaces.sound sound fun before => before.insertRow length_newCells placed

end Tabular.Database
