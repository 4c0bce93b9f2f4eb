import Tabular.Proofs.ConditionalStatements
import Tabular.Proofs.Creation
import Tabular.Proofs.RevisedRows

/-!
# Rows that meet conditions

The rows of an entity that meet conditions are the same in all four statements that may be asked with conditions:
those that are counted are those that are selected, and those that are changed or deleted (`conditional_rows`). The
conditions reach the database in text and in parameters that are laid out differently in each of the four, and are
read there as they were asked.
-/

namespace Tabular

open Sql

namespace Sql

/-- The conditions that a request may be asked with. -/
def Request.conditions? : Request → Option (List Condition)
  | .select q => some q.conditions
  | .tally conds => some conds
  | .reviseWhere _ conds => some conds
  | .removeWhere conds => some conds
  | _ => none

end Sql

theorem Database.cut_map {α β : Type} (f : α → β) (p : Page) (rows : List α) :
    (Database.cut p rows).map f = Database.cut p (rows.map f) := by
  simp only [Database.cut]
  cases p.limit with
  | none => exact List.map_drop
  | some n => simp [List.map_drop, List.map_take]

namespace Entity

variable {e : Entity} {conds : List Condition}

theorem conditions_of_statement {r : Request} {s : Statement} (asked : r.conditions? = some conds)
    (answered : e.statement r = .ok s) : s.conditions = conds := by
  cases r with
  | select q =>
    obtain ⟨_, accepted, rfl⟩ := Checks.map_eq_ok.mp answered
    obtain ⟨_, _, rfl⟩ := selection_eq_ok accepted
    exact Option.some.inj asked
  | tally conds =>
    obtain ⟨_, accepted, rfl⟩ := Checks.map_eq_ok.mp answered
    obtain rfl := tally_eq_ok accepted
    exact Option.some.inj asked
  | reviseWhere values conds =>
    obtain ⟨_, accepted, rfl⟩ := Checks.map_eq_ok.mp answered
    obtain rfl := revisionWhere_eq_ok accepted
    exact Option.some.inj asked
  | removeWhere conds =>
    obtain ⟨_, accepted, rfl⟩ := Checks.map_eq_ok.mp answered
    obtain rfl := removalWhere_eq_ok accepted
    exact Option.some.inj asked
  | insert mode row => cases asked
  | lookup key => cases asked
  | list => cases asked
  | tallyAll => cases asked
  | revise row => cases asked
  | remove key => cases asked

/-- The text and the parameters of a request are read with the conditions that were asked, whatever else is bound. -/
theorem conditions_of_prepare {r : Request} {p : Prepared} (asked : r.conditions? = some conds)
    (prepared : e.prepare r = .ok p) : ∃ s, e.statement r = .ok s ∧ p.read = some s ∧ s.conditions = conds := by
  obtain ⟨s, answered, read⟩ := statement_of_prepare prepared
  exact ⟨s, answered, read, conditions_of_statement asked answered⟩

/-! ## Rows that meet conditions -/

/-- The rows of an entity that meet all conditions. -/
def matching (e : Entity) (db : Database) (conds : List Condition) : List Record :=
  (db.table? e.tableName).elim [] fun t => t.rows.filter (t.satisfies conds)

variable {db db' : Database} {t : Table}

theorem matching_eq (found : db.table? e.tableName = some t) :
    e.matching db conds = t.rows.filter (t.satisfies conds) := by
  rw [matching, found, Option.elim_some]

theorem mem_matching {r : Record} (found : db.table? e.tableName = some t) :
    r ∈ e.matching db conds ↔ r ∈ t.rows ∧ t.satisfies conds r = true := by
  rw [matching_eq found, List.mem_filter]

/-- More conditions are met by the rows that meet the ones and the others. -/
theorem matching_append (e : Entity) (db : Database) (conds more : List Condition) :
    e.matching db (conds ++ more) = (e.matching db conds).filter (· ∈ e.matching db more) := by
  cases found : db.table? e.tableName with
  | none => simp [matching, found]
  | some t =>
    simp only [mem_matching found]
    rw [matching_eq found, matching_eq found, List.filter_filter]
    refine List.filter_congr fun r member => ?_
    have both : t.satisfies (conds ++ more) r = (t.satisfies conds r && t.satisfies more r) := List.all_append
    simp [both, member, Bool.and_comm]

/-- What is counted are the rows that meet the conditions, if there is room for the conditions in a statement. -/
theorem count_matching (found : db.table? e.tableName = some t) {n : Nat} :
    db.count ⟨e.tableName, conds⟩ = .ok n ↔
      (Statement.count ⟨e.tableName, conds⟩).WithinLimits ∧ n = (e.matching db conds).length := by
  rw [Database.count_iff, Database.readable_eq found, matching_eq found, ← List.countP_eq_length_filter]
  simp [eq_comm]

/-- A selection reads the cells of the rows that meet its conditions, in their order, and of these a page. -/
theorem select_sorted {key : Nat} {k : Column} (table : t.For e key k) (found : db.table? e.tableName = some t)
    (order : List SortKey) (page : Page) {cells : List (List Cell)} :
    db.select ⟨e.tableName, e.columns.map (·.name), conds, order, page⟩ = .ok cells ↔
      (Statement.select ⟨e.tableName, e.columns.map (·.name), conds, order, page⟩).WithinLimits ∧
        cells = Database.cut page ((t.sort order (e.matching db conds)).map (·.cells)) := by
  have read : (t.sort order (e.matching db conds)).map (fun r => (e.columns.map (·.name)).map (t.cell · r)) =
      (t.sort order (e.matching db conds)).map (·.cells) :=
    List.map_congr_left fun r member =>
      table.cells_eq ((mem_matching found).mp (List.mem_mergeSort.mp member)).1
  rw [Database.select_iff, Database.readable_eq found]
  simp only [Except.ok.injEq, exists_eq_left', Database.cut_map, ← matching_eq found, read, eq_comm]

/-- Conditions that are accepted in a deletion are accepted in a count. -/
theorem tally_of_removalWhere {q : Removal} (accepted : e.removalWhere conds = .ok q) :
    e.tally conds = .ok ⟨e.tableName, conds⟩ := by
  obtain ⟨asked, conditions, _⟩ := Checks.bind_eq_ok.mp accepted
  obtain rfl := requireConditions_eq_self conditions
  exact Checks.bind_eq_ok.mpr ⟨asked, conditions, rfl⟩

end Entity

namespace Store

variable {s : Schema} {e : Entity} {db db' : Database} {α : Type} {μ : Mapping α} {conds : List Condition} {n : Nat}

/-! ## What is answered to conditions -/

theorem countWhere_eq_ok : (countWhere s μ conds).outcome db = (.ok n, db') ↔
    ∃ e q, s.describe μ.name = .ok e ∧ e.tally conds = .ok q ∧ db.count q = .ok n ∧ db' = db := by
  simp only [countWhere, entity, Session.bind_eq_ok, Session.mapped_eq_ok, Session.ask_eq_ok]
  constructor
  · rintro ⟨e, _, ⟨described, rfl⟩, q, _, ⟨accepted, rfl⟩, counted, rfl⟩
    exact ⟨e, q, described, accepted, counted, rfl⟩
  · rintro ⟨e, q, described, accepted, counted, rfl⟩
    exact ⟨e, _, ⟨described, rfl⟩, q, _, ⟨accepted, rfl⟩, counted, rfl⟩

theorem select_eq_ok {q : Query} {xs : List α} (selected : (select s μ q).outcome db = (.ok xs, db')) :
    ∃ e p rows, s.describe μ.name = .ok e ∧ e.selection q = .ok p ∧ db.select p = .ok rows ∧
      rows.mapM (e.load μ) = .ok xs ∧ db' = db := by
  simp only [select, loadAll, entity, Session.bind_eq_ok, Session.mapped_eq_ok, Session.ask_eq_ok] at selected
  obtain ⟨e, _, ⟨described, rfl⟩, p, _, ⟨accepted, rfl⟩, rows, _, ⟨read, rfl⟩, loaded⟩ := selected
  cases instances : rows.mapM (e.load μ) with
  | error f =>
    rw [instances] at loaded
    cases loaded
  | ok ys =>
    rw [instances] at loaded
    obtain ⟨same, rfl⟩ := Prod.mk.inj loaded
    exact ⟨e, p, rows, described, accepted, read, by rw [instances, Except.ok.inj same], rfl⟩

theorem updateWhere_eq_ok {values : List (String × Value)} :
    (updateWhere s μ values conds).outcome db = (.ok n, db') ↔
      ∃ e q, s.describe μ.name = .ok e ∧ e.revisionWhere values conds = .ok q ∧ db.update q = .ok (n, db') := by
  simp only [updateWhere, entity, Session.bind_eq_ok, Session.mapped_eq_ok, Session.execute_eq_ok]
  constructor
  · rintro ⟨e, _, ⟨described, rfl⟩, q, _, ⟨accepted, rfl⟩, updated⟩
    exact ⟨e, q, described, accepted, updated⟩
  · rintro ⟨e, q, described, accepted, updated⟩
    exact ⟨e, _, ⟨described, rfl⟩, q, _, ⟨accepted, rfl⟩, updated⟩

theorem deleteWhere_eq_ok : (deleteWhere s μ conds).outcome db = (.ok n, db') ↔
    ∃ e q, s.describe μ.name = .ok e ∧ e.removalWhere conds = .ok q ∧ db.delete q = .ok (n, db') := by
  simp only [deleteWhere, entity, Session.bind_eq_ok, Session.mapped_eq_ok, Session.execute_eq_ok]
  constructor
  · rintro ⟨e, _, ⟨described, rfl⟩, q, _, ⟨accepted, rfl⟩, deleted⟩
    exact ⟨e, q, described, accepted, deleted⟩
  · rintro ⟨e, q, described, accepted, deleted⟩
    exact ⟨e, _, ⟨described, rfl⟩, q, _, ⟨accepted, rfl⟩, deleted⟩

namespace Hosts

theorem counted (hosts : Hosts s db) (described : s.describe μ.name = .ok e)
    (counted : (countWhere s μ conds).outcome db = (.ok n, db')) : n = (e.matching db conds).length ∧ db' = db := by
  obtain ⟨d, q, described', accepted, answer, rfl⟩ := countWhere_eq_ok.mp counted
  obtain rfl : e = d := Except.ok.inj (described.symm.trans described')
  obtain rfl := Entity.tally_eq_ok accepted
  obtain ⟨t, found, _⟩ := hosts.tables e (mem_of_describe described)
  exact ⟨((Entity.count_matching found).mp answer).2, rfl⟩

theorem selected (hosts : Hosts s db) (consistent : s.Consistent) (described : s.describe μ.name = .ok e)
    {order : List (String × Direction)} {xs : List α}
    (selected : (select s μ ⟨conds, order, {}⟩).outcome db = (.ok xs, db')) :
    xs.length = (e.matching db conds).length ∧ db' = db ∧
      ∃ rows : List Record, rows.Perm (e.matching db conds) ∧
        List.Forall₂ (fun r x => e.load μ r.cells = .ok x) rows xs := by
  obtain ⟨d, p, cells, described', accepted, read, loaded, rfl⟩ := select_eq_ok selected
  obtain rfl : e = d := Except.ok.inj (described.symm.trans described')
  obtain ⟨keys, _, rfl⟩ := Entity.selection_eq_ok accepted
  have known := mem_of_describe described
  obtain ⟨key, k, keyAt⟩ := consistent.keyAt known
  obtain ⟨t, found, _⟩ := hosts.tables e known
  obtain ⟨table, _⟩ := hosts.table known keyAt found
  obtain ⟨_, rfl⟩ := (Entity.select_sorted table found keys {}).mp read
  have sorted : (t.sort keys (e.matching db' conds)).Perm (e.matching db' conds) := List.mergeSort_perm _ _
  have each : List.Forall₂ (fun r x => e.load μ r.cells = .ok x) (t.sort keys (e.matching db' conds)) xs := by
    rw [← List.forall₂_map_left_iff (R := fun cells x => e.load μ cells = .ok x)]
    exact Checks.mapM_eq_ok.mp loaded
  exact ⟨each.length_eq.symm.trans sorted.length_eq, rfl, _, sorted, each⟩

theorem updated (hosts : Hosts s db) (consistent : s.Consistent) (described : s.describe μ.name = .ok e)
    {values : List (String × Value)} (updated : (updateWhere s μ values conds).outcome db = (.ok n, db')) :
    n = (e.matching db conds).length ∧
      (e.rowsIn db' = (e.rowsIn db).map fun r => if r ∈ e.matching db conds then e.assigned values r else r) ∧
      ∀ d ∈ s.entities, d ≠ e → d.rowsIn db' = d.rowsIn db := by
  obtain ⟨d, q, described', accepted, answer⟩ := updateWhere_eq_ok.mp updated
  obtain rfl : e = d := Except.ok.inj (described.symm.trans described')
  have known := mem_of_describe described
  obtain ⟨key, k, keyAt⟩ := consistent.keyAt known
  have revises := Entity.revises_of_revisionWhere keyAt accepted
  obtain rfl := Entity.revisionWhere_eq_ok accepted
  obtain ⟨t, t', given, replaces, resolved, counted, revised⟩ := Database.update_steps answer
  obtain ⟨table, _⟩ := hosts.table known keyAt replaces.found
  refine ⟨by rw [counted, Entity.matching_eq replaces.found], ?_, fun d other apart =>
    hosts.rowsIn_of_replaces consistent known replaces other apart⟩
  rw [Entity.rowsIn_eq replaces.table?_self, Entity.rowsIn_eq replaces.found,
    table.rows_of_revise revises resolved revised]
  refine List.map_congr_left fun r member => ?_
  simp only [Entity.mem_matching replaces.found, member, true_and]

theorem deleted (hosts : Hosts s db) (consistent : s.Consistent) (described : s.describe μ.name = .ok e)
    (deleted : (deleteWhere s μ conds).outcome db = (.ok n, db')) :
    n = (e.matching db conds).length ∧
      e.rowsIn db' = (e.rowsIn db).filter (· ∉ e.matching db conds) ∧
      (countWhere s μ conds).outcome db' = (.ok 0, db') ∧
      ∀ d ∈ s.entities, d ≠ e → d.rowsIn db' = d.rowsIn db := by
  obtain ⟨d, q, described', accepted, answer⟩ := deleteWhere_eq_ok.mp deleted
  obtain rfl : e = d := Except.ok.inj (described.symm.trans described')
  have known := mem_of_describe described
  have tallied := Entity.tally_of_removalWhere accepted
  obtain rfl := Entity.removalWhere_eq_ok accepted
  obtain ⟨t, replaces, counted⟩ := Database.delete_eq_ok answer
  have left := replaces.table?_self
  refine ⟨by rw [counted, Entity.matching_eq replaces.found], ?_, ?_, fun d other apart =>
    hosts.rowsIn_of_replaces consistent known replaces other apart⟩
  · rw [Entity.rowsIn_eq left, Entity.rowsIn_eq replaces.found]
    refine List.filter_congr fun r member => ?_
    simp [Entity.mem_matching replaces.found, member]
  · have none : e.matching db' conds = [] := by
      rw [Entity.matching_eq left, List.filter_eq_nil_iff]
      intro r member
      have unmet := (List.mem_filter.mp member).2
      show ¬ t.satisfies conds r = true
      simpa using unmet
    have within := Database.withinLimits_tally (Database.withinLimits_of_delete answer)
    refine countWhere_eq_ok.mpr ⟨e, _, described, tallied, ?_, rfl⟩
    rw [Entity.count_matching left, none]
    exact ⟨within, rfl⟩

end Hosts

/-- In a database that a program has reached, the same rows meet conditions in a count, a selection, an update and a
deletion. The update assigns its values to these rows and leaves all others and all other columns as they were; the
deletion leaves the rows that do not meet the conditions, as they were, and none that does. Conditions put together
are met by the rows that meet the first and the second. -/
theorem conditional_rows {cat : Catalog} {m : Migration} {db₀ : Database} (made : Migration.ofCatalog cat = .ok m)
    (created : m.Creates db₀) (reached : Reaches m.schema db₀ db) (described : m.schema.describe μ.name = .ok e)
    (conds : List Condition) :
    (∀ r p, r.conditions? = some conds → e.prepare r = .ok p →
      ∃ st, e.statement r = .ok st ∧ p.read = some st ∧ st.conditions = conds) ∧
    (∀ n db', (countWhere m.schema μ conds).outcome db = (.ok n, db') →
      n = (e.matching db conds).length ∧ db' = db) ∧
    (∀ order xs db', (select m.schema μ ⟨conds, order, {}⟩).outcome db = (.ok xs, db') →
      xs.length = (e.matching db conds).length ∧ db' = db ∧
        ∃ rows : List Record, rows.Perm (e.matching db conds) ∧
          List.Forall₂ (fun r x => e.load μ r.cells = .ok x) rows xs) ∧
    (∀ values n db', (updateWhere m.schema μ values conds).outcome db = (.ok n, db') →
      n = (e.matching db conds).length ∧
        (e.rowsIn db' = (e.rowsIn db).map fun r => if r ∈ e.matching db conds then e.assigned values r else r) ∧
        (∀ (r : Record) (i : Nat) (c : Column), e.columns[i]? = some c → (∀ v, (c.name, v) ∉ values) →
          (e.assigned values r).cells[i]? = r.cells[i]?) ∧
        ∀ d ∈ m.schema.entities, d ≠ e → d.rowsIn db' = d.rowsIn db) ∧
    (∀ n db', (deleteWhere m.schema μ conds).outcome db = (.ok n, db') →
      n = (e.matching db conds).length ∧ e.rowsIn db' = (e.rowsIn db).filter (· ∉ e.matching db conds) ∧
        (countWhere m.schema μ conds).outcome db' = (.ok 0, db') ∧
        ∀ d ∈ m.schema.entities, d ≠ e → d.rowsIn db' = d.rowsIn db) ∧
    ∀ more, e.matching db (conds ++ more) = (e.matching db conds).filter (· ∈ e.matching db more) := by
  have consistent := Migration.consistent_of_ofCatalog made
  have hosts := reached.hosts consistent created.hosts
  refine ⟨fun r p => Entity.conditions_of_prepare, fun n db' => hosts.counted described,
    fun order xs db' => hosts.selected consistent described, ?_, fun n db' => hosts.deleted consistent described,
    fun more => Entity.matching_append e db conds more⟩
  intro values n db' updated
  obtain ⟨counted, rows, others⟩ := hosts.updated consistent described updated
  exact ⟨counted, rows, fun r i c => Entity.getElem?_unassigned, others⟩

/-- Of three items, the two with the larger keys are counted, and their contents are set. -/
theorem conditional_rows_items :
    let cat : Catalog := ⟨"1", [Item.entity]⟩
    let m : Migration := ⟨⟨[Item.entity], [("Item", 0)]⟩, cat.fingerprint⟩
    let t : Timestamp := ⟨0, 0, by decide, by decide, by decide⟩
    let db₀ := m.up.after {}
    let db₁ := Operation.after m.schema db₀ (.insert Item.mapping (Item.new 0 "a" t))
    let db₂ := Operation.after m.schema db₁ (.insert Item.mapping (Item.new 0 "b" t))
    let db := Operation.after m.schema db₂ (.insert Item.mapping (Item.new 7 "c" t))
    let conds : List Condition := [⟨"id", .compare .greater (.integer 1)⟩]
    let values := [("content", Value.text "d")]
    let db' := (updateWhere m.schema Item.mapping values conds).after db
    Migration.ofCatalog cat = .ok m ∧ m.Creates db₀ ∧ Reaches m.schema db₀ db ∧
      (countWhere m.schema Item.mapping conds).outcome db = (.ok 2, db) ∧
      (Item.entity.matching db conds).length = 2 ∧
      (updateWhere m.schema Item.mapping values conds).outcome db = (.ok 2, db') ∧
      Item.entity.rowsIn db' =
        [⟨1, [.integer 1, .text "a", .integer 0]⟩, ⟨2, [.integer 2, .text "d", .integer 0]⟩,
          ⟨7, [.integer 7, .text "d", .integer 0]⟩] := by
  intro cat m t db₀ db₁ db₂ db conds values db'
  have made : Migration.ofCatalog cat = .ok m := Migration.ofCatalog_eq_ok.mpr ⟨by decide +kernel, rfl⟩
  have done : (m.up.outcome {}).1 = .ok () := by decide +kernel
  have created : m.Creates db₀ := ⟨Session.outcome_eq done, by decide +kernel⟩
  have reached : Reaches m.schema db₀ db := .next _ (.next _ (.next _ .refl))
  have described : m.schema.describe Item.mapping.name = .ok Item.entity := by decide +kernel
  have number : ((countWhere m.schema Item.mapping conds).outcome db).1 = .ok 2 := by decide +kernel
  have answer : ((updateWhere m.schema Item.mapping values conds).outcome db).1 = .ok 2 := by decide +kernel
  have updated : (updateWhere m.schema Item.mapping values conds).outcome db = (.ok 2, db') :=
    Session.outcome_eq answer
  obtain ⟨_, counts, _, updates, _⟩ := conditional_rows made created reached described conds
  obtain ⟨matching, same⟩ := counts 2 _ (Session.outcome_eq number)
  obtain ⟨_, rows, _⟩ := updates values 2 db' updated
  have counted : (countWhere m.schema Item.mapping conds).outcome db = (.ok 2, db) :=
    (Session.outcome_eq number).trans (by rw [same])
  refine ⟨made, created, reached, counted, matching.symm, updated, rows.trans ?_⟩
  decide +kernel

end Store

end Tabular
