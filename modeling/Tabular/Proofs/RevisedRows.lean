import Tabular.Proofs.FoundRows

/-!
# Rows that are revised in place

An update goes through the rows that meet its conditions one after the other, and each is taken out of the table and
placed again. As rows keep their ids, each comes back to where it was: the rows of the table afterwards are those of
before, at the same places, each as it was or with the assigned values (`For.rows_of_revise`).
-/

namespace Tabular

open Sql

namespace Table

variable {t t' : Table} {rows : List Record} {r s : Record}

theorem place_of_lt (before : ∀ u ∈ rows, s.id < u.id) : place s rows = s :: rows := by
  cases rows with
  | nil => rfl
  | cons u rest => rw [place, if_pos (before u List.mem_cons_self)]

/-- A row that is placed where another with its id was takes the place of it. -/
theorem place_filter (ordered : rows.Pairwise fun u v => u.id < v.id) (member : r ∈ rows) (same : s.id = r.id) :
    place s (rows.filter (·.id != r.id)) = rows.map fun u => if u.id = r.id then s else u := by
  induction rows with
  | nil => cases member
  | cons u rest ih =>
    obtain ⟨first, others⟩ := List.pairwise_cons.mp ordered
    by_cases here : u.id = r.id
    · -- No later row has the id, so that nothing else is taken out.
      have apart : ∀ v ∈ rest, v.id ≠ r.id := by
        intro v later equal
        have less := first v later
        rw [here, equal] at less
        exact Int64.lt_irrefl less
      have kept : rest.filter (·.id != r.id) = rest := List.filter_eq_self.mpr fun v later => by simp [apart v later]
      have unchanged : (rest.map fun v => if v.id = r.id then s else v) = rest := by
        rw [List.map_congr_left fun v later => if_neg (apart v later), List.map_id']
      rw [List.filter_cons_of_neg (by simp [here]), kept, List.map_cons, if_pos here, unchanged]
      exact place_of_lt fun v later => by rw [same, ← here]; exact first v later
    · have later : r ∈ rest := (List.mem_cons.mp member).resolve_left fun equal => here (by rw [equal])
      have behind : ¬ s.id < u.id := by
        rw [same]
        exact Int64.not_lt.mpr (Int64.le_of_lt (first r later))
      rw [List.filter_cons_of_pos (by simp [here]), place, if_neg behind, ih others later, List.map_cons, if_neg here]

theorem Sound.eq_of_id (sound : t.Sound) (first : r ∈ t.rows) (second : s ∈ t.rows) (same : r.id = s.id) : r = s :=
  sound.eq_of_clashes first second (by simp [clashes, same])

end Table

namespace Database

variable {t t' : Table} {given : List (Table.Target × Cell)}

/-- A row with the given assignments, under its own id. -/
def revisedRow (t : Table) (given : List (Table.Target × Cell)) (r : Record) : Record :=
  t.withId r.id (assignedCells t given r)

theorem reviseRow_in_place {r s : Record} (sound : t.Sound) (member : r ∈ t.rows) (same : s.id = r.id)
    (revised : reviseRow t r.id s = .ok t') :
    t' = { t with rows := t.rows.map fun u => if u.id = r.id then s else u } := by
  obtain ⟨_, _, rfl⟩ := reviseRow_eq_ok.mp revised
  rw [Table.place_filter sound.ordered member same]

/-- Rows that keep their ids when they are changed are changed in place. -/
theorem rows_of_revise {matching : List Record} (sound : t.Sound) (known : ∀ r ∈ matching, r ∈ t.rows)
    (distinct : matching.Nodup) (kept : ∀ r ∈ matching, ∀ s, assign t given r = .ok s → s.id = r.id)
    (revised : matching.foldlM (fun t r => do reviseRow t r.id (← assign t given r)) t = .ok t') :
    t'.rows = t.rows.map fun r => if r ∈ matching then revisedRow t given r else r := by
  -- Induction on the rows still to be changed, which are all in the table that the earlier changes left.
  induction matching generalizing t with
  | nil =>
    obtain rfl := Except.ok.inj revised
    simp
  | cons r rest ih =>
    obtain ⟨next, first, later⟩ := Checks.bind_eq_ok.mp revised
    obtain ⟨s, assigned, placed⟩ := Checks.bind_eq_ok.mp first
    have same : s.id = r.id := kept r List.mem_cons_self s assigned
    obtain ⟨id, rfl, _⟩ := assign_eq_ok assigned
    obtain rfl : id = r.id := by rwa [Table.withId_id] at same
    have sound' : next.Sound := sound_of_reviseRow sound length_assignedCells placed
    obtain ⟨absent, distinct'⟩ := List.nodup_cons.mp distinct
    have here : r ∈ t.rows := known r List.mem_cons_self
    have others : ∀ u ∈ rest, u ∈ t.rows ∧ u.id ≠ r.id := by
      intro u member
      have known' := known u (List.mem_cons_of_mem r member)
      exact ⟨known', fun equal => absent (sound.eq_of_id known' here equal ▸ member)⟩
    obtain rfl := reviseRow_in_place sound here same placed
    have known' : ∀ u ∈ rest, u ∈ t.rows.map fun v => if v.id = r.id then revisedRow t given r else v := by
      intro u member
      obtain ⟨before, other⟩ := others u member
      exact List.mem_map.mpr ⟨u, before, if_neg other⟩
    have changed := ih sound' known' distinct' (fun u member => kept u (List.mem_cons_of_mem r member)) later
    have frame : ∀ rows u, revisedRow { t with rows := rows } given u = revisedRow t given u := fun _ _ => rfl
    rw [changed, List.map_map]
    refine List.map_congr_left fun u member => ?_
    rw [Function.comp_apply, frame, frame]
    by_cases equal : u.id = r.id
    · obtain rfl := sound.eq_of_id member here equal
      have settled : t.withId u.id (assignedCells t given u) ∉ rest := fun again => (others _ again).2 same
      rw [if_pos rfl, if_neg settled, if_pos List.mem_cons_self, revisedRow]
    · have still : u ∈ r :: rest ↔ u ∈ rest := by
        rw [List.mem_cons, or_iff_right]
        rintro rfl
        exact equal rfl
      simp only [if_neg equal, still]

end Database

theorem Record.eq_of_cells {r s : Record} (ids : r.id = s.id) (cells : r.cells = s.cells) : r = s := by
  cases r
  cases s
  simp_all

/-- A row with values assigned to some columns, of which the last one to a column counts. -/
def Entity.assigned (e : Entity) (values : List (String × Value)) (r : Record) : Record :=
  { r with cells := List.zipWith (fun c v => ((values.reverse.lookup c.name).map Value.cell).getD v) e.columns r.cells }

theorem Entity.getElem?_cells_assigned {e : Entity} {values : List (String × Value)} {r : Record} {i : Nat} {c : Column}
    (column : e.columns[i]? = some c) : (e.assigned values r).cells[i]? =
      (r.cells[i]?).map fun v => ((values.reverse.lookup c.name).map Value.cell).getD v := by
  rw [assigned, List.getElem?_zipWith, column]
  cases r.cells[i]? <;> rfl

/-- A column that nothing is assigned to keeps its cell. -/
theorem Entity.getElem?_unassigned {e : Entity} {values : List (String × Value)} {r : Record} {i : Nat} {c : Column}
    (column : e.columns[i]? = some c) (unassigned : ∀ v, (c.name, v) ∉ values) :
    (e.assigned values r).cells[i]? = r.cells[i]? := by
  have missing : values.reverse.lookup c.name = none := by
    rw [List.lookup_eq_none_iff]
    rintro ⟨name, v⟩ listed
    have other : c.name ≠ name := by
      rintro rfl
      exact unassigned v (List.mem_reverse.mp listed)
    simpa using other
  rw [getElem?_cells_assigned column, missing]
  cases r.cells[i]? <;> rfl

namespace Table

open Database

variable {t t' : Table} {e : Entity} {key i : Nat} {k c : Column} {given : List (Target × Cell)} {r : Record}
  {values : List (String × Value)}

theorem For.lookup_resolved (table : t.For e key k) (resolved : Resolved t (cellsOf values) given)
    (named : ∀ p ∈ values, ∃ c ∈ e.columns, c.name = p.1) (column : e.columns[i]? = some c) :
    given.lookup (.column i c.kind.storage) = (values.lookup c.name).map Value.cell := by
  induction values generalizing given with
  | nil =>
    cases resolved
    rfl
  | cons p rest ih =>
    obtain ⟨name, v⟩ := p
    cases resolved with
    | @cons _ q _ later first others =>
      obtain ⟨target, cell⟩ := q
      obtain ⟨found, same⟩ := first
      obtain rfl : v.cell = cell := same
      obtain ⟨d, known, rfl⟩ := named _ List.mem_cons_self
      obtain ⟨j, other⟩ := List.getElem?_of_mem known
      obtain rfl : target = .column j d.kind.storage := Option.some.inj (found.symm.trans (table.target?_eq other))
      have ih := ih others fun p listed => named p (List.mem_cons_of_mem _ listed)
      by_cases same : c.name = d.name
      · obtain rfl := table.position_of_name column other same
        obtain rfl : c = d := Option.some.inj (column.symm.trans other)
        simp
      · have apart : i ≠ j := by
          rintro rfl
          exact same (by rw [Option.some.inj (column.symm.trans other)])
        have apart' : (Target.column i c.kind.storage == Target.column j d.kind.storage) = false := by simp [apart]
        have same' : (c.name == d.name) = false := by simp [same]
        rw [List.lookup_cons, apart', List.lookup_cons, same']
        exact ih

theorem For.lookup_reverse (table : t.For e key k) (resolved : Resolved t (cellsOf values) given)
    (named : ∀ p ∈ values, ∃ c ∈ e.columns, c.name = p.1) (column : e.columns[i]? = some c) :
    given.reverse.lookup (.column i c.kind.storage) = (values.reverse.lookup c.name).map Value.cell := by
  have resolved' : Resolved t (cellsOf values.reverse) given.reverse := by
    rw [cellsOf, List.map_reverse]
    exact List.rel_reverse resolved
  exact table.lookup_resolved resolved' (fun p listed => named p (List.mem_reverse.mp listed)) column

variable {q : Revision}

/-- The cell of an integer key is the id of its row also when it is assigned, as only the row with a key is given it. -/
theorem For.key_cell_assigned (table : t.For e key k) (revises : e.Revises k q) (integer : k.kind.storage = .integer)
    (member : r ∈ t.rows) (met : t.satisfies q.conditions r = true) :
    (e.assigned q.values r).cells[key]? = some (.integer r.id) := by
  have stored := (table.sound.fits r member).key key (table.idIndex?_eq_some.mpr ⟨rfl, integer⟩)
  rw [Entity.getElem?_cells_assigned table.keyAt.column, stored, Option.map_some]
  cases found : q.values.reverse.lookup k.name with
  | none => rfl
  | some w =>
    obtain ⟨before, after, split, _⟩ := List.lookup_eq_some_iff.mp found
    have listed : (k.name, w) ∈ q.values := List.mem_reverse.mp (split ▸ by simp)
    obtain ⟨kind, condition⟩ := revises.keyed w listed
    obtain ⟨n, cell⟩ := Value.cell_of_integer kind integer
    rw [condition, satisfies, List.all_cons, Bool.and_eq_true, table.passes_key kind,
      table.key_cell integer member, cell, Cell.same_integer] at met
    rw [Option.map_some, Option.getD_some, cell, met.1]

/-- An update gives a row that meets its conditions the assigned values, and nothing else. -/
theorem For.revisedRow_eq (table : t.For e key k) (revises : e.Revises k q)
    (resolved : Resolved t (cellsOf q.values) given) (member : r ∈ t.rows) (met : t.satisfies q.conditions r = true) :
    revisedRow t given r = e.assigned q.values r := by
  have fits := table.sound.fits r member
  refine Record.eq_of_cells (withId_id _ _) (List.ext_getElem? fun i => ?_)
  rw [revisedRow, getElem?_withId r.id length_assignedCells]
  by_cases isKey : t.idIndex? = some i
  · obtain ⟨rfl, integer⟩ := table.idIndex?_eq_some.mp isKey
    rw [if_pos isKey, table.key_cell_assigned revises integer member met]
  · rw [if_neg isKey, assignedCells, List.getElem?_map, List.getElem?_zipIdx, table.getElem?_columns]
    cases column : e.columns[i]? with
    | none => rw [Entity.assigned, List.getElem?_zipWith, column]; rfl
    | some c =>
      have inside : i < r.cells.length := by
        rw [fits.width, table.length_columns]
        exact (List.getElem?_eq_some_iff.mp column).1
      have cell : r.cells[i]? = some r.cells[i] := List.getElem?_eq_getElem inside
      rw [Entity.getElem?_cells_assigned column, cell]
      simp only [Option.map_some, Nat.zero_add, Entity.columnDefinition_storage,
        table.lookup_reverse resolved revises.named column, Option.some.injEq]
      cases found : q.values.reverse.lookup c.name with
      | none => rw [Option.map_none, Option.getD_none, List.getD_eq_getElem?_getD, cell, Option.getD_some]
      | some w =>
        obtain ⟨before, after, split, _⟩ := List.lookup_eq_some_iff.mp found
        have listed : (c.name, w) ∈ q.values := List.mem_reverse.mp (split ▸ by simp)
        exact Cell.convert_eq_self (table.ofStorage_of_revises revises column listed)

/-- What an update makes of the rows of a table. -/
theorem For.rows_of_revise (table : t.For e key k) (revises : e.Revises k q)
    (resolved : Resolved t (cellsOf q.values) given)
    (revised : (t.rows.filter (t.satisfies q.conditions)).foldlM
      (fun t r => do reviseRow t r.id (← assign t given r)) t = .ok t') :
    t'.rows = t.rows.map fun r => if t.satisfies q.conditions r then e.assigned q.values r else r := by
  have known : ∀ r ∈ t.rows.filter (t.satisfies q.conditions), r ∈ t.rows := fun r => List.mem_of_mem_filter
  have distinct : (t.rows.filter (t.satisfies q.conditions)).Nodup := table.sound.nodup.filter _
  have kept : ∀ r ∈ t.rows.filter (t.satisfies q.conditions), ∀ s, assign t given r = .ok s → s.id = r.id := by
    intro r matching s assigned
    obtain ⟨member, met⟩ := List.mem_filter.mp matching
    exact table.id_assigned revises resolved member met assigned
  rw [Database.rows_of_revise table.sound known distinct kept revised]
  refine List.map_congr_left fun r member => ?_
  have matching : r ∈ t.rows.filter (t.satisfies q.conditions) ↔ t.satisfies q.conditions r = true := by
    rw [List.mem_filter, and_iff_right member]
  by_cases met : t.satisfies q.conditions r = true
  · rw [if_pos (matching.mpr met), if_pos met, table.revisedRow_eq revises resolved member met]
  · rw [if_neg (mt matching.mp met), if_neg met]

end Table

end Tabular
