import Tabular.Proofs.AdmittedRows
import Tabular.Proofs.ConditionalRows

/-!
# Rows in the order that was asked

The rows of a query stand in the order of the columns that were asked for, or else of the key (`ranks_sort`). Not all
cells can be ordered, as a large integer is the same as more than one real number near it; cells that belong in one
column can (`Cell.isLE_trans`). When the columns tell all rows of a query apart, as the key does, the rows have one
order only, so that nothing is left to the database (`Ranks.unique`, `tellsApart_of_key`).
-/

namespace Tabular

open Sql

namespace Cell

theorem ofStorage_cases {s : Storage} {a : Cell} (fits : OfStorage s a) :
    a = .null ∨ (s = .integer ∧ ∃ n, a = .integer n) ∨ (s = .text ∧ ∃ t, a = .text t) := by
  cases s <;> cases a <;> simp_all [OfStorage]

/-- The order of the cells that belong in one column is transitive. -/
theorem isLE_trans {s : Storage} {a b c : Cell} (one : OfStorage s a) (two : OfStorage s b) (three : OfStorage s c)
    (first : (order a b).isLE = true) (second : (order b c).isLE = true) : (order a c).isLE = true := by
  rcases ofStorage_cases one with rfl | ⟨rfl, m, rfl⟩ | ⟨rfl, m, rfl⟩
  · cases c <;> rfl
  · rcases ofStorage_cases two with rfl | ⟨_, n, rfl⟩ | ⟨other, _⟩
    · cases first
    · rcases ofStorage_cases three with rfl | ⟨_, k, rfl⟩ | ⟨other, _⟩
      · cases second
      · have lower : (compare m n).isLE = true := first
        have upper : (compare n k).isLE = true := second
        exact show (compare m k).isLE = true from Std.TransCmp.isLE_trans lower upper
      · cases other
    · cases other
  · rcases ofStorage_cases two with rfl | ⟨other, _⟩ | ⟨_, n, rfl⟩
    · cases first
    · cases other
    · rcases ofStorage_cases three with rfl | ⟨other, _⟩ | ⟨_, k, rfl⟩
      · cases second
      · cases other
      · have lower : (compare m n).isLE = true := first
        have upper : (compare n k).isLE = true := second
        exact show (compare m k).isLE = true from Std.TransCmp.isLE_trans lower upper

end Cell

namespace Entity

variable {e : Entity} {column : String} {i key : Nat} {c k : Column} {r s : Record}

/-- The cell of a row for a column; a name that no column has stands for nothing. -/
def cellOf (e : Entity) (column : String) (r : Record) : Cell :=
  ((e.columnIndex? column).bind (r.cells[·]?)).getD .null

/-- The columns that rows are put in order by: those asked for, or else the key. -/
def ranking (e : Entity) : List (String × Direction) → List (String × Direction)
  | [] => e.key?.toList.map fun k => (k.name, .ascending)
  | order => order

/-- The order of two rows by one column. -/
def compareBy (e : Entity) : String × Direction → Record → Record → Ordering
  | (column, .ascending), r, s => (e.cellOf column r).order (e.cellOf column s)
  | (column, .descending), r, s => (e.cellOf column s).order (e.cellOf column r)

/-- The order of two rows by several columns, the first of which that tells them apart counts. -/
def compareByAll (e : Entity) : List (String × Direction) → Record → Record → Ordering
  | [] => fun _ _ => .eq
  | o :: more => compareLex (e.compareBy o) (e.compareByAll more)

theorem cellOf_eq (index : e.columnIndex? column = some i) : e.cellOf column r = r.cells.getD i .null := by
  rw [cellOf, index, Option.bind_some, List.getD_eq_getElem?_getD]

theorem exists_ofStorage_cellOf (e : Entity) (column : String) :
    ∃ kept, ∀ r : Record, r.OfColumns e → Cell.OfStorage kept (e.cellOf column r) := by
  cases index : e.columnIndex? column with
  | none =>
    refine ⟨.integer, fun r _ => ?_⟩
    rw [cellOf, index]
    trivial
  | some i =>
    have inside : i < e.columns.length := (List.findIdx?_eq_some_iff_getElem.mp index).1
    refine ⟨e.columns[i].kind.storage, fun r typed => ?_⟩
    rw [cellOf_eq index]
    exact typed.getD (List.getElem?_eq_getElem inside)

theorem compareBy_swap (e : Entity) (o : String × Direction) (r s : Record) :
    (e.compareBy o r s).swap = e.compareBy o s r := by
  obtain ⟨column, ascending | descending⟩ := o
  · exact Cell.order_swap _ _
  · exact Cell.order_swap _ _

theorem compareByAll_swap (e : Entity) (order : List (String × Direction)) (r s : Record) :
    (e.compareByAll order r s).swap = e.compareByAll order s r := by
  induction order with
  | nil => rfl
  | cons o more ih => rw [compareByAll, compareLex, Ordering.swap_then, compareBy_swap, ih, compareLex]

/-- Rows whose cells belong to the columns can be put in order by any of them. -/
theorem transCmp_compareByAll (e : Entity) (order : List (String × Direction)) :
    Std.TransCmp fun r s : {r : Record // r.OfColumns e} => e.compareByAll order r s := by
  induction order with
  | nil => exact { eq_swap := rfl, isLE_trans := fun _ _ => rfl }
  | cons o more ih =>
    have first : Std.TransCmp fun r s : {r : Record // r.OfColumns e} => e.compareBy o r s := by
      obtain ⟨column, direction⟩ := o
      obtain ⟨kept, fits⟩ := exists_ofStorage_cellOf e column
      refine { eq_swap := (compareBy_swap e _ _ _).symm, isLE_trans := ?_ }
      rintro ⟨r, one⟩ ⟨s, two⟩ ⟨u, three⟩ before after
      cases direction with
      | ascending => exact Cell.isLE_trans (fits r one) (fits s two) (fits u three) before after
      | descending => exact Cell.isLE_trans (fits u three) (fits s two) (fits r one) after before
    exact inferInstanceAs (Std.TransCmp (compareLex (fun r s : {r : Record // r.OfColumns e} => e.compareBy o r s)
      fun r s => e.compareByAll more r s))

/-! ## Rows of a query -/

/-- The rows that meet the conditions of a query, in an order that it asks for. -/
structure Ranks (e : Entity) (db : Database) (q : Query) (rows : List Record) : Prop where
  perm : rows.Perm (e.matching db q.conditions)
  ordered : rows.Pairwise fun r s => e.compareByAll (e.ranking q.order) r s ≠ .gt

/-- The order of a query determines where each of its rows stands. -/
def TellsApart (e : Entity) (db : Database) (q : Query) : Prop :=
  ∀ r ∈ e.matching db q.conditions, ∀ s ∈ e.matching db q.conditions,
    e.compareByAll (e.ranking q.order) r s = .eq → r = s

/-- Rows that are told apart have one order. -/
theorem Ranks.unique {db : Database} {q : Query} {rows other : List Record} (ranks : e.Ranks db q rows)
    (apart : e.TellsApart db q) (ranks' : e.Ranks db q other) : other = rows := by
  refine List.Perm.eq_of_pairwise (fun r s first second le ge => ?_) ranks'.ordered ranks.ordered
    (ranks'.perm.trans ranks.perm.symm)
  refine apart r (ranks'.perm.mem_iff.mp first) s (ranks.perm.mem_iff.mp second) ?_
  rw [← compareByAll_swap] at ge
  cases order : e.compareByAll (e.ranking q.order) r s with
  | eq => rfl
  | lt => exact absurd (by rw [order]; rfl) ge
  | gt => exact absurd order le

/-- A sort key is written for a column that is asked for, with its direction. -/
structure Writes (e : Entity) (o : String × Direction) (k : SortKey) : Prop where
  known : (e.columnIndex? o.1).isSome = true
  column : k.column = o.1
  direction : k.direction = some .descending ↔ o.2 = .descending

theorem writes_of_sortKeys (valid : e.Valid) (keyAt : e.KeyAt key k) {order : List (String × Direction)}
    {keys : List SortKey} (accepted : e.sortKeys order = .ok keys) :
    List.Forall₂ e.Writes (e.ranking order) keys := by
  cases order with
  | nil =>
    obtain ⟨index, required, answer⟩ := Checks.bind_eq_ok.mp accepted
    obtain rfl : key = index := Option.some.inj (keyAt.index.symm.trans (requireKey_eq_ok.mp required))
    have written : keys = (e.columns[key]?.toList).map fun c => ⟨c.name, none⟩ := (Except.ok.inj answer).symm
    rw [ranking, keyAt.key?_eq, written, keyAt.column]
    exact .cons ⟨by simp [valid.columnIndex?_eq keyAt.column], rfl, by simp⟩ .nil
  | cons first more =>
    refine (Checks.mapM_eq_ok.mp accepted).imp fun o k checked => ?_
    obtain ⟨c, found, _⟩ := Checks.bind_eq_ok.mp checked
    obtain rfl := sortKey_eq_ok checked
    obtain ⟨i, column⟩ := List.getElem?_of_mem (List.mem_of_find?_eq_some (requireColumn_eq_ok.mp found))
    refine ⟨?_, rfl, by simp⟩
    rw [← name_of_requireColumn found, valid.columnIndex?_eq column]
    rfl

end Entity

namespace Table

variable {t : Table} {e : Entity} {key i : Nat} {k c : Column} {r s : Record} {order : List (String × Direction)}
  {keys : List SortKey}

theorem For.cell_eq {column : String} (table : t.For e key k) (index : e.columnIndex? column = some i) :
    t.cell column r = e.cellOf column r := by
  obtain ⟨inside, named, _⟩ := List.findIdx?_eq_some_iff_getElem.mp index
  have name : e.columns[i].name = column := by simpa using named
  rw [Entity.cellOf_eq index, ← name]
  exact table.cell_column (List.getElem?_eq_getElem inside)

theorem For.orderByAll_eq (table : t.For e key k) (written : List.Forall₂ e.Writes order keys) :
    t.orderByAll keys r s = e.compareByAll order r s := by
  induction written with
  | nil => rfl
  | @cons o k _ _ first _ ih =>
    obtain ⟨i, index⟩ := Option.isSome_iff_exists.mp first.known
    rw [orderByAll, Entity.compareByAll, compareLex, ih, orderBy, first.column, table.cell_eq index,
      table.cell_eq index]
    congr 1
    obtain ⟨column, ascending | descending⟩ := o
    · exact if_neg fun down => by cases first.direction.mp down
    · exact (if_pos (first.direction.mpr rfl)).trans (Cell.order_swap _ _)

/-- Sorted rows stand in the order of the columns. -/
theorem For.pairwise_sort (table : t.For e key k) (written : List.Forall₂ e.Writes order keys) {rows : List Record}
    (typed : ∀ r ∈ rows, r.OfColumns e) :
    (t.sort keys rows).Pairwise fun r s => e.compareByAll order r s ≠ .gt := by
  have transitive := Entity.transCmp_compareByAll e order
  -- The order is one of rows whose cells belong to the columns, so the rows are sorted as such.
  have sorted : t.sort keys rows = ((rows.attachWith _ typed).mergeSort fun r s =>
      e.compareByAll order r s != .gt).map Subtype.val := by
    rw [List.map_mergeSort (s := fun r s => e.compareByAll order r s != .gt) fun _ _ _ _ => rfl,
      List.attachWith_map_subtype_val, sort]
    simp only [table.orderByAll_eq written]
  rw [sorted, List.pairwise_map]
  refine (List.pairwise_mergeSort (fun r s u => ?_) (fun r s => ?_) _).imp fun before => by simpa using before
  · simp only [bne_iff_ne, Ordering.ne_gt_iff_isLE]
    exact transitive.isLE_trans
  · rw [← Entity.compareByAll_swap e order r s]
    cases e.compareByAll order r s <;> rfl

theorem For.ranks_sort {db : Database} {q : Query} (table : t.For e key k) (keeps : t.Keeps e)
    (found : db.table? e.tableName = some t) (written : List.Forall₂ e.Writes (e.ranking q.order) keys) :
    e.Ranks db q (t.sort keys (e.matching db q.conditions)) where
  perm := List.mergeSort_perm _ _
  ordered := table.pairwise_sort written fun r member => keeps.typed r ((Entity.mem_matching found).mp member).1

/-- Two rows of a table that the key does not tell apart are one row. -/
theorem For.eq_of_key_order (valid : e.Valid) (table : t.For e key k) (keeps : t.Keeps e) (first : r ∈ t.rows)
    (second : s ∈ t.rows) (level : (e.cellOf k.name r).order (e.cellOf k.name s) = .eq) : r = s := by
  have index := valid.columnIndex?_eq table.keyAt.column
  rw [Entity.cellOf_eq index, Entity.cellOf_eq index] at level
  have equal := (Cell.order_eq_iff ((keeps.typed r first).getD table.keyAt.column)
    ((keeps.typed s second).getD table.keyAt.column)).mp level
  by_contra different
  have apart : t.clashes r s = false := by
    simpa using fun clash => different (table.sound.eq_of_clashes first second clash)
  have shared := table.getElem?_cells second table.keyAt.column
  rw [← equal] at shared
  exact keeps.keyed r first key table.keyAt.index (table.eq_null_of_shared keeps first second apart
    table.keyAt.column (.inl table.keyAt.isKey) (table.getElem?_cells first table.keyAt.column) shared)

end Table

namespace Entity

theorem compareByAll_of_mem {e : Entity} {order : List (String × Direction)} {o : String × Direction} {r s : Record}
    (level : e.compareByAll order r s = .eq) (member : o ∈ order) : e.compareBy o r s = .eq := by
  induction order with
  | nil => cases member
  | cons first more ih =>
    obtain ⟨here, rest⟩ := Ordering.then_eq_eq.mp level
    rcases List.mem_cons.mp member with rfl | later
    · exact here
    · exact ih rest later

end Entity

/-- An order by the key, alone or among other columns, determines where each row stands. -/
theorem Table.For.tellsApart_of_key {t : Table} {e : Entity} {key : Nat} {k : Column} {db : Database} {q : Query}
    {d : Direction} (valid : e.Valid) (table : t.For e key k) (keeps : t.Keeps e)
    (found : db.table? e.tableName = some t) (ordered : (k.name, d) ∈ e.ranking q.order) : e.TellsApart db q := by
  intro r first s second level
  have one := ((Entity.mem_matching found).mp first).1
  have two := ((Entity.mem_matching found).mp second).1
  have here := Entity.compareByAll_of_mem level ordered
  cases d with
  | ascending => exact table.eq_of_key_order valid keeps one two here
  | descending => exact (table.eq_of_key_order valid keeps two one here).symm

theorem Store.Hosts.tellsApart_of_key {s : Schema} {e : Entity} {k : Column} {db : Database} {q : Query}
    {d : Direction} (hosts : Hosts s db) (consistent : s.Consistent) (known : e ∈ s.entities) (keyed : e.key? = some k)
    (ordered : (k.name, d) ∈ e.ranking q.order) : e.TellsApart db q := by
  obtain ⟨t, key, k', found, table, keeps⟩ := hosts.exists_table consistent known
  obtain rfl : k = k' := Option.some.inj (keyed.symm.trans table.keyAt.key?_eq)
  exact table.tellsApart_of_key (Entity.violations_eq_nil.mp (consistent.valid e known)) keeps found ordered

end Tabular
