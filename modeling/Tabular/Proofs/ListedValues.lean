import Tabular.Proofs.OrderedRows

/-!
# Rows with a listed value

A row whose column has a value either has one of those in a list or has none of them, and it meets exactly one of the
two conditions. A row whose column has no value meets neither, unless the list is empty: then all rows have none of
its values (`listed_values`). So the rows that meet the one condition and those that meet the other are not all rows
when a column may have no value (`listed_values_absent`). They are counted when the list is no longer than the
parameters of a statement.
-/

namespace Tabular

open Sql

/-- A cell holds nothing, or one of some values, or another value. -/
theorem Cell.listed_cases {o : Option Cell} {c : Column} {vs : List Value} (kinds : ∀ v ∈ vs, v.kind? = some c.kind) :
    (o = some .null ∧ (¬ ∃ v ∈ vs, o = some v.cell) ∧ ((∀ v ∈ vs, o ≠ some .null ∧ o ≠ some v.cell) ↔ vs = [])) ∨
    (o ≠ some .null ∧ (∃ v ∈ vs, o = some v.cell) ∧ ¬ ∀ v ∈ vs, o ≠ some .null ∧ o ≠ some v.cell) ∨
    (o ≠ some .null ∧ (¬ ∃ v ∈ vs, o = some v.cell) ∧ ∀ v ∈ vs, o ≠ some .null ∧ o ≠ some v.cell) := by
  by_cases absent : o = some .null
  · refine .inl ⟨absent, ?_, fun all => ?_, ?_⟩
    · rintro ⟨v, known, same⟩
      exact Value.cell_ne_null (kinds v known) (Option.some.inj (same.symm.trans absent))
    · by_contra given
      obtain ⟨v, known⟩ := List.exists_mem_of_ne_nil vs given
      exact (all v known).1 absent
    · rintro rfl v known
      cases known
  · by_cases found : ∃ v ∈ vs, o = some v.cell
    · refine .inr (.inl ⟨absent, found, fun all => ?_⟩)
      obtain ⟨v, known, same⟩ := found
      exact (all v known).2 same
    · exact .inr (.inr ⟨absent, found, fun v known => ⟨absent, fun same => found ⟨v, known, same⟩⟩⟩)

/-- When each member of a list passes one of three tests, those that pass make up the list. -/
theorem countP_add_countP_add_countP {α : Type} {p q z : α → Bool} {xs : List α}
    (one : ∀ x ∈ xs, (if p x then 1 else 0) + (if q x then 1 else 0) + (if z x then 1 else 0) = 1) :
    xs.countP p + xs.countP q + xs.countP z = xs.length := by
  induction xs with
  | nil => rfl
  | cons x rest ih =>
    obtain ⟨here, later⟩ := List.forall_mem_cons.mp one
    have others := ih later
    simp only [List.countP_cons, List.length_cons]
    omega

namespace Table

variable {t : Table} {e : Entity} {key i : Nat} {k c : Column} {r : Record} {v : Value} {vs : List Value} {a b : Cell}
  {s : Storage}

theorem holdsOf_equal (left : Cell.OfStorage s a) (right : Cell.OfStorage s b) (present : b ≠ .null) :
    holdsOf .equal a b = true ↔ a = b := by
  rw [holdsOf, Bool.and_eq_true, Bool.and_eq_true, bne_iff_ne, bne_iff_ne, meets, beq_iff_eq,
    Cell.order_eq_iff left right]
  constructor
  · rintro ⟨_, same⟩
    exact same
  · rintro rfl
    exact ⟨⟨present, present⟩, rfl⟩

theorem holdsOf_notEqual (left : Cell.OfStorage s a) (right : Cell.OfStorage s b) (present : b ≠ .null) :
    holdsOf .notEqual a b = true ↔ a ≠ .null ∧ a ≠ b := by
  rw [holdsOf, Bool.and_eq_true, Bool.and_eq_true, bne_iff_ne, bne_iff_ne, meets, bne_iff_ne, ne_eq (Cell.order a b),
    Cell.order_eq_iff left right]
  constructor
  · rintro ⟨⟨given, _⟩, different⟩
    exact ⟨given, different⟩
  · rintro ⟨given, different⟩
    exact ⟨⟨given, present⟩, different⟩

theorem For.passes_isNull (table : t.For e key k) (column : e.columns[i]? = some c) (member : r ∈ t.rows) :
    t.passes ⟨c.name, .isNull⟩ r = true ↔ r.cells[i]? = some .null := by
  rw [table.getElem?_cells member column, Option.some_inj]
  simp only [passes, table.cell_column column, beq_iff_eq]

/-- A row has a value of a list when its cell is one of theirs. -/
theorem For.passes_among (table : t.For e key k) (keeps : t.Keeps e) (column : e.columns[i]? = some c)
    (kinds : ∀ v ∈ vs, v.kind? = some c.kind) (member : r ∈ t.rows) :
    t.passes ⟨c.name, .among vs⟩ r = true ↔ ∃ v ∈ vs, r.cells[i]? = some v.cell := by
  rw [table.getElem?_cells member column]
  simp only [passes, table.cell_column column, List.any_eq_true, Option.some_inj]
  refine exists_congr fun v => and_congr_right fun listed => ?_
  have kind := kinds v listed
  rw [table.operand_column column kind]
  exact holdsOf_equal ((keeps.typed r member).getD column) (Value.ofStorage_cell kind) (Value.cell_ne_null kind)

/-- A row has no value of a list when its cell is none of theirs; an absent value is not compared. -/
theorem For.passes_notAmong (table : t.For e key k) (keeps : t.Keeps e) (column : e.columns[i]? = some c)
    (kinds : ∀ v ∈ vs, v.kind? = some c.kind) (member : r ∈ t.rows) :
    t.passes ⟨c.name, .notAmong vs⟩ r = true ↔
      ∀ v ∈ vs, r.cells[i]? ≠ some .null ∧ r.cells[i]? ≠ some v.cell := by
  rw [table.getElem?_cells member column]
  simp only [passes, table.cell_column column, List.all_eq_true, ne_eq, Option.some_inj]
  refine forall_congr' fun v => forall_congr' fun listed => ?_
  have kind := kinds v listed
  rw [table.operand_column column kind]
  exact holdsOf_notEqual ((keeps.typed r member).getD column) (Value.ofStorage_cell kind) (Value.cell_ne_null kind)

theorem For.xor_passes (table : t.For e key k) (keeps : t.Keeps e) (column : e.columns[i]? = some c)
    (kinds : ∀ v ∈ vs, v.kind? = some c.kind) (member : r ∈ t.rows) :
    Xor (t.passes ⟨c.name, .among vs⟩ r = true) (t.passes ⟨c.name, .notAmong vs⟩ r = true) ↔
      vs = [] ∨ r.cells[i]? ≠ some .null := by
  rw [table.passes_among keeps column kinds member, table.passes_notAmong keeps column kinds member]
  rcases Cell.listed_cases (o := r.cells[i]?) kinds with
    ⟨absent, other, none⟩ | ⟨present, one, some⟩ | ⟨present, other, all⟩
  · constructor
    · rintro (⟨one, _⟩ | ⟨all, _⟩)
      · exact absurd one other
      · exact .inl (none.mp all)
    · rintro (empty | present)
      · exact .inr ⟨none.mpr empty, other⟩
      · exact absurd absent present
  · exact iff_of_true (.inl ⟨one, some⟩) (.inr present)
  · exact iff_of_true (.inr ⟨all, other⟩) (.inr present)

theorem For.passes_one (table : t.For e key k) (keeps : t.Keeps e) (column : e.columns[i]? = some c)
    (kinds : ∀ v ∈ vs, v.kind? = some c.kind) (listed : vs ≠ []) (member : r ∈ t.rows) :
    (if t.passes ⟨c.name, .among vs⟩ r then 1 else 0) + (if t.passes ⟨c.name, .notAmong vs⟩ r then 1 else 0) +
      (if t.passes ⟨c.name, .isNull⟩ r then 1 else 0) = 1 := by
  simp only [table.passes_among keeps column kinds member, table.passes_notAmong keeps column kinds member,
    table.passes_isNull column member]
  rcases Cell.listed_cases (o := r.cells[i]?) kinds with
    ⟨absent, other, none⟩ | ⟨present, one, some⟩ | ⟨present, other, all⟩
  · rw [if_neg other, if_neg (mt none.mp listed), if_pos absent]
  · rw [if_pos one, if_neg some, if_neg present]
  · rw [if_neg other, if_pos all, if_neg present]

/-- No row has one of no values. -/
theorem countP_passes_nil (t : Table) (column : String) :
    t.rows.countP (t.passes ⟨column, .among []⟩) = 0 ∧
      t.rows.countP (t.passes ⟨column, .notAmong []⟩) = t.rows.length :=
  ⟨List.countP_eq_zero.mpr fun _ _ => Bool.false_ne_true, List.countP_eq_length.mpr fun _ _ => rfl⟩

/-- The rows that have one of some values, those that have none of them and those that have no value are all rows; when
there are no values to compare with, all rows have none of them. -/
theorem For.countP_passes (table : t.For e key k) (keeps : t.Keeps e) (column : e.columns[i]? = some c)
    (kinds : ∀ v ∈ vs, v.kind? = some c.kind) :
    t.rows.countP (t.passes ⟨c.name, .among vs⟩) + t.rows.countP (t.passes ⟨c.name, .notAmong vs⟩) +
      (if vs = [] then 0 else t.rows.countP (t.passes ⟨c.name, .isNull⟩)) = t.rows.length := by
  by_cases empty : vs = []
  · subst empty
    obtain ⟨one, none⟩ := t.countP_passes_nil c.name
    rw [one, none, if_pos rfl, Nat.zero_add, Nat.add_zero]
  · rw [if_neg empty]
    exact countP_add_countP_add_countP fun r member => table.passes_one keeps column kinds empty member

theorem For.countP_isNull (table : t.For e key k) (keeps : t.Keeps e) (column : e.columns[i]? = some c)
    (required : c.nullable = false) : t.rows.countP (t.passes ⟨c.name, .isNull⟩) = 0 := by
  refine List.countP_eq_zero.mpr fun r member met => ?_
  obtain ⟨nullable, _⟩ := table.required keeps member column ((table.passes_isNull column member).mp met)
  rw [required] at nullable
  cases nullable

end Table

namespace Entity

variable {e : Entity} {db : Database} {t : Table} {r : Record} {c : Condition}

theorem matching_all (found : db.table? e.tableName = some t) : e.matching db [] = t.rows := by
  rw [matching_eq found]
  exact List.filter_eq_self.mpr fun _ _ => rfl

theorem mem_matching_one (found : db.table? e.tableName = some t) :
    r ∈ e.matching db [c] ↔ r ∈ t.rows ∧ t.passes c r = true := by
  rw [mem_matching found, Table.satisfies, List.all_cons, List.all_nil, Bool.and_true]

theorem length_matching_one (found : db.table? e.tableName = some t) :
    (e.matching db [c]).length = t.rows.countP (t.passes c) := by
  have tests : t.satisfies [c] = t.passes c := by
    funext r
    rw [Table.satisfies, List.all_cons, List.all_nil, Bool.and_true]
  rw [matching_eq found, tests, List.countP_eq_length_filter]

theorem Valid.suits (valid : e.Valid) {i : Nat} {c : Column} {test : Test} (column : e.columns[i]? = some c)
    (kinds : ∀ v ∈ test.operands, v.kind? = some c.kind) : e.Suits ⟨c.name, test⟩ :=
  ⟨c, valid.column?_eq (List.mem_of_getElem? column), kinds⟩

end Entity

namespace Store

open Session

variable {s : Schema} {e : Entity} {db : Database} {α : Type} {μ : Mapping α} {i : Nat} {c : Column} {vs : List Value}

theorem outcome_count (described : s.describe μ.name = .ok e) {t : Table} (found : db.table? e.tableName = some t) :
    (count s μ).outcome db = (.ok t.rows.length, db) := by
  have answer : db.count ⟨e.tableName, []⟩ = .ok t.rows.length :=
    (Entity.count_matching found).mpr ⟨Database.withinLimits_countAll, by rw [Entity.matching_all found]⟩
  rw [count, outcome_bind, entity, outcome_mapped, described]
  show outcome _ db = _
  rw [outcome_ask, Entity.tallyAll, answer]
  rfl

theorem outcome_countWhere (described : s.describe μ.name = .ok e) {conds : List Condition} {q : Tally}
    (accepted : e.tally conds = .ok q) :
    (countWhere s μ conds).outcome db = ((db.count q).mapError .database, db) := by
  rw [countWhere, outcome_bind, entity, outcome_mapped, described]
  show outcome _ db = _
  rw [outcome_bind, outcome_mapped, accepted]
  exact outcome_ask (·.count q)

/-- The rows that meet one condition are counted, unless it has more operands than a statement has parameters. -/
theorem Hosts.outcome_countWhere_one (hosts : Hosts s db) (described : s.describe μ.name = .ok e) {c : Condition}
    (suits : e.Suits c) : (countWhere s μ [c]).outcome db =
      (if c.test.operands.length ≤ Database.maxParameters then .ok (e.matching db [c]).length
        else .error (.database .tooManyParameters), db) := by
  obtain ⟨t, found, _⟩ := hosts.tables e (mem_of_describe described)
  have suited : ∀ asked ∈ [c], e.Suits asked := List.forall_mem_singleton.mpr suits
  have accepted : e.tally [c] = .ok ⟨e.tableName, [c]⟩ :=
    Checks.bind_eq_ok.mpr ⟨[c], Entity.requireConditions_eq_ok.mpr ⟨suited, rfl⟩, rfl⟩
  rw [outcome_countWhere described accepted]
  split
  · have within : (Statement.count ⟨e.tableName, [c]⟩).WithinLimits :=
      Database.withinLimits_count.mpr ⟨by rwa [Database.length_operands_singleton], Database.depth_singleton c⟩
    rw [(Entity.count_matching found).mpr ⟨within, rfl⟩]
    rfl
  · have many : Database.maxParameters < (Statement.count ⟨e.tableName, [c]⟩).params.length := by
      rw [Database.params_count, Database.length_operands_singleton]
      exact Nat.lt_of_not_le ‹_›
    rw [Database.count_of_parameters many]
    rfl

/-- A row has a value of a list, or none of its values, and not both, unless the row has no value and the list is not
empty: then it has neither. So the rows that have one of the values, those that have none of them and those that have
no value at all are together all rows, and without the last when the column is always given or the list is empty. Each
of the three is counted; a list of more values than a statement has parameters cannot be asked for. -/
theorem listed_values {cat : Catalog} {m : Migration} {db₀ : Database}
    (made : Migration.ofCatalog cat = .ok m) (created : m.Creates db₀) (reached : Reaches m.schema db₀ db)
    (described : m.schema.describe μ.name = .ok e) (column : e.columns[i]? = some c)
    (kinds : ∀ v ∈ vs, v.kind? = some c.kind) :
    (∀ r ∈ e.rowsIn db,
      (r ∈ e.matching db [⟨c.name, .among vs⟩] ↔ ∃ v ∈ vs, r.cells[i]? = some v.cell) ∧
      (r ∈ e.matching db [⟨c.name, .notAmong vs⟩] ↔
        ∀ v ∈ vs, r.cells[i]? ≠ some .null ∧ r.cells[i]? ≠ some v.cell) ∧
      (Xor (r ∈ e.matching db [⟨c.name, .among vs⟩]) (r ∈ e.matching db [⟨c.name, .notAmong vs⟩]) ↔
        vs = [] ∨ r.cells[i]? ≠ some .null)) ∧
    ∃ one none absent all, one = (e.matching db [⟨c.name, .among vs⟩]).length ∧
      none = (e.matching db [⟨c.name, .notAmong vs⟩]).length ∧
      (countWhere m.schema μ [⟨c.name, .among vs⟩]).outcome db =
        (if vs.length ≤ Database.maxParameters then .ok one else .error (.database .tooManyParameters), db) ∧
      (countWhere m.schema μ [⟨c.name, .notAmong vs⟩]).outcome db =
        (if vs.length ≤ Database.maxParameters then .ok none else .error (.database .tooManyParameters), db) ∧
      (countWhere m.schema μ [⟨c.name, .isNull⟩]).outcome db = (.ok absent, db) ∧
      (count m.schema μ).outcome db = (.ok all, db) ∧
      one + none + (if vs = [] then 0 else absent) = all ∧ (vs = [] → one = 0 ∧ none = all) ∧
      (c.nullable = false → absent = 0) := by
  have consistent := Migration.consistent_of_ofCatalog made
  have hosts := reached.hosts consistent created.hosts
  have known := mem_of_describe described
  have valid := Entity.violations_eq_nil.mp (consistent.valid e known)
  obtain ⟨t, key, k, found, table, keeps⟩ := hosts.exists_table consistent known
  have counts := table.countP_passes keeps column kinds
  simp only [← Entity.length_matching_one found] at counts
  refine ⟨fun r listed => ?_, _, _, _, _, rfl, rfl, hosts.outcome_countWhere_one described (valid.suits column kinds),
    hosts.outcome_countWhere_one described (valid.suits column kinds),
    hosts.outcome_countWhere_one described (valid.suits column (by simp [Test.operands])),
    outcome_count described found, counts, ?_, ?_⟩
  · have member : r ∈ t.rows := by rwa [Entity.rowsIn_eq found] at listed
    simp only [Entity.mem_matching_one found, member, true_and]
    exact ⟨table.passes_among keeps column kinds member, table.passes_notAmong keeps column kinds member,
      table.xor_passes keeps column kinds member⟩
  · rintro rfl
    rw [Entity.length_matching_one found, Entity.length_matching_one found]
    exact t.countP_passes_nil c.name
  · intro required
    rw [Entity.length_matching_one found]
    exact table.countP_isNull keeps column required

/-- Of three tags, one has the level, one has another level, and one has none. -/
theorem listed_values_levels :
    let level : Column := { name := "level", kind := .integer, nullable := true }
    let tag : Entity := { name := "Tag", columns := [{ name := "id", kind := .integer, isKey := true }, level] }
    let cat : Catalog := ⟨"1", [tag]⟩
    let m : Migration := ⟨⟨[tag], [("Tag", 0)]⟩, cat.fingerprint⟩
    let tags : Mapping (List (String × Value)) := ⟨"Tag", fun a c => a.lookup c, fun _ => .ok []⟩
    let db₀ := m.up.after {}
    let db₁ := Operation.after m.schema db₀ (.insert tags [("id", .integer 1), ("level", .integer 5)])
    let db₂ := Operation.after m.schema db₁ (.insert tags [("id", .integer 2), ("level", .integer 7)])
    let db := Operation.after m.schema db₂ (.insert tags [("id", .integer 3), ("level", .null)])
    let vs : List Value := [.integer 5, .integer 6]
    Migration.ofCatalog cat = .ok m ∧ m.Creates db₀ ∧ Reaches m.schema db₀ db ∧ m.schema.describe "Tag" = .ok tag ∧
      tag.columns[1]? = some level ∧ (∀ v ∈ vs, v.kind? = some level.kind) ∧
      (countWhere m.schema tags [⟨"level", .among vs⟩]).outcome db = (.ok 1, db) ∧
      (countWhere m.schema tags [⟨"level", .notAmong vs⟩]).outcome db = (.ok 1, db) ∧
      (countWhere m.schema tags [⟨"level", .isNull⟩]).outcome db = (.ok 1, db) ∧
      (count m.schema tags).outcome db = (.ok 3, db) := by
  intro level tag cat m tags db₀ db₁ db₂ db vs
  have made : Migration.ofCatalog cat = .ok m := Migration.ofCatalog_eq_ok.mpr ⟨by decide +kernel, rfl⟩
  have done : (m.up.outcome {}).1 = .ok () := by decide +kernel
  have created : m.Creates db₀ := ⟨Session.outcome_eq done, by decide +kernel⟩
  have reached : Reaches m.schema db₀ db := .next _ (.next _ (.next _ .refl))
  have described : m.schema.describe tags.name = .ok tag := by decide +kernel
  have column : tag.columns[1]? = some level := rfl
  have kinds : ∀ v ∈ vs, v.kind? = some level.kind := by decide
  obtain ⟨_, one, none, absent, all, _, _, first, second, third, whole, _⟩ :=
    listed_values made created reached described column kinds
  have few : vs.length ≤ Database.maxParameters := by decide
  rw [if_pos few] at first second
  obtain rfl : one = 1 := Except.ok.inj ((congrArg Prod.fst first).symm.trans (by decide +kernel))
  obtain rfl : none = 1 := Except.ok.inj ((congrArg Prod.fst second).symm.trans (by decide +kernel))
  obtain rfl : absent = 1 := Except.ok.inj ((congrArg Prod.fst third).symm.trans (by decide +kernel))
  obtain rfl : all = 3 := Except.ok.inj ((congrArg Prod.fst whole).symm.trans (by decide +kernel))
  exact ⟨made, created, reached, described, column, kinds, first, second, third, whole⟩

/-- A tag without a color is neither among the red ones nor among the others. -/
theorem listed_values_absent :
    ¬ ∀ (α : Type) (cat : Catalog) (m : Migration) (db₀ db : Database) (μ : Mapping α) (e : Entity) (i : Nat)
      (c : Column) (vs : List Value) (one none all : Nat), Migration.ofCatalog cat = .ok m → m.Creates db₀ →
      Reaches m.schema db₀ db → m.schema.describe μ.name = .ok e → e.columns[i]? = some c →
      (∀ v ∈ vs, v.kind? = some c.kind) →
      (countWhere m.schema μ [⟨c.name, .among vs⟩]).outcome db = (.ok one, db) →
      (countWhere m.schema μ [⟨c.name, .notAmong vs⟩]).outcome db = (.ok none, db) →
      (count m.schema μ).outcome db = (.ok all, db) → one + none = all := by
  intro claim
  let color : Column := { name := "color", kind := .text, nullable := true }
  let tag : Entity := { name := "Tag", columns := [{ name := "id", kind := .integer, isKey := true }, color] }
  let cat : Catalog := ⟨"1", [tag]⟩
  let m : Migration := ⟨⟨[tag], [("Tag", 0)]⟩, cat.fingerprint⟩
  let tags : Mapping (List (String × Value)) := ⟨"Tag", fun a c => a.lookup c, fun _ => .ok []⟩
  let db₀ := m.up.after {}
  let db := Operation.after m.schema db₀ (.insert tags [("id", .integer 1), ("color", .null)])
  let vs : List Value := [.text "red"]
  have made : Migration.ofCatalog cat = .ok m := Migration.ofCatalog_eq_ok.mpr ⟨by decide +kernel, rfl⟩
  have done : (m.up.outcome {}).1 = .ok () := by decide +kernel
  have created : m.Creates db₀ := ⟨Session.outcome_eq done, by decide +kernel⟩
  have described : m.schema.describe tags.name = .ok tag := by decide +kernel
  have one : (countWhere m.schema tags [⟨"color", .among vs⟩]).outcome db = (.ok 0, db) :=
    Prod.ext (by decide +kernel) (reading_countWhere _ db)
  have none : (countWhere m.schema tags [⟨"color", .notAmong vs⟩]).outcome db = (.ok 0, db) :=
    Prod.ext (by decide +kernel) (reading_countWhere _ db)
  have all : (count m.schema tags).outcome db = (.ok 1, db) := Prod.ext (by decide +kernel) (reading_count db)
  have sum : 0 + 0 = 1 := claim _ cat m db₀ db tags tag 1 color vs 0 0 1 made created (.next _ .refl) described rfl
    (by decide) one none all
  cases sum

end Store

end Tabular
