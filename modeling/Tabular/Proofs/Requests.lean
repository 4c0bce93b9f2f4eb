import Tabular.Proofs.Rows
import Tabular.Proofs.StatementReading

/-!
# Requests that are answered

A request with conditions is answered by a statement that holds all of what was asked, so that it can be
told from the statement. Together with the reading of statements, two queries or two updates that are
answered with the same text and the same parameters are the same (`prepare_injective`).
-/

namespace Tabular

open Sql

namespace Entity

variable {e : Entity}

theorem requireColumn_eq_ok {column : String} {c : Column} :
    e.requireColumn column = .ok c ↔ e.column? column = some c := by
  rw [requireColumn]
  cases e.column? column with
  | none => simp
  | some d => simp

theorem name_of_column? {column : String} {c : Column} (found : e.column? column = some c) : c.name = column := by
  simpa using List.find?_some found

/-- The column that a name is taken for has this name. -/
theorem name_of_requireColumn {column : String} {c : Column} (found : e.requireColumn column = .ok c) :
    c.name = column :=
  name_of_column? (requireColumn_eq_ok.mp found)

theorem requireOperand_eq_ok {column : Column} {v : Value} :
    e.requireOperand column v = .ok () ↔ v.kind? = some column.kind := by
  rw [requireOperand]
  by_cases kind : v.kind? = some column.kind
  · simp [kind]
  · simp [kind]

theorem requireCondition_eq_self {c d : Condition} (accepted : e.requireCondition c = .ok d) : d = c := by
  obtain ⟨column, _, checked⟩ := Checks.bind_eq_ok.mp accepted
  obtain ⟨_, _, answer⟩ := Checks.bind_eq_ok.mp checked
  exact (Except.ok.inj answer).symm

/-- Conditions that fit an entity stand in the statement as they were asked. -/
theorem requireConditions_eq_self {conds asked : List Condition}
    (accepted : e.requireConditions conds = .ok asked) : asked = conds :=
  Checks.mapM_eq_self (fun _ _ checked => requireCondition_eq_self checked) accepted

end Entity

/-- The order that was asked for by these sort keys; the order of the keys is asked for by none. -/
def Sql.askedOrder (keys : List SortKey) : List (String × Direction) :=
  keys.filterMap fun k => k.direction.map fun d => (k.column, d)

def Sql.Selection.query (s : Selection) : Query :=
  ⟨s.conditions, askedOrder s.order, s.page⟩

namespace Entity

variable {e : Entity}

theorem sortKey_eq_ok {asked : String × Direction} {k : SortKey} (accepted : e.sortKey asked = .ok k) :
    k = ⟨asked.1, some asked.2⟩ := by
  obtain ⟨column, found, answer⟩ := Checks.bind_eq_ok.mp accepted
  have written : k = ⟨column.name, some asked.2⟩ := (Except.ok.inj answer).symm
  rw [written, name_of_requireColumn found]

/-- Only an order that was asked for is written with directions. -/
theorem askedOrder_sortKeys {order : List (String × Direction)} {keys : List SortKey}
    (accepted : e.sortKeys order = .ok keys) : askedOrder keys = order := by
  cases order with
  | nil =>
    -- The order of the keys is written without a direction.
    obtain ⟨index, _, answer⟩ := Checks.bind_eq_ok.mp accepted
    have implicit : keys = (e.columns[index]?.toList).map fun c => ⟨c.name, none⟩ := (Except.ok.inj answer).symm
    rw [implicit, askedOrder, List.filterMap_map]
    cases e.columns[index]? <;> rfl
  | cons first more =>
    have each : List.Forall₂ (fun asked k => (⟨asked.1, some asked.2⟩ : SortKey) = k) (first :: more) keys :=
      (Checks.mapM_eq_ok.mp accepted).imp fun _ _ checked => (sortKey_eq_ok checked).symm
    rw [← List.forall₂_map_left_iff, List.forall₂_eq_eq_eq] at each
    rw [← each, askedOrder, List.filterMap_map]
    exact List.filterMap_some

theorem selection_eq_ok {q : Query} {s : Selection} (accepted : e.selection q = .ok s) :
    ∃ keys, e.sortKeys q.order = .ok keys ∧
      s = ⟨e.tableName, e.columns.map (·.name), q.conditions, keys, q.page⟩ := by
  obtain ⟨conds, conditions, ordering⟩ := Checks.bind_eq_ok.mp accepted
  obtain ⟨keys, order, answer⟩ := Checks.bind_eq_ok.mp ordering
  have built : s = ⟨e.tableName, e.columns.map (·.name), conds, keys, q.page⟩ := (Except.ok.inj answer).symm
  exact ⟨keys, order, by rw [built, requireConditions_eq_self conditions]⟩

/-- A selection holds the whole query it answers. -/
theorem query_selection {q : Query} {s : Selection} (accepted : e.selection q = .ok s) : s.query = q := by
  obtain ⟨keys, order, rfl⟩ := selection_eq_ok accepted
  rw [Selection.query, askedOrder_sortKeys order]

theorem tally_eq_ok {conds : List Condition} {t : Tally} (accepted : e.tally conds = .ok t) :
    t = ⟨e.tableName, conds⟩ := by
  obtain ⟨asked, conditions, answer⟩ := Checks.bind_eq_ok.mp accepted
  have built : t = ⟨e.tableName, asked⟩ := (Except.ok.inj answer).symm
  rw [built, requireConditions_eq_self conditions]

theorem removalWhere_eq_ok {conds : List Condition} {r : Removal} (accepted : e.removalWhere conds = .ok r) :
    r = ⟨e.tableName, conds⟩ := by
  obtain ⟨asked, conditions, answer⟩ := Checks.bind_eq_ok.mp accepted
  have built : r = ⟨e.tableName, asked⟩ := (Except.ok.inj answer).symm
  rw [built, requireConditions_eq_self conditions]

theorem requireAssignment_eq_self {key : Nat} {a b : String × Value}
    (accepted : e.requireAssignment key a = .ok b) : b = a := by
  obtain ⟨name, v⟩ := a
  obtain ⟨column, found, checked⟩ := Checks.bind_eq_ok.mp accepted
  obtain ⟨_, assigned⟩ := Checks.refuse_eq_ok.mp checked
  obtain ⟨_, answer⟩ := Checks.unless_eq_ok.mp assigned
  have kept : b = (column.name, v) := (Except.ok.inj answer).symm
  rw [kept, name_of_requireColumn found]

/-- An assignment to a declared column beside the key, of what the column may hold. -/
def Assignable (e : Entity) (a : String × Value) : Prop :=
  ∃ c, e.column? a.1 = some c ∧ e.key?.map (·.name) ≠ some c.name ∧
    (a.2 = .null ∧ c.nullable = true ∨ a.2.kind? = some c.kind)

theorem requireAssignment_eq_ok {key : Nat} (keyed : e.keyIndex? = some key) {a b : String × Value} :
    e.requireAssignment key a = .ok b ↔ e.Assignable a ∧ b = a := by
  obtain ⟨name, v⟩ := a
  have column : (e.columns[key]?).map (·.name) = e.key?.map (·.name) := by rw [getElem?_of_keyIndex? keyed]
  rw [requireAssignment, Checks.bind_eq_ok]
  constructor
  · rintro ⟨c, found, checked⟩
    obtain ⟨other, assigned⟩ := Checks.refuse_eq_ok.mp checked
    obtain ⟨suits, answer⟩ := Checks.unless_eq_ok.mp assigned
    have known := requireColumn_eq_ok.mp found
    obtain rfl : b = (c.name, v) := (Except.ok.inj answer).symm
    refine ⟨⟨c, known, column ▸ other, ?_⟩, by rw [name_of_requireColumn found]⟩
    rcases suits with absent | kind
    · obtain ⟨null, nullable⟩ := Bool.and_eq_true_iff.mp absent
      exact .inl ⟨Value.isNull_iff.mp null, nullable⟩
    · exact .inr (requireOperand_eq_ok.mp kind)
  · rintro ⟨⟨c, known, other, suits⟩, rfl⟩
    have found : e.requireColumn name = .ok c := requireColumn_eq_ok.mpr known
    refine ⟨c, found, Checks.refuse_eq_ok.mpr ⟨column ▸ other, Checks.unless_eq_ok.mpr ⟨?_, ?_⟩⟩⟩
    · rcases suits with ⟨absent, nullable⟩ | kind
      · exact .inl (Bool.and_eq_true_iff.mpr ⟨Value.isNull_iff.mpr absent, nullable⟩)
      · exact .inr (requireOperand_eq_ok.mpr kind)
    · show Except.ok (c.name, v) = _
      rw [name_of_requireColumn found]

/-- An update holds all assignments and conditions it was asked with. -/
theorem revisionWhere_eq_ok {values : List (String × Value)} {conds : List Condition} {r : Revision}
    (accepted : e.revisionWhere values conds = .ok r) : r = ⟨e.tableName, values, conds⟩ := by
  rw [revisionWhere] at accepted
  obtain ⟨_, answered⟩ := Checks.refuse_eq_ok.mp accepted
  obtain ⟨key, _, keyed⟩ := Checks.bind_eq_ok.mp answered
  obtain ⟨sets, assignments, assigned⟩ := Checks.bind_eq_ok.mp keyed
  obtain ⟨asked, conditions, answer⟩ := Checks.bind_eq_ok.mp assigned
  have built : r = ⟨e.tableName, sets, asked⟩ := (Except.ok.inj answer).symm
  have same : sets = values := Checks.mapM_eq_self (fun _ _ checked => requireAssignment_eq_self checked) assignments
  rw [built, same, requireConditions_eq_self conditions]

theorem assignable_of_revisionWhere {values : List (String × Value)} {conds : List Condition} {q : Revision}
    (accepted : e.revisionWhere values conds = .ok q) : ∀ a ∈ values, e.Assignable a := by
  rw [revisionWhere] at accepted
  obtain ⟨_, answered⟩ := Checks.refuse_eq_ok.mp accepted
  obtain ⟨key, index, checked⟩ := Checks.bind_eq_ok.mp answered
  obtain ⟨_, assignments, _⟩ := Checks.bind_eq_ok.mp checked
  intro a member
  obtain ⟨_, _, suited⟩ := Checks.exists_of_mem_left (Checks.mapM_eq_ok.mp assignments) member
  exact ((requireAssignment_eq_ok (requireKey_eq_ok.mp index)).mp suited).1

/-- A request that is prepared is answered by the statement that its text and its parameters are read as. -/
theorem statement_of_prepare {r : Request} {p : Prepared} (prepared : e.prepare r = .ok p) :
    ∃ s, e.statement r = .ok s ∧ p.read = some s := by
  obtain ⟨s, answer, rfl⟩ := Checks.map_eq_ok.mp prepared
  exact ⟨s, answer, read_prepare s⟩

theorem query_of_prepare {q : Query} {p : Prepared} (prepared : e.prepare (.select q) = .ok p) :
    ∃ s : Selection, p.read = some (.select s) ∧ s.query = q := by
  obtain ⟨_, answer, read⟩ := statement_of_prepare prepared
  obtain ⟨s, accepted, rfl⟩ := Checks.map_eq_ok.mp answer
  exact ⟨s, read, query_selection accepted⟩

theorem revision_of_prepare {values : List (String × Value)} {conds : List Condition} {p : Prepared}
    (prepared : e.prepare (.reviseWhere values conds) = .ok p) :
    p.read = some (.update ⟨e.tableName, values, conds⟩) := by
  obtain ⟨_, answer, read⟩ := statement_of_prepare prepared
  obtain ⟨r, accepted, rfl⟩ := Checks.map_eq_ok.mp answer
  rw [read, revisionWhere_eq_ok accepted]

/-- The text and the parameters lose nothing of a query or of an update: conditions, assignments, order
and page are the same when the texts and the parameters are. -/
theorem prepare_injective (e : Entity) :
    (∀ q₁ q₂ p₁ p₂, e.prepare (.select q₁) = .ok p₁ → e.prepare (.select q₂) = .ok p₂ →
      p₁.sql = p₂.sql → p₁.params = p₂.params → q₁ = q₂) ∧
    (∀ values₁ conds₁ values₂ conds₂ p₁ p₂, e.prepare (.reviseWhere values₁ conds₁) = .ok p₁ →
      e.prepare (.reviseWhere values₂ conds₂) = .ok p₂ → p₁.sql = p₂.sql → p₁.params = p₂.params →
      values₁ = values₂ ∧ conds₁ = conds₂) := by
  constructor
  · rintro q₁ q₂ ⟨sql, params⟩ ⟨_, _⟩ first second rfl rfl
    obtain ⟨s₁, read₁, rfl⟩ := query_of_prepare first
    obtain ⟨s₂, read₂, rfl⟩ := query_of_prepare second
    have same : s₁ = s₂ := Statement.select.inj (Option.some.inj (read₁.symm.trans read₂))
    rw [same]
  · rintro values₁ conds₁ values₂ conds₂ ⟨sql, params⟩ ⟨_, _⟩ first second rfl rfl
    have same := (revision_of_prepare first).symm.trans (revision_of_prepare second)
    simpa using same

/-- The first item of a query is asked for by a query with a limit, and by no other. -/
theorem prepare_injective_first :
    let asked : Query := ⟨[⟨"content", .notAmong []⟩, ⟨"id", .between (.integer 1) (.integer 5)⟩],
      [("content", .descending)], ⟨some 9, some 2⟩⟩
    let limited : Query := ⟨[⟨"content", .notAmong []⟩, ⟨"id", .between (.integer 1) (.integer 5)⟩],
      [("content", .descending)], ⟨some 1, some 2⟩⟩
    let p : Prepared := ⟨"SELECT \"id\", \"content\", \"created_time\" FROM \"Item\" WHERE \"content\" NOT IN () " ++
      "AND \"id\" BETWEEN ?1 AND ?2 ORDER BY \"content\" DESC LIMIT ?3 OFFSET ?4",
      [.integer 1, .integer 5, .integer 1, .integer 2]⟩
    let values := [("content", Value.text "a")]
    let conds : List Condition := [⟨"id", .compare .notEqual (.integer 1)⟩, ⟨"id", .compare .notEqual (.integer 2)⟩]
    let r : Prepared := ⟨"UPDATE \"Item\" SET \"content\" = ?1 WHERE \"id\" <> ?2 AND \"id\" <> ?3",
      [.text "a", .integer 1, .integer 2]⟩
    Item.entity.prepare (.select asked.first) = .ok p ∧ Item.entity.prepare (.select limited) = .ok p ∧
      asked.first = limited ∧ Item.entity.prepare (.reviseWhere values conds) = .ok r ∧
      ["content"].zip [Value.text "a"] = values ∧
      ([1, 2].map fun n => ⟨"id", .compare .notEqual (.integer n)⟩) = conds := by
  intro asked limited p values conds r
  have first : Item.entity.prepare (.select asked.first) = .ok p := by decide +kernel
  have second : Item.entity.prepare (.select limited) = .ok p := by decide +kernel
  have update : Item.entity.prepare (.reviseWhere values conds) = .ok r := by decide +kernel
  obtain ⟨queries, updates⟩ := prepare_injective Item.entity
  exact ⟨first, second, queries _ _ _ _ first second rfl rfl, update, updates _ _ _ _ _ _ update update rfl rfl⟩

end Entity

end Tabular
