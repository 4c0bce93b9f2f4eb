import Tabular.Proofs.PlaceholderNumbers
import Tabular.Proofs.Requests

/-!
# Statements with conditions

Rows that meet conditions are counted, selected, changed and deleted by four statements. Whatever else is asked,
the same conditions are accepted in all four, and the same fault is the answer to others: that of the first
condition that does not suit the entity. Accepted conditions are the same clause in all four statements, with
larger numbers where other values are bound before (`conditional_prepare`).
-/

namespace Tabular

open Sql

namespace Entity

variable {e : Entity} {c d : Condition} {conds : List Condition} {f : Fault}

/-- A condition on a declared column, with values of the kind of the column. -/
def Suits (e : Entity) (c : Condition) : Prop :=
  ∃ column, e.column? c.column = some column ∧ ∀ v ∈ c.test.operands, v.kind? = some column.kind

/-- What is wrong with a condition: there is no such column, or else the first value of another kind. -/
inductive Offence (e : Entity) (c : Condition) : Fault → Prop
  | unknown (missing : e.column? c.column = none) : Offence e c (.unknownColumn e.name c.column)
  | kind {column : Column} {before after : List Value} {v : Value} (found : e.column? c.column = some column)
      (values : c.test.operands = before ++ v :: after) (earlier : ∀ w ∈ before, w.kind? = some column.kind)
      (other : v.kind? ≠ some column.kind) : Offence e c (.wrongKind e.name column.name column.kind v)

/-- What is wrong with the first condition that does not suit. -/
def FirstOffence (e : Entity) (conds : List Condition) (f : Fault) : Prop :=
  ∃ before c after, conds = before ++ c :: after ∧ (∀ d ∈ before, e.Suits d) ∧ e.Offence c f

theorem requireOperand_eq_error {column : Column} {v : Value} :
    e.requireOperand column v = .error f ↔
      v.kind? ≠ some column.kind ∧ f = .wrongKind e.name column.name column.kind v := by
  rw [requireOperand]
  by_cases kind : v.kind? = some column.kind
  · simp [kind]
  · simp [kind, eq_comm]

theorem requireColumn_eq_error {column : String} :
    e.requireColumn column = .error f ↔ e.column? column = none ∧ f = .unknownColumn e.name column := by
  rw [requireColumn]
  cases e.column? column with
  | none => simp [eq_comm]
  | some d => simp

theorem requireCondition_eq_ok : e.requireCondition c = .ok d ↔ e.Suits c ∧ d = c := by
  rw [requireCondition, Checks.bind_eq_ok]
  constructor
  · rintro ⟨column, found, checked⟩
    obtain ⟨_, values, answer⟩ := Checks.bind_eq_ok.mp checked
    have kinds := Checks.forM_eq_ok.mp values
    exact ⟨⟨column, requireColumn_eq_ok.mp found, fun v member => requireOperand_eq_ok.mp (kinds v member)⟩,
      (Except.ok.inj answer).symm⟩
  · rintro ⟨⟨column, found, kinds⟩, rfl⟩
    have values : d.test.operands.forM (e.requireOperand column) = .ok () :=
      Checks.forM_eq_ok.mpr fun v member => requireOperand_eq_ok.mpr (kinds v member)
    exact ⟨column, requireColumn_eq_ok.mpr found, Checks.bind_eq_ok.mpr ⟨(), values, rfl⟩⟩

theorem requireCondition_eq_error : e.requireCondition c = .error f ↔ e.Offence c f := by
  rw [requireCondition, Checks.bind_eq_error]
  constructor
  · rintro (unknown | ⟨column, found, refused⟩)
    · obtain ⟨missing, rfl⟩ := requireColumn_eq_error.mp unknown
      exact .unknown missing
    · rcases Checks.bind_eq_error.mp refused with values | ⟨_, _, answer⟩
      · obtain ⟨before, v, after, split, earlier, wrong⟩ := Checks.forM_eq_error.mp values
        obtain ⟨other, rfl⟩ := requireOperand_eq_error.mp wrong
        exact .kind (requireColumn_eq_ok.mp found) split
          (fun w member => requireOperand_eq_ok.mp (earlier w member)) other
      · cases answer
  · intro offence
    cases offence with
    | unknown missing => exact .inl (requireColumn_eq_error.mpr ⟨missing, rfl⟩)
    | @kind column before after v found split earlier other =>
      have values : c.test.operands.forM (e.requireOperand column) =
          .error (.wrongKind e.name column.name column.kind v) :=
        Checks.forM_eq_error.mpr ⟨before, v, after, split, fun w member => requireOperand_eq_ok.mpr (earlier w member),
          requireOperand_eq_error.mpr ⟨other, rfl⟩⟩
      exact .inr ⟨column, requireColumn_eq_ok.mpr found, Checks.bind_eq_error.mpr (.inl values)⟩

theorem requireConditions_eq_ok {asked : List Condition} :
    e.requireConditions conds = .ok asked ↔ (∀ c ∈ conds, e.Suits c) ∧ asked = conds := by
  rw [requireConditions, Checks.mapM_eq_ok]
  simp only [requireCondition_eq_ok]
  constructor
  · intro each
    refine ⟨fun c member => ?_, ?_⟩
    · obtain ⟨_, _, suits, _⟩ := Checks.exists_of_mem_left each member
      exact suits
    · have same : List.Forall₂ (fun c d => c = d) conds asked := each.imp fun _ _ both => both.2.symm
      rw [List.forall₂_eq_eq_eq] at same
      exact same.symm
  · rintro ⟨suits, rfl⟩
    rw [List.forall₂_same]
    exact fun c member => ⟨suits c member, rfl⟩

theorem requireConditions_eq_error : e.requireConditions conds = .error f ↔ e.FirstOffence conds f := by
  rw [requireConditions, Checks.mapM_eq_error]
  simp only [requireCondition_eq_ok, requireCondition_eq_error, exists_eq_right]
  rfl

/-- The requests with these conditions whose other parts suit an entity: an order by declared columns, and
assignments that it takes. -/
inductive Conditional (e : Entity) (conds : List Condition) : Request → Prop
  | tally : Conditional e conds (.tally conds)
  | remove : Conditional e conds (.removeWhere conds)
  | select {order : List (String × Direction)} (page : Page) (declared : ∀ o ∈ order, (e.column? o.1).isSome = true) :
      Conditional e conds (.select ⟨conds, order, page⟩)
  | revise {values : List (String × Value)} (given : values ≠ []) (suited : ∀ a ∈ values, e.Assignable a) :
      Conditional e conds (.reviseWhere values conds)

variable {key : Nat}

/-- An order by declared columns is one that rows can be sorted by. -/
theorem exists_sortKeys (keyed : e.keyIndex? = some key) {order : List (String × Direction)}
    (declared : ∀ o ∈ order, (e.column? o.1).isSome = true) : ∃ keys, e.sortKeys order = .ok keys := by
  cases order with
  | nil =>
    have index : e.requireKey = .ok key := requireKey_eq_ok.mpr keyed
    refine ⟨(e.columns[key]?.toList).map fun c => ⟨c.name, none⟩, ?_⟩
    rw [sortKeys, keyOrder, index]
    rfl
  | cons first more =>
    refine ⟨(first :: more).map fun o => ⟨o.1, some o.2⟩, Checks.mapM_eq_ok.mpr ?_⟩
    rw [List.forall₂_map_right_iff, List.forall₂_same]
    intro o member
    obtain ⟨c, known⟩ := Option.isSome_iff_exists.mp (declared o member)
    have found := requireColumn_eq_ok.mpr known
    exact Checks.bind_eq_ok.mpr ⟨c, found, by rw [name_of_requireColumn found]; rfl⟩

/-! ## Statements with conditions -/

theorem statement_tally (e : Entity) (conds : List Condition) :
    e.statement (.tally conds) = (fun asked => .count ⟨e.tableName, asked⟩) <$> e.requireConditions conds := by
  rw [statement, tally]
  cases e.requireConditions conds <;> rfl

theorem statement_removeWhere (e : Entity) (conds : List Condition) :
    e.statement (.removeWhere conds) = (fun asked => .delete ⟨e.tableName, asked⟩) <$> e.requireConditions conds := by
  rw [statement, removalWhere]
  cases e.requireConditions conds <;> rfl

theorem statement_select {order : List (String × Direction)} {keys : List SortKey} (page : Page)
    (sorted : e.sortKeys order = .ok keys) : e.statement (.select ⟨conds, order, page⟩) =
      (fun asked => .select ⟨e.tableName, e.columns.map (·.name), asked, keys, page⟩) <$>
        e.requireConditions conds := by
  rw [statement, selection, sorted]
  cases e.requireConditions conds <;> rfl

theorem statement_reviseWhere (keyed : e.keyIndex? = some key) {values : List (String × Value)} (given : values ≠ [])
    (suited : ∀ a ∈ values, e.Assignable a) : e.statement (.reviseWhere values conds) =
      (fun asked => .update ⟨e.tableName, values, asked⟩) <$> e.requireConditions conds := by
  have index : e.requireKey = .ok key := requireKey_eq_ok.mpr keyed
  have sets : values.mapM (e.requireAssignment key) = .ok values := by
    rw [Checks.mapM_eq_ok, List.forall₂_same]
    exact fun a member => (requireAssignment_eq_ok keyed).mpr ⟨suited a member, rfl⟩
  have listed : ¬ values.isEmpty = true := by simpa using given
  rw [statement, revisionWhere, if_neg listed, index]
  show _ <$> (values.mapM (e.requireAssignment key) >>= _) = _
  rw [sets]
  cases e.requireConditions conds <;> rfl

/-- Only the conditions decide whether a request is answered, and the answer holds them as they were asked. -/
theorem statement_conditional (keyed : e.keyIndex? = some key) {r : Request} (conditional : e.Conditional conds r) :
    ∃ answer : List Condition → Statement, e.statement r = answer <$> e.requireConditions conds := by
  cases conditional with
  | tally => exact ⟨_, statement_tally e conds⟩
  | remove => exact ⟨_, statement_removeWhere e conds⟩
  | select page declared =>
    obtain ⟨keys, sorted⟩ := exists_sortKeys keyed declared
    exact ⟨_, statement_select page sorted⟩
  | revise given suited => exact ⟨_, statement_reviseWhere keyed given suited⟩

/-- The four statements that a clause restricts to the rows that meet the conditions. Each is the statement without
the clause, with the clause put in; the values of the conditions are bound in their order, after the assigned ones
and before those of the page. -/
structure Restricts (e : Entity) (conds : List Condition) (clause : String) : Prop where
  tally : e.prepare (.tally conds) =
    .ok ⟨"SELECT COUNT(*) FROM " ++ Quoted.quote e.tableName ++ clause, operands conds⟩
  remove : e.prepare (.removeWhere conds) =
    .ok ⟨"DELETE FROM " ++ Quoted.quote e.tableName ++ clause, operands conds⟩
  select : ∀ (order : List (String × Direction)) (page : Page), (∀ o ∈ order, (e.column? o.1).isSome = true) →
    ∃ read sorted, e.prepare (.select ⟨[], order, {}⟩) = .ok ⟨read ++ sorted, []⟩ ∧
      read = "SELECT " ++ nameList (e.columns.map (·.name)) ++ " FROM " ++ Quoted.quote e.tableName ∧
      e.prepare (.select ⟨conds, order, page⟩) =
        .ok ⟨read ++ clause ++ sorted ++ (pageClause (operands conds) page).sql, operands conds ++ pageValues page⟩
  revise : ∀ values : List (String × Value), values ≠ [] → (∀ a ∈ values, e.Assignable a) →
    ∃ set, e.prepare (.reviseWhere values []) = .ok ⟨set, values.map (·.2)⟩ ∧
      e.prepare (.reviseWhere values conds) =
        .ok ⟨set ++ renumber values.length clause, values.map (·.2) ++ operands conds⟩

private theorem prepare_of_statement {r : Request} {answer : List Condition → Statement}
    (answered : e.statement r = answer <$> e.requireConditions conds) (suits : ∀ c ∈ conds, e.Suits c) :
    e.prepare r = .ok (answer conds).prepare := by
  have accepted : e.requireConditions conds = .ok conds := requireConditions_eq_ok.mpr ⟨suits, rfl⟩
  rw [prepare, answered, accepted]
  rfl

theorem restricts_of_suits (keyed : e.keyIndex? = some key) (suits : ∀ c ∈ conds, e.Suits c) :
    e.Restricts conds (whereClause [] conds).sql := by
  have bound : (whereClause [] conds).params = operands conds := whereClause_params [] conds
  have none : ∀ c ∈ ([] : List Condition), e.Suits c := by simp
  have unrestricted : ∀ params, whereClause params [] = ⟨"", params⟩ := fun _ => rfl
  constructor
  case tally =>
    rw [← bound]
    exact prepare_of_statement (statement_tally e conds) suits
  case remove =>
    rw [← bound]
    exact prepare_of_statement (statement_removeWhere e conds) suits
  case select =>
    intro order page declared
    obtain ⟨keys, sorted⟩ := exists_sortKeys keyed declared
    refine ⟨_, orderClause keys, ?_, rfl, ?_⟩
    · refine (prepare_of_statement (statement_select {} sorted) none).trans ?_
      simp only [Statement.prepare, Selection.prepare, unrestricted, pageClause, String.append_empty]
    · refine (prepare_of_statement (statement_select page sorted) suits).trans ?_
      simp only [Statement.prepare, Selection.prepare, bound, pageClause_params]
  case revise =>
    intro values given suited
    have assigned : (assignments [] values).2 = values.map (·.2) := assignments_params [] values
    refine ⟨"UPDATE " ++ Quoted.quote e.tableName ++ " SET " ++ ", ".intercalate (assignments [] values).1, ?_, ?_⟩
    · refine (prepare_of_statement (statement_reviseWhere keyed given suited) none).trans ?_
      simp only [Statement.prepare, Revision.prepare, unrestricted, assigned, String.append_empty]
    · have more : (values.map (·.2)).length = ([] : List Value).length + values.length := by simp
      refine (prepare_of_statement (statement_reviseWhere keyed given suited) suits).trans ?_
      simp only [Statement.prepare, Revision.prepare, assigned, renumber_whereClause more, whereClause_params]

theorem null_notMem_operands (suits : ∀ c ∈ conds, e.Suits c) : .null ∉ operands conds := by
  intro member
  obtain ⟨c, asked, operand⟩ := List.mem_flatMap.mp member
  obtain ⟨column, _, kinds⟩ := suits c asked
  exact absurd (kinds .null operand) (by simp [Value.kind?])

/-- Conditions decide alone, and in the same way, whether the four statements with conditions are made: they are
when all conditions suit the entity, and otherwise the fault is that of the first condition that does not, which is
never one of the request as a whole. The clause made from the conditions is the same in all four statements; in an
update, the numbers of its placeholders are larger by the number of assignments. -/
theorem conditional_prepare (keyed : e.keyIndex? = some key) (conds : List Condition) :
    (∀ r, e.Conditional conds r → ((∃ p, e.prepare r = .ok p) ↔ ∀ c ∈ conds, e.Suits c) ∧
      ∀ f, e.prepare r = .error f ↔ e.FirstOffence conds f) ∧
    (∀ f, e.FirstOffence conds f → ∀ name reason, f ≠ .badQuery name reason) ∧
    ((∀ c ∈ conds, e.Suits c) → .null ∉ operands conds ∧ e.Restricts conds (whereClause [] conds).sql) := by
  refine ⟨fun r conditional => ?_, ?_, fun suits => ⟨null_notMem_operands suits, restricts_of_suits keyed suits⟩⟩
  · obtain ⟨answer, answered⟩ := statement_conditional keyed conditional
    constructor
    · constructor
      · rintro ⟨p, prepared⟩
        rw [prepare, answered] at prepared
        obtain ⟨_, stated, _⟩ := Checks.map_eq_ok.mp prepared
        obtain ⟨_, accepted, _⟩ := Checks.map_eq_ok.mp stated
        exact (requireConditions_eq_ok.mp accepted).1
      · exact fun suits => ⟨_, prepare_of_statement answered suits⟩
    · intro f
      rw [prepare, answered, Checks.map_eq_error, Checks.map_eq_error, requireConditions_eq_error]
  · rintro f ⟨_, c, _, _, _, offence⟩ name reason rfl
    cases offence

/-- Conditions on items, in a count and in an update; one more, which compares the id with nothing, is refused. -/
theorem conditional_prepare_item :
    let conds : List Condition :=
      [⟨"id", .among [.integer 1, .integer 2]⟩, ⟨"content", .compare .notEqual (.text "?1")⟩]
    let absent : Condition := ⟨"id", .between (.integer 1) .null⟩
    let values := [("content", Value.text "a")]
    Item.entity.keyIndex? = some 0 ∧ (∀ c ∈ conds, Item.entity.Suits c) ∧
      Item.entity.prepare (.tally conds) =
        .ok ⟨"SELECT COUNT(*) FROM \"Item\" WHERE \"id\" IN (?1, ?2) AND \"content\" <> ?3",
          [.integer 1, .integer 2, .text "?1"]⟩ ∧
      Item.entity.prepare (.reviseWhere values conds) =
        .ok ⟨"UPDATE \"Item\" SET \"content\" = ?1 WHERE \"id\" IN (?2, ?3) AND \"content\" <> ?4",
          [.text "a", .integer 1, .integer 2, .text "?1"]⟩ ∧
      Item.entity.prepare (.removeWhere (conds ++ [absent, ⟨"name", .isNull⟩])) =
        .error (.wrongKind "Item" "id" .integer .null) := by
  intro conds absent values
  have keyed : Item.entity.keyIndex? = some 0 := rfl
  have accepted : Item.entity.requireConditions conds = .ok conds := by decide +kernel
  have suits := (requireConditions_eq_ok.mp accepted).1
  have assigned : ∀ a ∈ values, Item.entity.Assignable a := by
    intro a member
    obtain rfl := List.mem_singleton.mp member
    exact ⟨_, rfl, by decide, .inr rfl⟩
  obtain ⟨_, _, shared⟩ := conditional_prepare keyed conds
  obtain ⟨_, restricts⟩ := shared suits
  obtain ⟨set, unrestricted, restricted⟩ := restricts.revise values (by simp [values]) assigned
  have sets : (⟨"UPDATE \"Item\" SET \"content\" = ?1", [.text "a"]⟩ : Prepared) = ⟨set, values.map (·.2)⟩ := by
    refine Except.ok.inj (Eq.trans ?_ unrestricted)
    decide +kernel
  obtain ⟨rfl, _⟩ := Prepared.mk.inj sets
  obtain ⟨refusals, _⟩ := conditional_prepare keyed (conds ++ [absent, ⟨"name", .isNull⟩])
  refine ⟨keyed, suits, restricts.tally.trans (by decide +kernel), restricted.trans (by decide +kernel), ?_⟩
  have offence : Item.entity.Offence absent (.wrongKind "Item" "id" .integer .null) :=
    requireCondition_eq_error.mp (by decide +kernel)
  exact ((refusals _ .remove).2 _).mpr ⟨conds, absent, [⟨"name", .isNull⟩], rfl, suits, offence⟩

end Entity

end Tabular
