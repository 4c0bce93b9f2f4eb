import Mathlib.Data.List.InsertIdx
import Tabular.Proofs.EntityTables
import Tabular.Proofs.StatementTokens

/-!
# Texts and values

Values are bound beside the text of a statement and do not occur in it. The text is made of names, of
operators and of the number of values: statements of one form have one text (`Statement.SameForm.sql_eq`), and
requests that ask for the same with other values are answered with statements of one form (`sql_eq_of_alike`).
-/

namespace Tabular

namespace Sql

/-- The same test of the same column, with as many values. -/
structure Condition.SameForm (c d : Condition) : Prop where
  column : c.column = d.column
  operator : c.test.operator = d.test.operator
  count : c.test.operands.length = d.test.operands.length

/-- The placeholders after an operator, of which the first has the number `next`. -/
def operandText (next : Nat) (operator : String) (count : Nat) : String :=
  if operator = "IN" ∨ operator = "NOT IN" then " (" ++ placeholders next count ++ ")"
  else if operator = "BETWEEN" then " " ++ placeholder next ++ " AND " ++ placeholder (next + 1)
  else if count = 0 then ""
  else " " ++ placeholder next

/-- The text of a condition is made of its column, its operator and the number of its values. -/
theorem Condition.sql_eq (next : Nat) (c : Condition) : Condition.sql next c =
    Quoted.quote c.column ++ " " ++ c.test.operator ++
      operandText next c.test.operator c.test.operands.length := by
  obtain ⟨column, test⟩ := c
  cases test with
  | compare op v =>
    have others : op.sign ≠ "IN" ∧ op.sign ≠ "NOT IN" ∧ op.sign ≠ "BETWEEN" := by cases op <;> decide
    simp only [Condition.sql, operandText, Test.operator, Test.operands, List.length_singleton, others, or_self,
      if_false, Nat.one_ne_zero, String.append_assoc]
  | among vs =>
    simp only [Condition.sql, operandText, Test.operator, Test.operands, true_or, if_true, String.append_assoc]
  | notAmong vs =>
    simp only [Condition.sql, operandText, Test.operator, Test.operands, or_true, if_true, String.append_assoc]
  | between low high =>
    have others : ¬ ("BETWEEN" = "IN" ∨ "BETWEEN" = "NOT IN") := by decide
    simp only [Condition.sql, operandText, Test.operator, others, if_false, if_true, String.append_assoc]
  | isNull => exact (String.append_empty ..).symm
  | isNotNull => exact (String.append_empty ..).symm

section Clauses

variable {params params' : List Value} {cs cs' : List Condition} {values values' : List (String × Value)}

/-- Only the number of the values that are bound before matters to the texts of conditions. -/
theorem predicates_of_sameForm (bound : params.length = params'.length)
    (conditions : List.Forall₂ Condition.SameForm cs cs') :
    (predicates params cs).1 = (predicates params' cs').1 := by
  induction conditions generalizing params params' with
  | nil => rfl
  | @cons c d rest rest' form _ ih =>
    have later : (params ++ c.test.operands).length = (params' ++ d.test.operands).length := by
      rw [List.length_append, List.length_append, bound, form.count]
    have here : Condition.sql (params.length + 1) c = Condition.sql (params'.length + 1) d := by
      rw [Condition.sql_eq, Condition.sql_eq, bound, form.column, form.operator, form.count]
    simp only [predicates, here, ih later]

theorem whereClause_of_sameForm (bound : params.length = params'.length)
    (conditions : List.Forall₂ Condition.SameForm cs cs') :
    (whereClause params cs).sql = (whereClause params' cs').sql := by
  simp only [whereClause, predicates_of_sameForm bound conditions]

theorem length_operands_of_sameForm (conditions : List.Forall₂ Condition.SameForm cs cs') :
    (operands cs).length = (operands cs').length := by
  have counts : (cs.map fun c => c.test.operands.length) = cs'.map fun c => c.test.operands.length := by
    rw [← List.forall₂_eq_eq_eq, List.forall₂_map_left_iff, List.forall₂_map_right_iff]
    exact conditions.imp fun _ _ form => form.count
  rw [operands, operands, List.length_flatMap, List.length_flatMap, counts]

theorem assignments_of_columns (bound : params.length = params'.length)
    (columns : values.map (·.1) = values'.map (·.1)) :
    (assignments params values).1 = (assignments params' values').1 := by
  induction values generalizing params params' values' with
  | nil =>
    obtain rfl := List.map_eq_nil_iff.mp columns.symm
    rfl
  | cons first rest ih =>
    obtain ⟨⟨column, w⟩, rest', rfl, here, later⟩ := List.map_eq_cons_iff.mp columns.symm
    obtain ⟨_, v⟩ := first
    obtain rfl := here
    have bound' : (params ++ [v]).length = (params' ++ [w]).length := by
      rw [List.length_append, List.length_append, bound, List.length_singleton, List.length_singleton]
    simp only [assignments, bound', ih bound' later.symm]

theorem pageClause_of_presence {page page' : Page} (bound : params.length = params'.length)
    (limit : page.limit.isSome = page'.limit.isSome) (offset : page.offset.isSome = page'.offset.isSome) :
    (pageClause params page).sql = (pageClause params' page').sql := by
  obtain ⟨_ | _, _ | _⟩ := page <;> obtain ⟨_ | _, _ | _⟩ := page' <;> simp_all [pageClause]

theorem rowClause_of_columns (columns : values.map (·.1) = values'.map (·.1)) :
    (rowClause values).sql = (rowClause values').sql := by
  have counts : values.length = values'.length := by simpa using congrArg List.length columns
  have empty : values.isEmpty = values'.isEmpty := by
    rw [Bool.eq_iff_iff, List.isEmpty_iff_length_eq_zero, List.isEmpty_iff_length_eq_zero, counts]
  simp only [rowClause, columns, empty, List.length_map, counts]
  split <;> rfl

end Clauses

/-- Statements that differ at most in their values, in their limit and in their offset. -/
inductive Statement.SameForm : Statement → Statement → Prop
  | insert (mode : Conflict) (table : String) {values values' : List (String × Value)}
      (columns : values.map (·.1) = values'.map (·.1)) :
      SameForm (.insert ⟨mode, table, values⟩) (.insert ⟨mode, table, values'⟩)
  | select (table : String) (columns : List String) (order : List SortKey) {conds conds' : List Condition}
      {page page' : Page} (conditions : List.Forall₂ Condition.SameForm conds conds')
      (limit : page.limit.isSome = page'.limit.isSome) (offset : page.offset.isSome = page'.offset.isSome) :
      SameForm (.select ⟨table, columns, conds, order, page⟩) (.select ⟨table, columns, conds', order, page'⟩)
  | count (table : String) {conds conds' : List Condition}
      (conditions : List.Forall₂ Condition.SameForm conds conds') :
      SameForm (.count ⟨table, conds⟩) (.count ⟨table, conds'⟩)
  | update (table : String) {values values' : List (String × Value)} {conds conds' : List Condition}
      (columns : values.map (·.1) = values'.map (·.1))
      (conditions : List.Forall₂ Condition.SameForm conds conds') :
      SameForm (.update ⟨table, values, conds⟩) (.update ⟨table, values', conds'⟩)
  | delete (table : String) {conds conds' : List Condition}
      (conditions : List.Forall₂ Condition.SameForm conds conds') :
      SameForm (.delete ⟨table, conds⟩) (.delete ⟨table, conds'⟩)

theorem Statement.SameForm.sql_eq {s s' : Statement} (form : s.SameForm s') : s.sql = s'.sql := by
  have first : ∀ {conds conds'}, List.Forall₂ Condition.SameForm conds conds' →
      (whereClause [] conds).sql = (whereClause [] conds').sql := whereClause_of_sameForm rfl
  cases form with
  | insert mode table columns =>
    simp only [sql, Statement.prepare, Insertion.prepare, rowClause_of_columns columns]
  | select table columns order conditions limit offset =>
    have counts := length_operands_of_sameForm conditions
    simp only [sql, Statement.prepare, Selection.prepare, first conditions, whereClause_params, List.nil_append,
      pageClause_of_presence counts limit offset]
  | count table conditions =>
    exact congrArg (("SELECT COUNT(*) FROM " ++ Quoted.quote table) ++ ·) (first conditions)
  | @update table values values' _ _ columns conditions =>
    have counts : (assignments [] values).2.length = (assignments [] values').2.length := by
      rw [assignments_params, assignments_params]
      simpa using congrArg List.length columns
    simp only [sql, Statement.prepare, Revision.prepare, assignments_of_columns rfl columns,
      whereClause_of_sameForm counts conditions]
  | delete table conditions =>
    exact congrArg (("DELETE FROM " ++ Quoted.quote table) ++ ·) (first conditions)

end Sql

open Sql

namespace Entity

variable {e : Entity} {key : Nat} {row row' : Row} {v : Value} {c : Column}

/-! ## The names of a statement about an entity -/

theorem key?_of_requireKeyValue (accepted : e.requireKeyValue v = .ok c) : e.key? = some c := by
  obtain ⟨key, index, checked⟩ := Checks.bind_eq_ok.mp accepted
  have column : e.columns[key]? = e.key? := getElem?_of_keyIndex? (requireKey_eq_ok.mp index)
  rw [column] at checked
  cases known : e.key? with
  | none => simp [known] at checked
  | some k =>
    by_cases kind : v.kind? = some k.kind
    · simp only [known, kind, if_true] at checked
      rw [Except.ok.inj checked]
    · simp [known, kind] at checked

theorem lookup_eq_ok {s : Selection} (accepted : e.lookup v = .ok s) :
    ∃ c, e.key? = some c ∧ s = ⟨e.tableName, e.columns.map (·.name), [⟨c.name, .compare .equal v⟩], [], {}⟩ := by
  obtain ⟨c, known, answer⟩ := Checks.bind_eq_ok.mp accepted
  exact ⟨c, key?_of_requireKeyValue known, (Except.ok.inj answer).symm⟩

theorem removal_eq_ok {r : Removal} (accepted : e.removal v = .ok r) :
    ∃ c, e.key? = some c ∧ r = ⟨e.tableName, [⟨c.name, .compare .equal v⟩]⟩ := by
  obtain ⟨c, known, answer⟩ := Checks.bind_eq_ok.mp accepted
  exact ⟨c, key?_of_requireKeyValue known, (Except.ok.inj answer).symm⟩

/-- The columns beside the one at the position of the key. -/
def namesExcept (e : Entity) (key : Nat) : List String :=
  (e.columns.map (·.name)).eraseIdx key

theorem names_zip (sameLength : row.length = e.columns.length) :
    ((e.columns.map (·.name)).zip row).map (·.1) = e.columns.map (·.name) :=
  List.map_fst_zip (by simp [sameLength])

theorem names_valuesExcept (sameLength : row.length = e.columns.length) (key : Nat) :
    (e.valuesExcept key row).map (·.1) = e.namesExcept key := by
  rw [valuesExcept, ← List.eraseIdx_map, names_zip sameLength, namesExcept]

theorem names_of_insertion {mode : Conflict} {i : Insertion} (accepted : e.insertion mode row = .ok i) :
    ∃ key, e.keyIndex? = some key ∧ i.mode = mode ∧ i.table = e.tableName ∧
      i.values.map (·.1) = if e.lacksKey key row then e.namesExcept key else e.columns.map (·.name) := by
  obtain ⟨_, _, checked⟩ := Checks.bind_eq_ok.mp accepted
  obtain ⟨key, index, _⟩ := Checks.bind_eq_ok.mp checked
  have keyed := requireKey_eq_ok.mp index
  obtain ⟨sameLength, rfl⟩ := (insertion_eq_ok keyed).mp accepted
  refine ⟨key, keyed, rfl, rfl, ?_⟩
  rw [apply_ite (List.map _), names_valuesExcept sameLength, names_zip sameLength]

/-- An update of a row sets the columns beside the key, or the key when there are no others, and asks for the key. -/
theorem names_of_revision {r : Revision} (accepted : e.revision row = .ok r) :
    ∃ key c v, e.keyIndex? = some key ∧ e.key? = some c ∧ r.table = e.tableName ∧
      r.conditions = [⟨c.name, .compare .equal v⟩] ∧
      r.values.map (·.1) = if e.namesExcept key = [] then [c.name] else e.namesExcept key := by
  obtain ⟨key, c, v, keyed, column, _, sameLength, _, rfl⟩ := exists_of_revision accepted
  refine ⟨key, c, v, keyed, (getElem?_of_keyIndex? keyed).symm.trans column, rfl, rfl, ?_⟩
  have names := names_valuesExcept sameLength key
  have none : e.columns.length = 1 ↔ e.namesExcept key = [] := by
    have others := length_valuesExcept keyed sameLength
    rw [← List.length_eq_zero_iff, ← names, List.length_map]
    omega
  by_cases single : e.columns.length = 1
  · rw [if_pos single, if_pos (none.mp single)]
    rfl
  · rw [if_neg single, if_neg (mt none.mpr single), names]

/-! ## Requests that ask for the same -/

/-- Requests for the same about an entity, with values of their own: rows that both leave the choice of their key to
storage or both do not, conditions of one form, and pages that are cut at the same ends. -/
inductive Alike (e : Entity) : Request → Request → Prop
  | insert (mode : Conflict) {row row' : Row}
      (chosen : ∀ key, e.keyIndex? = some key → e.lacksKey key row = e.lacksKey key row') :
      Alike e (.insert mode row) (.insert mode row')
  | lookup (key key' : Value) : Alike e (.lookup key) (.lookup key')
  | list : Alike e .list .list
  | tallyAll : Alike e .tallyAll .tallyAll
  | revise (row row' : Row) : Alike e (.revise row) (.revise row')
  | remove (key key' : Value) : Alike e (.remove key) (.remove key')
  | select (order : List (String × Direction)) {conds conds' : List Condition} {page page' : Page}
      (conditions : List.Forall₂ Condition.SameForm conds conds')
      (limit : page.limit.isSome = page'.limit.isSome) (offset : page.offset.isSome = page'.offset.isSome) :
      Alike e (.select ⟨conds, order, page⟩) (.select ⟨conds', order, page'⟩)
  | tally {conds conds' : List Condition} (conditions : List.Forall₂ Condition.SameForm conds conds') :
      Alike e (.tally conds) (.tally conds')
  | reviseWhere {values values' : List (String × Value)} {conds conds' : List Condition}
      (columns : values.map (·.1) = values'.map (·.1))
      (conditions : List.Forall₂ Condition.SameForm conds conds') :
      Alike e (.reviseWhere values conds) (.reviseWhere values' conds')
  | removeWhere {conds conds' : List Condition} (conditions : List.Forall₂ Condition.SameForm conds conds') :
      Alike e (.removeWhere conds) (.removeWhere conds')

private theorem sameForm_key (name : String) (v w : Value) :
    List.Forall₂ Condition.SameForm [⟨name, .compare .equal v⟩] [⟨name, .compare .equal w⟩] :=
  .cons ⟨rfl, rfl, rfl⟩ .nil

theorem sameForm_refl (conds : List Condition) : List.Forall₂ Condition.SameForm conds conds :=
  List.forall₂_same.mpr fun _ _ => ⟨rfl, rfl, rfl⟩

/-- Requests for the same are answered with statements that differ in values only. -/
theorem sameForm_of_alike {r r' : Request} {s s' : Statement} (alike : e.Alike r r')
    (answered : e.statement r = .ok s) (answered' : e.statement r' = .ok s') : s.SameForm s' := by
  cases alike with
  | insert mode chosen =>
    obtain ⟨⟨_, _, _⟩, accepted, rfl⟩ := Checks.map_eq_ok.mp answered
    obtain ⟨⟨_, _, _⟩, accepted', rfl⟩ := Checks.map_eq_ok.mp answered'
    obtain ⟨key, keyed, rfl, rfl, names⟩ := names_of_insertion accepted
    obtain ⟨key', keyed', rfl, rfl, names'⟩ := names_of_insertion accepted'
    obtain rfl : key = key' := Option.some.inj (keyed.symm.trans keyed')
    exact .insert _ _ (by rw [names, names', chosen key keyed])
  | lookup key key' =>
    obtain ⟨_, accepted, rfl⟩ := Checks.map_eq_ok.mp answered
    obtain ⟨_, accepted', rfl⟩ := Checks.map_eq_ok.mp answered'
    obtain ⟨c, known, rfl⟩ := lookup_eq_ok accepted
    obtain ⟨c', known', rfl⟩ := lookup_eq_ok accepted'
    obtain rfl : c = c' := Option.some.inj (known.symm.trans known')
    exact .select _ _ _ (sameForm_key c.name key key') rfl rfl
  | list =>
    obtain ⟨q, _, rfl⟩ := Checks.map_eq_ok.mp answered
    obtain rfl : Statement.select q = s' := Except.ok.inj (answered.symm.trans answered')
    exact .select _ _ _ (sameForm_refl _) rfl rfl
  | tallyAll =>
    obtain rfl := Except.ok.inj answered
    obtain rfl := Except.ok.inj answered'
    exact .count _ .nil
  | revise row row' =>
    obtain ⟨⟨_, _, _⟩, accepted, rfl⟩ := Checks.map_eq_ok.mp answered
    obtain ⟨⟨_, _, _⟩, accepted', rfl⟩ := Checks.map_eq_ok.mp answered'
    obtain ⟨key, c, v, keyed, known, rfl, rfl, names⟩ := names_of_revision accepted
    obtain ⟨key', c', v', keyed', known', rfl, rfl, names'⟩ := names_of_revision accepted'
    obtain rfl : key = key' := Option.some.inj (keyed.symm.trans keyed')
    obtain rfl : c = c' := Option.some.inj (known.symm.trans known')
    exact .update _ (names.trans names'.symm) (sameForm_key c.name v v')
  | remove key key' =>
    obtain ⟨_, accepted, rfl⟩ := Checks.map_eq_ok.mp answered
    obtain ⟨_, accepted', rfl⟩ := Checks.map_eq_ok.mp answered'
    obtain ⟨c, known, rfl⟩ := removal_eq_ok accepted
    obtain ⟨c', known', rfl⟩ := removal_eq_ok accepted'
    obtain rfl : c = c' := Option.some.inj (known.symm.trans known')
    exact .delete _ (sameForm_key c.name key key')
  | select order conditions limit offset =>
    obtain ⟨_, accepted, rfl⟩ := Checks.map_eq_ok.mp answered
    obtain ⟨_, accepted', rfl⟩ := Checks.map_eq_ok.mp answered'
    obtain ⟨keys, sorted, rfl⟩ := selection_eq_ok accepted
    obtain ⟨keys', sorted', rfl⟩ := selection_eq_ok accepted'
    obtain rfl : keys = keys' := Except.ok.inj (sorted.symm.trans sorted')
    exact .select _ _ _ conditions limit offset
  | tally conditions =>
    obtain ⟨_, accepted, rfl⟩ := Checks.map_eq_ok.mp answered
    obtain ⟨_, accepted', rfl⟩ := Checks.map_eq_ok.mp answered'
    obtain rfl := tally_eq_ok accepted
    obtain rfl := tally_eq_ok accepted'
    exact .count _ conditions
  | reviseWhere columns conditions =>
    obtain ⟨_, accepted, rfl⟩ := Checks.map_eq_ok.mp answered
    obtain ⟨_, accepted', rfl⟩ := Checks.map_eq_ok.mp answered'
    obtain rfl := revisionWhere_eq_ok accepted
    obtain rfl := revisionWhere_eq_ok accepted'
    exact .update _ columns conditions
  | removeWhere conditions =>
    obtain ⟨_, accepted, rfl⟩ := Checks.map_eq_ok.mp answered
    obtain ⟨_, accepted', rfl⟩ := Checks.map_eq_ok.mp answered'
    obtain rfl := removalWhere_eq_ok accepted
    obtain rfl := removalWhere_eq_ok accepted'
    exact .delete _ conditions

/-- The text of a statement does not depend on the values of its request: requests for the same have the same text,
whatever the keys, the rows, the values that are assigned or compared with, the limit and the offset. -/
theorem sql_eq_of_alike {r r' : Request} {p p' : Prepared} (alike : e.Alike r r') (prepared : e.prepare r = .ok p)
    (prepared' : e.prepare r' = .ok p') : p.sql = p'.sql := by
  obtain ⟨s, answered, rfl⟩ := Checks.map_eq_ok.mp prepared
  obtain ⟨s', answered', rfl⟩ := Checks.map_eq_ok.mp prepared'
  exact (sameForm_of_alike alike answered answered').sql_eq

/-- Texts that look like parts of a statement change nothing of it, and neither do other limits. -/
theorem sql_eq_of_alike_quotes :
    let asked : Request := .select ⟨[⟨"content", .among [.text "' OR 1 = 1 --", .text "?9"]⟩], [], ⟨some 1, none⟩⟩
    let other : Request := .select ⟨[⟨"content", .among [.text "\"", .text ""]⟩], [], ⟨some 7, none⟩⟩
    let sql := "SELECT \"id\", \"content\", \"created_time\" FROM \"Item\" WHERE \"content\" IN (?1, ?2) " ++
      "ORDER BY \"id\" LIMIT ?3"
    Item.entity.Alike asked other ∧
      Item.entity.prepare asked = .ok ⟨sql, [.text "' OR 1 = 1 --", .text "?9", .integer 1]⟩ ∧
      ∃ p, Item.entity.prepare other = .ok p ∧ sql = p.sql := by
  intro asked other sql
  have alike : Item.entity.Alike asked other := .select [] (.cons ⟨rfl, rfl, rfl⟩ .nil) rfl rfl
  have first : Item.entity.prepare asked = .ok ⟨sql, [.text "' OR 1 = 1 --", .text "?9", .integer 1]⟩ := by
    decide +kernel
  have second : Item.entity.prepare other = .ok ⟨sql, [.text "\"", .text "", .integer 7]⟩ := by decide +kernel
  exact ⟨alike, first, _, second, sql_eq_of_alike alike first second⟩

end Entity

end Tabular
