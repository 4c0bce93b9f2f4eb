import Tabular.Proofs.StatementTexts

/-!
# Values that are bound to columns

An insertion and an update of a row name columns and number the values of the row from one on, in the same order. Which
columns are named depends on the row: an insertion leaves out the key that storage is to choose, and an update the
key, wherever it stands among the columns. Each value is bound beside its own column all the same (`bound_values`).
-/

namespace Tabular

open Sql

/-- The number of the placeholder is the number of the assignment. -/
theorem Sql.assignments_sql (params : List Value) (values : List (String × Value)) :
    (assignments params values).1 =
      (values.zipIdx (params.length + 1)).map fun p => Quoted.quote p.1.1 ++ " = " ++ placeholder p.2 := by
  induction values generalizing params with
  | nil => rfl
  | cons first rest ih =>
    obtain ⟨column, v⟩ := first
    have later := ih (params ++ [v])
    rw [List.length_append, List.length_singleton] at later
    simp only [assignments, later, List.zipIdx_cons, List.map_cons, List.length_append, List.length_singleton]

namespace Entity

variable {e : Entity} {key : Nat} {k : Column} {v : Value} {row : Row}

/-- The names of the columns with the values of a row, in the order of the columns, less those at the positions left
out. -/
def bindings (e : Entity) (row : Row) (out : Nat → Bool) : List (String × Value) :=
  ((e.columns.zip row).zipIdx.filter fun p => !out p.2).map fun p => (p.1.1.name, p.1.2)

theorem bindings_none (e : Entity) (row : Row) :
    e.bindings row (fun _ => false) = (e.columns.map (·.name)).zip row := by
  have all : (e.columns.zip row).zipIdx.filter (fun p => !(fun _ => false) p.2) = (e.columns.zip row).zipIdx :=
    List.filter_eq_self.mpr fun _ _ => rfl
  have split : (fun p : (Column × Value) × Nat => (p.1.1.name, p.1.2)) = Prod.map (·.name) id ∘ (·.1) := rfl
  rw [bindings, all, split, ← List.map_map, List.zipIdx_map_fst, List.zip_map_left]

private theorem eraseIdx_eq_filter {α : Type} (xs : List α) (i n : Nat) :
    ((xs.zipIdx n).filter fun p => !(p.2 == n + i)).map (·.1) = xs.eraseIdx i := by
  induction xs generalizing i n with
  | nil => rfl
  | cons x rest ih =>
    cases i with
    | zero =>
      have later : ((rest.zipIdx (n + 1)).filter fun p => !(p.2 == n + 0)) = rest.zipIdx (n + 1) := by
        rw [List.filter_eq_self]
        rintro ⟨y, j⟩ listed
        have behind := List.le_snd_of_mem_zipIdx listed
        simp only [Nat.add_zero, Bool.not_eq_true', beq_eq_false_iff_ne]
        omega
      rw [List.zipIdx_cons, List.filter_cons_of_neg (by simp), later, List.zipIdx_map_fst, List.eraseIdx_zero]
      rfl
    | succ i =>
      rw [List.zipIdx_cons, List.filter_cons_of_pos (by simp), List.map_cons, List.eraseIdx_cons_succ, ← ih i (n + 1)]
      simp only [Nat.add_right_comm n 1 i, Nat.add_assoc]

theorem bindings_except (e : Entity) (key : Nat) (row : Row) :
    e.bindings row (· == key) = e.valuesExcept key row := by
  have split : (fun p : (Column × Value) × Nat => (p.1.1.name, p.1.2)) = Prod.map (·.name) id ∘ (·.1) := rfl
  have erased := eraseIdx_eq_filter (e.columns.zip row) key 0
  rw [Nat.zero_add] at erased
  rw [bindings, split, ← List.map_map, erased, valuesExcept, List.zip_map_left, List.eraseIdx_map]

/-- What an insertion of a row gives values to: every column, or every one but the key that storage is to choose. -/
theorem bindings_insertion (e : Entity) (key : Nat) (row : Row) :
    e.bindings row (fun i => e.fillsKey key i && row[i]? = some .null) =
      if e.lacksKey key row then e.valuesExcept key row else (e.columns.map (·.name)).zip row := by
  have out : (fun i => e.fillsKey key i && decide (row[i]? = some .null)) =
      fun i => e.lacksKey key row && (i == key) := by
    funext i
    rw [fillsKey, lacksKey]
    by_cases here : i = key
    · simp [here]
    · rw [beq_false_of_ne here, Bool.and_false, Bool.false_and, Bool.and_false]
  rw [out]
  cases e.lacksKey key row with
  | true => simpa only [Bool.true_and, if_true] using bindings_except e key row
  | false => simpa only [Bool.false_and, Bool.false_eq_true, if_false] using bindings_none e row

/-- Nothing but the key is left out, so that nothing remains only where there is no other column. -/
theorem bindings_insertion_eq_nil (keyed : e.keyIndex? = some key) (sameLength : row.length = e.columns.length) :
    e.bindings row (fun i => e.fillsKey key i && row[i]? = some .null) = [] ↔
      e.autoincrement = true ∧ row = [.null] := by
  have inside : key < e.columns.length := (List.findIdx?_eq_some_iff_getElem.mp keyed).1
  have others := length_valuesExcept keyed sameLength
  rw [bindings_insertion]
  constructor
  · intro nothing
    cases lacks : e.lacksKey key row with
    | true =>
      obtain ⟨auto, absent⟩ := lacksKey_iff.mp lacks
      rw [lacks, if_pos rfl] at nothing
      rw [nothing, List.length_nil, ← sameLength] at others
      obtain ⟨v, rfl⟩ := List.length_eq_one_iff.mp others.symm
      have first : key = 0 := by simpa using (List.getElem?_eq_some_iff.mp absent).1
      subst first
      exact ⟨auto, by rw [Option.some.inj absent]⟩
    | false =>
      rw [lacks, if_neg Bool.false_ne_true] at nothing
      have none := congrArg List.length nothing
      rw [List.length_zip, List.length_map, sameLength, Nat.min_self, List.length_nil] at none
      omega
  · rintro ⟨auto, rfl⟩
    have first : key = 0 := by rw [← sameLength, List.length_singleton] at inside; omega
    subst first
    rw [if_pos (lacksKey_iff.mpr ⟨auto, rfl⟩), ← List.length_eq_zero_iff]
    rw [← sameLength, List.length_singleton] at others
    omega

/-! ## Statements that bind them -/

/-- A text with parameters that inserts these values into these columns: in the text the names of the columns stand in
their order and the placeholders beside them, the values are the parameters in the same order, and it is read as the
insertion of each value into its column. -/
structure Inserts (e : Entity) (mode : Conflict) (values : List (String × Value)) (p : Prepared) : Prop where
  sql : p.sql = "INSERT" ++ mode.clause ++ " INTO " ++ Quoted.quote e.tableName ++
    if values = [] then " DEFAULT VALUES"
    else " (" ++ nameList (values.map (·.1)) ++ ") VALUES (" ++ placeholders 1 values.length ++ ")"
  params : p.params = values.map (·.2)
  read : p.read = some (.insert ⟨mode, e.tableName, values⟩)

/-- A text with parameters that sets these columns to these values in the rows with a key: the assignments are
numbered from one on, and the key has the number after the last of them. -/
structure Updates (e : Entity) (values : List (String × Value)) (k : Column) (v : Value) (p : Prepared) : Prop where
  sql : p.sql = "UPDATE " ++ Quoted.quote e.tableName ++ " SET " ++
    ", ".intercalate ((values.zipIdx 1).map fun p => Quoted.quote p.1.1 ++ " = " ++ placeholder p.2) ++
    " WHERE " ++ Quoted.quote k.name ++ " = " ++ placeholder (values.length + 1)
  params : p.params = values.map (·.2) ++ [v]
  read : p.read = some (.update ⟨e.tableName, values, [⟨k.name, .compare .equal v⟩]⟩)

theorem inserts_prepare (e : Entity) (mode : Conflict) (values : List (String × Value)) :
    e.Inserts mode values (Statement.insert ⟨mode, e.tableName, values⟩).prepare := by
  refine ⟨?_, prepare_params _, read_prepare _⟩
  rw [Statement.prepare, Insertion.prepare]
  cases values with
  | nil => rfl
  | cons first rest => rw [if_neg (List.cons_ne_nil _ _), rowClause, List.length_map]; rfl

theorem updates_prepare (e : Entity) (values : List (String × Value)) (k : Column) (v : Value) :
    e.Updates values k v (Statement.update ⟨e.tableName, values, [⟨k.name, .compare .equal v⟩]⟩).prepare := by
  refine ⟨?_, prepare_params _, read_prepare _⟩
  have bound : (assignments [] values).2 = values.map (·.2) := assignments_params [] values
  have spaced : " = " = " " ++ ("=" ++ " ") := rfl
  simp only [Statement.prepare, Revision.prepare, bound, spaced, assignments_sql, whereClause, predicates,
    Condition.sql, Test.operator, Comparison.sign, List.isEmpty_cons, Bool.false_eq_true, if_false, List.length_nil,
    Nat.zero_add, List.length_map, String.intercalate_singleton, String.append_assoc]

/-- An insertion and an update bind each value to its own column, whatever the names of the columns are and wherever the
key stands. An insertion leaves out the key that storage is to choose and nothing else, and the mode is nothing but a
word of its text; only a row that consists of such a key is inserted without a value. An update is made of a row whose
key is of the kind of the key column; it leaves out the key, which is bound last, unless the key is the only column. -/
theorem bound_values (keyed : e.keyIndex? = some key) (sameLength : row.length = e.columns.length) :
    let kept := e.bindings row fun i => e.fillsKey key i && row[i]? = some .null
    (∀ mode, ∃ p, e.prepare (.insert mode row) = .ok p ∧ e.Inserts mode kept p) ∧
    (kept = [] ↔ e.autoincrement = true ∧ row = [.null]) ∧
    ∃ k v, e.columns[key]? = some k ∧ row[key]? = some v ∧
      ((∃ p, e.prepare (.revise row) = .ok p) ↔ v.kind? = some k.kind) ∧
      ∀ p, e.prepare (.revise row) = .ok p →
        e.Updates (if e.columns.length = 1 then [(k.name, v)] else e.bindings row (· == key)) k v p := by
  have inside : key < e.columns.length := (List.findIdx?_eq_some_iff_getElem.mp keyed).1
  have column : e.columns[key]? = some e.columns[key] := List.getElem?_eq_getElem inside
  have inside' : key < row.length := by omega
  have value : row[key]? = some row[key] := List.getElem?_eq_getElem inside'
  refine ⟨fun mode => ?_, bindings_insertion_eq_nil keyed sameLength, e.columns[key], _, column, value, ?_⟩
  · refine ⟨_, ?_, inserts_prepare e mode _⟩
    exact Checks.map_eq_ok.mpr ⟨_, Checks.map_eq_ok.mpr ⟨_, (insertion_eq_ok keyed).mpr ⟨sameLength, rfl⟩, rfl⟩, by
      rw [bindings_insertion]⟩
  · simp only [bindings_except]
    have accepted := fun asked : Revision =>
      (revision_eq_ok keyed column value sameLength : e.revision row = .ok asked ↔ _)
    constructor
    · constructor
      · rintro ⟨p, prepared⟩
        obtain ⟨_, answered, _⟩ := Checks.map_eq_ok.mp prepared
        obtain ⟨asked, revised, _⟩ := Checks.map_eq_ok.mp answered
        exact ((accepted asked).mp revised).1
      · intro kind
        exact ⟨_, Checks.map_eq_ok.mpr ⟨_, Checks.map_eq_ok.mpr ⟨_, (accepted _).mpr ⟨kind, rfl⟩, rfl⟩, rfl⟩⟩
    · intro p prepared
      obtain ⟨_, answered, rfl⟩ := Checks.map_eq_ok.mp prepared
      obtain ⟨asked, revised, rfl⟩ := Checks.map_eq_ok.mp answered
      obtain ⟨_, rfl⟩ := (accepted asked).mp revised
      exact updates_prepare e _ _ _

/-- A key between two columns whose names look like placeholders and quotes. It is left out of the insertion when it
is absent, and is bound last in the update. A tag that consists of its key is set to itself. -/
theorem bound_values_quoted :
    let e : Entity := { name := "Note", autoincrement := true, columns := [
      { name := "?2", kind := .text }, { name := "id", kind := .integer, isKey := true },
      { name := "a\"b", kind := .timestamp, nullable := true }] }
    let tag : Entity := { name := "Tag", columns := [{ name := "name", kind := .text, isKey := true }] }
    e.Inserts .replace [("?2", .text "x"), ("a\"b", .null)]
        ⟨"INSERT OR REPLACE INTO \"Note\" (\"?2\", \"a\"\"b\") VALUES (?1, ?2)", [.text "x", .null]⟩ ∧
      e.Updates [("?2", .text "x"), ("a\"b", .null)] { name := "id", kind := .integer, isKey := true } (.integer 7)
        ⟨"UPDATE \"Note\" SET \"?2\" = ?1, \"a\"\"b\" = ?2 WHERE \"id\" = ?3",
          [.text "x", .null, .integer 7]⟩ ∧
      (¬ ∃ p, e.prepare (.revise [.text "x", .null, .null]) = .ok p) ∧
      tag.Updates [("name", .text "t")] { name := "name", kind := .text, isKey := true } (.text "t")
        ⟨"UPDATE \"Tag\" SET \"name\" = ?1 WHERE \"name\" = ?2", [.text "t", .text "t"]⟩ := by
  intro e tag
  have keyed : e.keyIndex? = some 1 := rfl
  have keyed' : tag.keyIndex? = some 0 := rfl
  have unset : ([.text "x", .null, .null] : Row).length = e.columns.length := rfl
  have set : ([.text "x", .integer 7, .null] : Row).length = e.columns.length := rfl
  have named : ([.text "t"] : Row).length = tag.columns.length := rfl
  obtain ⟨inserted, _, k, v, column, value, made, _⟩ := bound_values keyed unset
  obtain ⟨_, _, k', v', column', value', _, updated⟩ := bound_values keyed set
  obtain ⟨_, _, n, w, column'', value'', _, renamed⟩ := bound_values keyed' named
  obtain rfl := Option.some.inj column
  obtain rfl := Option.some.inj value
  obtain rfl := Option.some.inj column'
  obtain rfl := Option.some.inj value'
  obtain rfl := Option.some.inj column''
  obtain rfl := Option.some.inj value''
  refine ⟨?_, updated _ (by decide +kernel), fun prepared => absurd (made.mp prepared) (by decide),
    renamed _ (by decide +kernel)⟩
  obtain ⟨p, prepared, inserts⟩ := inserted .replace
  have text : e.prepare (.insert .replace [.text "x", .null, .null]) =
      .ok ⟨"INSERT OR REPLACE INTO \"Note\" (\"?2\", \"a\"\"b\") VALUES (?1, ?2)", [.text "x", .null]⟩ := by
    decide +kernel
  rwa [← Except.ok.inj (text.symm.trans prepared)] at inserts

end Entity

end Tabular
