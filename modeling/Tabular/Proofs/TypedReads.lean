import Tabular.Proofs.EncodedRows

/-!
# Reading columns as types

The value of a column of an opened row is of the kind of the column, or absent (`get_of_fields`). A value is read as
the type of its own kind and no other, and as an optional member of any type only if it is absent
(`exists_read_member`, `exists_read_optional`). So it depends on the column and on the absence of its value alone
which types a column is read as (`typed_reads`).
-/

namespace Tabular

/-- The type that the values of a kind are read as. -/
def Kind.Member : Kind → Type
  | integer => Int64
  | text => String
  | timestamp => Timestamp

instance Kind.reading : (k : Kind) → Reading k.Member
  | .integer => inferInstanceAs (Reading Int64)
  | .text => inferInstanceAs (Reading String)
  | .timestamp => inferInstanceAs (Reading Timestamp)

/-- A value is read as a member of its own kind only. -/
theorem exists_read_member {k : Kind} {v : Value} : (∃ a : k.Member, Reading.read v = some a) ↔ v.kind? = some k := by
  cases k with
  | integer =>
    change (∃ a, v.integer? = some a) ↔ _
    cases v <;> simp [Value.integer?, Value.kind?]
  | text =>
    change (∃ a, v.text? = some a) ↔ _
    cases v <;> simp [Value.text?, Value.kind?]
  | timestamp =>
    change (∃ a, v.timestamp? = some a) ↔ _
    cases v <;> simp [Value.timestamp?, Value.kind?]

theorem read_member_eq_none {k : Kind} {v : Value} :
    (Reading.read v : Option k.Member) = none ↔ v.kind? ≠ some k := by
  rw [Ne, ← exists_read_member]
  cases (Reading.read v : Option k.Member) <;> simp

/-- An absent value is read as an optional member of any kind. -/
theorem exists_read_optional {k : Kind} {v : Value} :
    (∃ o : Option k.Member, Reading.read v = some o) ↔ v = .null ∨ v.kind? = some k := by
  by_cases absent : v = .null
  · subst absent
    simp only [true_or, iff_true]
    exact ⟨none, rfl⟩
  · have same : (Reading.read v : Option (Option k.Member)) = (Reading.read v).map some := by
      cases v with
      | null => exact absurd rfl absent
      | integer n => rfl
      | text s => rfl
      | timestamp t => rfl
    rw [same, or_iff_right absent, ← exists_read_member]
    cases (Reading.read v : Option k.Member) <;> simp

namespace Fields

variable {α : Type} [Reading α] {f : Fields} {column : String} {v : Value}

theorem read_eq_error (got : f.get column = .ok v) (other : (Reading.read v : Option α) = none) :
    f.read α column =
      .error (.wrongKind f.entity.name column (((f.entity.column? column).map (·.kind)).getD .text) v) := by
  unfold read
  simp [got, other, bind, Except.bind, throw, throwThe, MonadExceptOf.throw]

theorem exists_read (got : f.get column = .ok v) :
    (∃ a : α, f.read α column = .ok a) ↔ ∃ a : α, Reading.read v = some a := by
  constructor
  · rintro ⟨a, read⟩
    cases member : (Reading.read v : Option α) with
    | none => simp [read_eq_error got member] at read
    | some b => exact ⟨b, rfl⟩
  · rintro ⟨a, member⟩
    exact ⟨a, read_eq_ok got member⟩

theorem read_missing {fault : Fault} (missing : f.get column = .error fault) : f.read α column = .error fault := by
  unfold read
  simp [missing, bind, Except.bind]

end Fields

namespace Entity

variable {e : Entity} {key i : Nat} {c k : Column} {v : Value} {row : Row} {f : Fields}

/-- A column has no value, and it is no key that is read as unset. -/
def Absent (e : Entity) (c : Column) (v : Value) : Prop :=
  v = .null ∧ ¬ (e.autoincrement = true ∧ c.isKey = true)

/-- What is read for a column whose value in the row is `v`. -/
def opened (e : Entity) (c : Column) (v : Value) : Value :=
  if v = .null ∧ e.autoincrement = true ∧ c.isKey = true then .integer unsetKey else v

/-- Only what is absent is read as nothing, and all else is of the kind of the column. -/
theorem opened_cases (keyAt : e.KeyAt key k) (fits : e.Fits key row) (column : e.columns[i]? = some c)
    (value : row[i]? = some v) :
    e.Absent c v ∧ e.opened c v = .null ∨ ¬ e.Absent c v ∧ (e.opened c v).kind? = some c.kind := by
  unfold Absent opened
  by_cases absent : v = .null
  · by_cases filled : e.autoincrement = true ∧ c.isKey = true
    · have integral : c.kind = .integer := by
        obtain rfl := keyAt.only i c column filled.2
        rw [← Option.some.inj (keyAt.column.symm.trans column), keyAt.counted filled.1]
      simp [filled, absent, integral, Value.kind?]
    · simp [filled, absent]
  · have kind := (accepts_iff.mp (fits.accepted i c v column value)).resolve_right fun other => absent other.1
    simp [absent, kind]

/-- Each column is read with the value at its own position. -/
theorem get_of_fields (valid : e.Valid) (read : e.fields row = .ok f) (column : e.columns[i]? = some c) :
    ∃ v, row[i]? = some v ∧ f.get c.name = .ok (e.opened c v) ∧
      (e.Absent c v ∧ e.opened c v = .null ∨ ¬ e.Absent c v ∧ (e.opened c v).kind? = some c.kind) := by
  obtain ⟨key, k, keyAt⟩ := valid.keyAt
  obtain ⟨key', index, fits, rfl⟩ := fields_eq_ok.mp read
  obtain rfl : key = key' := Option.some.inj (keyAt.index.symm.trans index)
  have inside : i < row.length := by
    rw [fits.length]
    exact (List.getElem?_eq_some_iff.mp column).1
  have value : row[i]? = some row[i] := List.getElem?_eq_getElem inside
  have same : e.openValue key i row[i] = e.opened c row[i] := by
    unfold openValue opened
    simp only [Bool.and_eq_true, Value.isNull_iff, keyAt.fillsKey_iff column, and_comm]
  refine ⟨row[i], value, ?_, opened_cases keyAt fits column value⟩
  simp [Fields.get, valid.columnIndex?_eq column, value, same]

theorem read_mistyped (valid : e.Valid) (read : e.fields row = .ok f) (member : c ∈ e.columns) {α : Type} [Reading α]
    (got : f.get c.name = .ok v) (other : (Reading.read v : Option α) = none) :
    f.read α c.name = .error (.wrongKind e.name c.name c.kind v) := by
  obtain ⟨_, _, _, rfl⟩ := fields_eq_ok.mp read
  rw [Fields.read_eq_error got other, valid.column?_eq member]
  rfl

/-- Which types a column is read as whose value in the row is `v`. -/
structure ReadsColumn (e : Entity) (f : Fields) (c : Column) (v : Value) : Prop where
  value : f.read Value c.name = .ok (e.opened c v)
  optional : ∃ o, f.read (Option c.kind.Member) c.name = .ok o
  member : (∃ a, f.read c.kind.Member c.name = .ok a) ↔ ¬ e.Absent c v
  absent : e.Absent c v → f.read c.kind.Member c.name = .error (.wrongKind e.name c.name c.kind .null)
  /-- The type of another kind is refused, whatever the value. -/
  others : ∀ k ≠ c.kind, f.read k.Member c.name = .error (.wrongKind e.name c.name c.kind (e.opened c v))
  optionals : ∀ k ≠ c.kind, (∃ o, f.read (Option k.Member) c.name = .ok o) ↔ e.Absent c v

theorem readsColumn (valid : e.Valid) (read : e.fields row = .ok f) (column : e.columns[i]? = some c) :
    ∃ v, row[i]? = some v ∧ e.ReadsColumn f c v := by
  obtain ⟨v, value, got, outcome⟩ := get_of_fields valid read column
  have mistyped : ∀ k : Kind, (e.opened c v).kind? ≠ some k →
      f.read k.Member c.name = .error (.wrongKind e.name c.name c.kind (e.opened c v)) := by
    intro k other
    exact read_mistyped valid read (List.mem_of_getElem? column) got (read_member_eq_none.mpr other)
  refine ⟨v, value, ?_⟩
  rcases outcome with ⟨absent, nothing⟩ | ⟨present, kind⟩
  · have unread : ∀ k, (e.opened c v).kind? ≠ some k := by simp [nothing, Value.kind?]
    refine ⟨Fields.read_eq_ok got rfl, ?_, ?_, ?_, ?_, ?_⟩
    · rw [Fields.exists_read got, exists_read_optional]
      exact .inl nothing
    · simp [Fields.exists_read got, exists_read_member, unread, absent]
    · intro _
      rw [mistyped _ (unread _), nothing]
    · intro k _
      exact mistyped k (unread k)
    · intro k _
      simp [Fields.exists_read got, exists_read_optional, nothing, absent]
  · have present' : e.opened c v ≠ .null := by
      intro nothing
      simp [nothing, Value.kind?] at kind
    have apart : ∀ k ≠ c.kind, (e.opened c v).kind? ≠ some k := by
      intro k other
      simpa [kind] using other.symm
    refine ⟨Fields.read_eq_ok got rfl, ?_, ?_, ?_, ?_, ?_⟩
    · rw [Fields.exists_read got, exists_read_optional]
      exact .inr kind
    · simp [Fields.exists_read got, exists_read_member, kind, present]
    · intro absent
      exact absurd absent present
    · intro k other
      exact mistyped k (apart k other)
    · intro k other
      simp [Fields.exists_read got, exists_read_optional, present', apart k other, present]

/-! ## Names of no column -/

theorem get_of_not_column (read : e.fields row = .ok f) {name : String} (other : ∀ c ∈ e.columns, c.name ≠ name) :
    f.get name = .error (.missingField e.name name) := by
  obtain ⟨_, _, _, rfl⟩ := fields_eq_ok.mp read
  have nowhere : e.columnIndex? name = none := by
    simpa [columnIndex?, List.findIdx?_eq_none_iff] using other
  simp [Fields.get, nowhere]

theorem lt_length_of_fields (read : e.fields row = .ok f) {name : String}
    (index : f.entity.columnIndex? name = some i) : i < f.values.length := by
  obtain ⟨_, _, fits, rfl⟩ := fields_eq_ok.mp read
  have inside := (List.findIdx?_eq_some_iff_getElem.mp index).1
  simpa [fits.length] using inside

/-- From the opened row of a valid entity each column is read as a value and as an optional member of its kind. It is
read as a member of its kind unless it is absent, when this is the fault that is told; as the type of another kind it
is never read, and as an optional member of another kind only if it is absent. A key that storage is to choose is not
absent. A name of no column is refused as such, and no name leads beyond the row. -/
theorem typed_reads (valid : e.Valid) (read : e.fields row = .ok f) :
    (∀ (i : Nat) (c : Column), e.columns[i]? = some c → ∃ v, row[i]? = some v ∧ e.ReadsColumn f c v) ∧
    (∀ name, (∀ c ∈ e.columns, c.name ≠ name) → f.get name = .error (.missingField e.name name) ∧
      ∀ (α : Type) [Reading α], f.read α name = .error (.missingField e.name name)) ∧
    ∀ name i, f.entity.columnIndex? name = some i → i < f.values.length := by
  refine ⟨?_, ?_, ?_⟩
  · intro i c column
    exact readsColumn valid read column
  · intro name other
    have missing := get_of_not_column read other
    exact ⟨missing, fun α _ => Fields.read_missing missing⟩
  · intro name i index
    exact lt_length_of_fields read index

/-- A note whose key and text are absent in its row: the key is read as unset, and so not as an absent time, while the
text is read as absent also where a time is asked for. -/
theorem typed_reads_note :
    let e : Entity := { name := "Note", autoincrement := true, columns := [
      { name := "text", kind := .text, nullable := true }, { name := "id", kind := .integer, isKey := true }] }
    let f : Fields := ⟨e, [.null, .integer 0]⟩
    e.Valid ∧ e.fields [.null, .null] = .ok f ∧
      f.read Int64 "id" = .ok 0 ∧ (¬ ∃ o, f.read (Option Timestamp) "id" = .ok o) ∧
      f.read String "text" = .error (.wrongKind "Note" "text" .text .null) ∧
      (∃ o, f.read (Option Timestamp) "text" = .ok o) ∧
      f.read Int64 "text" = .error (.wrongKind "Note" "text" .text .null) ∧
      f.read Value "ID" = .error (.missingField "Note" "ID") := by
  intro e f
  have valid : e.Valid := violations_eq_nil.mp (by decide +kernel)
  have read : e.fields [.null, .null] = .ok f := by decide +kernel
  obtain ⟨columns, missing, _⟩ := typed_reads valid read
  obtain ⟨v, value, text⟩ := columns 0 _ rfl
  obtain ⟨w, value', id⟩ := columns 1 _ rfl
  obtain rfl := Option.some.inj value
  obtain rfl := Option.some.inj value'
  have absent : e.Absent { name := "text", kind := .text, nullable := true } .null := ⟨rfl, by simp⟩
  have present : ¬ e.Absent { name := "id", kind := .integer, isKey := true } .null := by
    rintro ⟨_, unfilled⟩
    exact unfilled ⟨rfl, rfl⟩
  refine ⟨valid, read, by decide +kernel, ?_, text.absent absent, ?_, text.others .integer (by decide), ?_⟩
  · exact fun given => present ((id.optionals .timestamp (by decide)).mp given)
  · exact (text.optionals .timestamp (by decide)).mpr absent
  · exact (missing "ID" (by decide +kernel)).2 Value

end Entity

end Tabular
