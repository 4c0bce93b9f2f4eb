import Mathlib.Data.List.InsertIdx
import Tabular.Proofs.EncodedRows

/-!
# Statements about the rows of instances

Whether a row is inserted or updated, and whether a key is looked up or removed, depends on the length of the row and on
the kind of the key alone. The row of an instance has the length, and its key has the kind wherever storage is not
still to choose it, so that no statement about an instance is refused but the update of one without a key
(`accepted_rows`).
-/

namespace Tabular.Entity

open Sql

variable {e : Entity} {key : Nat} {k : Column} {v : Value} {row : Row} {f : Fault}

theorem prepare_eq_ok {r : Request} {s : Statement} (answered : e.statement r = .ok s) :
    e.prepare r = .ok s.prepare :=
  Checks.map_eq_ok.mpr ⟨s, answered, rfl⟩

theorem prepare_eq_error {r : Request} : e.prepare r = .error f ↔ e.statement r = .error f :=
  Checks.map_eq_error

theorem map_snd_values (sameLength : row.length = e.columns.length) :
    ((e.columns.map (·.name)).zip row).map (·.2) = row :=
  List.map_snd_zip (by simp [sameLength])

theorem map_snd_valuesExcept (sameLength : row.length = e.columns.length) (key : Nat) :
    (e.valuesExcept key row).map (·.2) = row.eraseIdx key := by
  unfold valuesExcept
  rw [← List.eraseIdx_map, map_snd_values sameLength]

/-- A row of the right length is inserted with its values, less a key that storage is to choose. -/
theorem exists_prepare_insert (keyed : e.keyIndex? = some key) (sameLength : row.length = e.columns.length)
    (mode : Conflict) : ∃ p, e.prepare (.insert mode row) = .ok p ∧
      p.params = if e.lacksKey key row then row.eraseIdx key else row := by
  have inserted : e.insertion mode row = .ok _ := (insertion_eq_ok keyed).mpr ⟨sameLength, rfl⟩
  refine ⟨_, prepare_eq_ok (Checks.map_eq_ok.mpr ⟨_, inserted, rfl⟩), ?_⟩
  rw [prepare_params]
  cases e.lacksKey key row with
  | false => exact map_snd_values sameLength
  | true => exact map_snd_valuesExcept sameLength key

section Keys

variable (keyed : e.keyIndex? = some key) (column : e.columns[key]? = some k)
include keyed column

/-- A row is updated under a key of the kind of the key column, which is bound behind the other values. -/
theorem exists_prepare_revise (value : row[key]? = some v) (sameLength : row.length = e.columns.length)
    (kind : v.kind? = some k.kind) : ∃ p, e.prepare (.revise row) = .ok p ∧
      p.params = (if e.columns.length = 1 then [v] else row.eraseIdx key) ++ [v] := by
  have revised := (revision_eq_ok keyed column value sameLength).mpr ⟨kind, rfl⟩
  refine ⟨_, prepare_eq_ok (Checks.map_eq_ok.mpr ⟨_, revised, rfl⟩), ?_⟩
  rw [prepare_params]
  by_cases single : e.columns.length = 1
  · simp [single, operands, Test.operands]
  · simp [single, operands, Test.operands, map_snd_valuesExcept sameLength]

/-- A row with another key is refused for it. -/
theorem prepare_revise_eq_error (value : row[key]? = some v) (sameLength : row.length = e.columns.length)
    (other : v.kind? ≠ some k.kind) : e.prepare (.revise row) = .error (.badKey e.name k.kind (.wrongKind v)) := by
  have index : e.requireKey = .ok key := requireKey_eq_ok.mpr keyed
  have long : e.requireLength row = .ok () := requireLength_eq_ok.mpr sameLength
  have refused : e.requireKeyValue v = .error (.badKey e.name k.kind (.wrongKind v)) := by
    rw [requireKeyValue_eq keyed column, if_neg other]
  rw [prepare_eq_error]
  refine Checks.map_eq_error.mpr ?_
  unfold revision
  simp [long, index, value, refused, bind, Except.bind]

/-- A key of the kind of the key column is looked up and removed, and it is all that is bound. -/
theorem exists_prepare_key (kind : v.kind? = some k.kind) :
    (∃ p, e.prepare (.lookup v) = .ok p ∧ p.params = [v]) ∧ ∃ p, e.prepare (.remove v) = .ok p ∧ p.params = [v] := by
  have known : e.requireKeyValue v = .ok k := (requireKeyValue_eq_ok keyed column).mpr ⟨kind, rfl⟩
  constructor
  · refine ⟨_, prepare_eq_ok (Checks.map_eq_ok.mpr ⟨_, Checks.bind_eq_ok.mpr ⟨k, known, rfl⟩, rfl⟩), ?_⟩
    simp [prepare_params, operands, Test.operands, pageValues]
  · refine ⟨_, prepare_eq_ok (Checks.map_eq_ok.mpr ⟨_, Checks.bind_eq_ok.mpr ⟨k, known, rfl⟩, rfl⟩), ?_⟩
    simp [prepare_params, operands, Test.operands]

end Keys

/-- The row of an instance of a valid entity is inserted in every mode, with all its values but an absent key. The key
is absent only where storage is to choose it; then an update is refused for the absent key, and otherwise the row is
updated. A key that is not absent is looked up and removed, and it is all that is bound. -/
theorem accepted_rows (valid : e.Valid) {α : Type} (m : Mapping α) (a : α) (encoded : e.encode (m.field a) = .ok row) :
    ∃ (key : Nat) (k : Column) (v : Value),
      e.keyIndex? = some key ∧ e.columns[key]? = some k ∧ row[key]? = some v ∧
      (∀ mode, ∃ p, e.prepare (.insert mode row) = .ok p ∧
        p.params = if e.autoincrement = true ∧ v = .null then row.eraseIdx key else row) ∧
      (¬ (e.autoincrement = true ∧ v = .null) → ∃ p, e.prepare (.revise row) = .ok p ∧
        p.params = (if e.columns.length = 1 then [v] else row.eraseIdx key) ++ [v]) ∧
      (e.autoincrement = true ∧ v = .null →
        e.prepare (.revise row) = .error (.badKey e.name .integer (.wrongKind .null))) ∧
      (v ≠ .null → (∃ p, e.prepare (.lookup v) = .ok p ∧ p.params = [v]) ∧
        ∃ p, e.prepare (.remove v) = .ok p ∧ p.params = [v]) := by
  obtain ⟨key, k, keyAt⟩ := valid.keyAt
  have fits := fits_of_encode keyAt encoded
  have inside : key < row.length := by
    rw [fits.length]
    exact (List.getElem?_eq_some_iff.mp keyAt.column).1
  have value : row[key]? = some row[key] := List.getElem?_eq_getElem inside
  have lacks : e.lacksKey key row = true ↔ e.autoincrement = true ∧ row[key] = .null := by
    rw [lacksKey_iff, value, Option.some.injEq]
  have kind : ¬ (e.autoincrement = true ∧ row[key] = .null) → row[key].kind? = some k.kind := by
    intro chosen
    obtain ⟨v, same, kind⟩ := keyAt.value_of_fits fits (Bool.eq_false_iff.mpr (mt lacks.mp chosen))
    rwa [Option.some.inj (value.symm.trans same)]
  refine ⟨key, k, row[key], keyAt.index, keyAt.column, value, ?_, ?_, ?_, ?_⟩
  · intro mode
    simpa only [lacks] using exists_prepare_insert keyAt.index fits.length mode
  · intro chosen
    exact exists_prepare_revise keyAt.index keyAt.column value fits.length (kind chosen)
  · rintro ⟨auto, absent⟩
    rw [absent] at value
    rw [← keyAt.counted auto]
    exact prepare_revise_eq_error keyAt.index keyAt.column value fits.length (by simp [Value.kind?])
  · intro present
    exact exists_prepare_key keyAt.index keyAt.column (kind fun both => present both.2)

/-- A note whose key stands behind its text and is still unset, and then the note with a key. -/
theorem accepted_rows_note :
    let e : Entity := { name := "Note", autoincrement := true, columns := [
      { name := "text", kind := .text }, { name := "id", kind := .integer, isKey := true }] }
    let a : List (String × Value) := [("id", .integer 0), ("text", .text "a")]
    let b : List (String × Value) := [("id", .integer 7), ("text", .text "a")]
    e.Valid ∧ e.encode ((Mapping.values e).field a) = .ok [.text "a", .null] ∧
      e.encode ((Mapping.values e).field b) = .ok [.text "a", .integer 7] ∧
      (∃ p, e.prepare (.insert .ignore [.text "a", .null]) = .ok p ∧ p.params = [.text "a"]) ∧
      e.prepare (.revise [.text "a", .null]) = .error (.badKey "Note" .integer (.wrongKind .null)) ∧
      (Fault.badKey "Note" .integer (.wrongKind .null)).message =
        "key for entity 'Note' must be integer, found null" ∧
      (∃ p, e.prepare (.revise [.text "a", .integer 7]) = .ok p ∧ p.params = [.text "a", .integer 7]) ∧
      ∃ p, e.prepare (.remove (.integer 7)) = .ok p ∧ p.params = [.integer 7] := by
  intro e a b
  have valid : e.Valid := violations_eq_nil.mp (by decide +kernel)
  have unset : e.encode ((Mapping.values e).field a) = .ok [.text "a", .null] := by decide +kernel
  have set : e.encode ((Mapping.values e).field b) = .ok [.text "a", .integer 7] := by decide +kernel
  have index : e.keyIndex? = some 1 := rfl
  obtain ⟨key, k, v, keyed, _, value, inserted, _, refused, _⟩ := accepted_rows valid _ a unset
  obtain rfl := Option.some.inj (index.symm.trans keyed)
  obtain rfl := Option.some.inj value
  obtain ⟨key', k', v', keyed', _, value', _, revised, _, found⟩ := accepted_rows valid _ b set
  obtain rfl := Option.some.inj (index.symm.trans keyed')
  obtain rfl := Option.some.inj value'
  refine ⟨valid, unset, set, inserted .ignore, refused ⟨rfl, rfl⟩, rfl, ?_, (found (by decide)).2⟩
  exact revised (by decide)

end Tabular.Entity
