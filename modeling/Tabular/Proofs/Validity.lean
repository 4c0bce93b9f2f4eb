import Tabular.Entity.Validity
import Mathlib.Data.List.Nodup

/-!
# Valid entities

An entity breaks no rule exactly when it is valid (`violations_eq_nil`). A valid entity has one key column, which
always has a value, and an integer one if storage chooses it (`Valid.keyAt`).
-/

namespace Tabular.Entity

open Text

variable {e : Entity}

theorem nameViolations_eq_nil {name : String} : nameViolations name = [] ↔ isIdentifier name = true := by
  simp [nameViolations]

/-- Columns break no rule when their names and targets are identifiers and no name occurs twice or in `seen`. -/
theorem columnViolations_eq_nil {seen : List String} {cs : List Column} :
    columnViolations seen cs = [] ↔
      (∀ c ∈ cs, isIdentifier c.name = true) ∧ (∀ c ∈ cs, ∀ t, c.references = some t → isIdentifier t = true) ∧
        (cs.map (·.name)).Nodup ∧ ∀ c ∈ cs, c.name ∉ seen := by
  induction cs generalizing seen with
  | nil => simp [columnViolations]
  | cons c rest ih =>
    have target : c.references.elim [] nameViolations = [] ↔ ∀ t, c.references = some t → isIdentifier t = true := by
      cases c.references with
      | none => simp
      | some table => simp [nameViolations_eq_nil]
    have fresh : (if c.name ∈ seen then [Violation.duplicateColumn c.name] else []) = [] ↔ c.name ∉ seen := by
      simp
    rw [columnViolations, List.append_eq_nil_iff, List.append_eq_nil_iff, List.append_eq_nil_iff,
      nameViolations_eq_nil, target, fresh, ih, List.map_cons, List.nodup_cons, List.forall_mem_cons,
      List.forall_mem_cons, List.forall_mem_cons]
    simp only [List.mem_cons, not_or, List.mem_map, not_exists, not_and]
    constructor
    · rintro ⟨⟨⟨named, unseen⟩, leads⟩, names, targets, distinct, others⟩
      exact ⟨⟨named, names⟩, ⟨leads, targets⟩, ⟨fun d member same => (others d member).1 same, distinct⟩, unseen,
        fun d member => (others d member).2⟩
    · rintro ⟨⟨named, names⟩, ⟨leads, targets⟩, ⟨apart, distinct⟩, unseen, others⟩
      exact ⟨⟨⟨named, unseen⟩, leads⟩, names, targets, distinct, fun d member => ⟨apart d member, others d member⟩⟩

theorem keyViolations_eq_nil {autoincrement : Bool} {keys : List Column} :
    keyViolations autoincrement keys = [] ↔
      ∃ k, keys = [k] ∧ k.nullable = false ∧ (autoincrement = true → k.kind = .integer) := by
  match keys with
  | [] => simp [keyViolations]
  | [k] => cases k.nullable <;> cases autoincrement <;> simp_all [keyViolations]
  | _ :: _ :: _ => simp [keyViolations]

/-- An entity breaks no rule exactly when it is valid. -/
theorem violations_eq_nil : e.violations = [] ↔ e.Valid := by
  rw [violations]
  by_cases blank : isBlank e.name = true
  · rw [if_pos blank]
    constructor
    · intro none
      cases none
    · intro valid
      rw [valid.name] at blank
      cases blank
  · rw [if_neg blank]
    by_cases empty : e.columns = []
    · rw [if_pos empty]
      constructor
      · intro none
        cases none
      · intro valid
        exact absurd empty valid.columns
    · rw [if_neg empty, List.append_eq_nil_iff, List.append_eq_nil_iff, nameViolations_eq_nil,
        columnViolations_eq_nil, keyViolations_eq_nil]
      constructor
      · rintro ⟨⟨table, names, targets, distinct, _⟩, key⟩
        exact ⟨by simpa using blank, empty, table, names, targets, distinct, key⟩
      · intro valid
        exact ⟨⟨valid.table, valid.identifiers, valid.targets, valid.distinct, by simp⟩, valid.key⟩

/-- A column of a valid entity is found under its name. -/
theorem Valid.columnIndex?_eq (valid : e.Valid) {i : Nat} {c : Column} (column : e.columns[i]? = some c) :
    e.columnIndex? c.name = some i := by
  obtain ⟨inside, here⟩ := List.getElem?_eq_some_iff.mp column
  rw [columnIndex?, List.findIdx?_eq_some_iff_getElem]
  refine ⟨inside, by simp [here], fun j before named => ?_⟩
  have other : (e.columns.map (·.name))[j]? = (e.columns.map (·.name))[i]? := by
    rw [List.getElem?_map, List.getElem?_map, column, List.getElem?_eq_getElem (Nat.lt_trans before inside)]
    simpa using named
  have same := (List.getElem?_inj (by simpa using Nat.lt_trans before inside) valid.distinct).mp other
  omega

theorem Valid.column?_eq (valid : e.Valid) {c : Column} (member : c ∈ e.columns) : e.column? c.name = some c := by
  have known : (e.column? c.name).isSome = true := List.find?_isSome.mpr ⟨c, member, by simp⟩
  obtain ⟨d, found⟩ := Option.isSome_iff_exists.mp known
  rw [column?] at found
  have named : d.name = c.name := by simpa using List.find?_some found
  rw [column?, found, List.inj_on_of_nodup_map valid.distinct (List.mem_of_find?_eq_some found) member named]

/-- The one key column of an entity, and its position. -/
structure KeyAt (e : Entity) (key : Nat) (k : Column) : Prop where
  index : e.keyIndex? = some key
  column : e.columns[key]? = some k
  isKey : k.isKey = true
  required : k.nullable = false
  counted : e.autoincrement = true → k.kind = .integer
  only : ∀ i c, e.columns[i]? = some c → c.isKey = true → i = key

theorem KeyAt.key?_eq {key : Nat} {k : Column} (keyAt : e.KeyAt key k) : e.key? = some k :=
  (getElem?_of_keyIndex? keyAt.index).symm.trans keyAt.column

theorem Valid.keyAt (valid : e.Valid) : ∃ key k, e.KeyAt key k := by
  obtain ⟨k, single, required, counted⟩ := valid.key
  have member : k ∈ e.columns.filter (·.isKey) := by simp [single]
  obtain ⟨known, isKey⟩ := List.mem_filter.mp member
  obtain ⟨key, column⟩ := List.getElem?_of_mem known
  have distinct : e.columns.Nodup := valid.distinct.of_map _
  have only : ∀ i c, e.columns[i]? = some c → c.isKey = true → i = key := by
    intro i c found flagged
    have same : c = k := by
      have listed : c ∈ e.columns.filter (·.isKey) := List.mem_filter.mpr ⟨List.mem_of_getElem? found, flagged⟩
      simpa [single] using listed
    have inside : i < e.columns.length := (List.getElem?_eq_some_iff.mp found).1
    exact (List.getElem?_inj inside distinct).mp (by rw [found, column, same])
  have index : e.keyIndex? = some key := by
    obtain ⟨first, found⟩ : ∃ first, e.keyIndex? = some first := by
      rw [← Option.isSome_iff_exists, keyIndex?, List.findIdx?_isSome]
      exact List.any_eq_true.mpr ⟨k, known, isKey⟩
    obtain ⟨inside, flagged, _⟩ := List.findIdx?_eq_some_iff_getElem.mp found
    rw [found, only first _ (List.getElem?_eq_getElem inside) flagged]
  exact ⟨key, k, index, column, isKey, required, counted, only⟩

end Tabular.Entity
