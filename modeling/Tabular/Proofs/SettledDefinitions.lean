import Tabular.Proofs.FirstMigration

/-!
# Definitions that have nothing left to do

A definition is settled when it would change nothing. A creation that was carried out is settled (`settled_of_define`),
and it stays so whatever else is created (`Settled.grows`). Creations that were carried out one after the other are
therefore carried out again without an effect (`settled_defineAll`, `defineAll_of_settled`).
-/

namespace Tabular.Database

open Sql Text

variable {db db' : Database} {d other : Definition} {ds : List Definition}

/-- A definition that would leave a database as it is. -/
def Settled (db : Database) (d : Definition) : Prop :=
  db.define d = .ok db

theorem settled_createTable {t : TableDefinition} :
    db.Settled (.createTable t) ↔ isReserved t.name = false ∧ (db.table? t.name).isSome = true := by
  show db.createTable t = .ok db ↔ _
  cases here : db.table? t.name with
  | some u =>
    rw [createTable_of_taken (by simp [here])]
    simp
  | none =>
    rw [createTable_of_free here]
    refine iff_of_false ?_ (by simp)
    rintro ⟨_, _, _, _, same⟩
    have longer := congrArg (fun db => db.tables.length) same
    simp [addTable] at longer

theorem isSome_of_createIndex {i : IndexDefinition} (created : db.createIndex i = .ok db') :
    (db.table? i.table).isSome = true := by
  obtain ⟨t, found, _⟩ := Checks.bind_eq_ok.mp created
  rw [require_eq_ok.mp found, Option.isSome_some]

theorem settled_createIndex {i : IndexDefinition} : db.Settled (.createIndex i) ↔
    (db.table? i.table).isSome = true ∧ db.table? i.name = none ∧ db.HasIndex i.name := by
  have taken : db.indexes.any (sameName ·.name i.name) = true ↔ db.HasIndex i.name := by
    simp only [List.any_eq_true, sameName_iff, HasIndex]
  show db.createIndex i = .ok db ↔ _
  constructor
  · intro kept
    have known := isSome_of_createIndex kept
    obtain ⟨unnamed, same⟩ := (createIndex_iff known).mp kept
    refine ⟨known, unnamed, ?_⟩
    by_contra missing
    rw [← taken] at missing
    rw [if_neg missing] at same
    have longer := congrArg (fun db => db.indexes.length) same
    simp at longer
  · rintro ⟨known, unnamed, named⟩
    exact (createIndex_iff known).mpr ⟨unnamed, by rw [if_pos (taken.mpr named)]⟩

/-- No table and no index is lost, and no table takes the name of an index. -/
structure Grows (db db' : Database) : Prop where
  tables : ∀ name, (db.table? name).isSome = true → (db'.table? name).isSome = true
  indexes : ∀ name, db.HasIndex name → db'.HasIndex name
  unnamed : ∀ name, db.HasIndex name → db.table? name = none → db'.table? name = none

theorem grows_refl (db : Database) : Grows db db :=
  ⟨fun _ => id, fun _ => id, fun _ _ => id⟩

theorem Grows.trans {between : Database} (first : Grows db between) (second : Grows between db') : Grows db db' where
  tables := fun name known => second.tables name (first.tables name known)
  indexes := fun name named => second.indexes name (first.indexes name named)
  unnamed := fun name named none => second.unnamed name (first.indexes name named) (first.unnamed name named none)

/-- A statement on the rows of a table neither makes nor drops one. -/
theorem Replaces.grows {name : String} {t t' : Table} (replaces : Replaces db db' name t t') : Grows db db' := by
  have tables : ∀ other, (db'.table? other).isSome = (db.table? other).isSome := by
    intro other
    rw [replaces.table?]
    by_cases same : foldCase other = foldCase name
    · rw [if_pos same, table?_congr same, replaces.found, Option.isSome_some, Option.isSome_some]
    · rw [if_neg same]
  refine ⟨fun other known => (tables other).trans known, fun other named => ?_, fun other _ none => ?_⟩
  · rw [replaces.replaced]
    exact named
  · rw [← Option.isNone_iff_eq_none, ← Option.not_isSome] at none ⊢
    rw [tables, none]

theorem grows_createTable {t : TableDefinition} (created : db.createTable t = .ok db') : Grows db db' := by
  cases here : db.table? t.name with
  | some u =>
    obtain ⟨_, rfl⟩ := (createTable_of_taken (by simp [here])).mp created
    exact grows_refl _
  | none =>
    have found := table?_createTable created
    obtain ⟨_, apart, _, _, rfl⟩ := (createTable_of_free here).mp created
    refine ⟨fun name known => ?_, fun _ => id, fun name named none => ?_⟩
    · rw [found, Option.isSome_or, known, Bool.true_or]
    · have different : ¬ sameName t.name name = true := by
        intro same
        obtain ⟨i, index, called⟩ := named
        exact apart i index (called.trans (sameName_iff.mp same).symm)
      rw [found, none, if_neg different, Option.or_none]

theorem grows_createIndex {i : IndexDefinition} (created : db.createIndex i = .ok db') : Grows db db' := by
  have same := table?_createIndex created
  refine ⟨fun name known => ?_, fun name named => ?_, fun name _ none => (same name).trans none⟩
  · rw [same name]
    exact known
  · exact (hasIndex_createIndex (isSome_of_createIndex created) created name).mpr (.inl named)

theorem grows_define (creating : ∀ name, other ≠ .dropTable name) (done : db.define other = .ok db') :
    Grows db db' := by
  cases other with
  | createTable t => exact grows_createTable done
  | createIndex i => exact grows_createIndex done
  | dropTable name => exact absurd rfl (creating name)

theorem Settled.grows (settled : db.Settled d) (creating : ∀ name, d ≠ .dropTable name) (grows : Grows db db') :
    db'.Settled d := by
  cases d with
  | createTable t =>
    obtain ⟨unreserved, known⟩ := settled_createTable.mp settled
    exact settled_createTable.mpr ⟨unreserved, grows.tables _ known⟩
  | createIndex i =>
    obtain ⟨known, unnamed, named⟩ := settled_createIndex.mp settled
    exact settled_createIndex.mpr ⟨grows.tables _ known, grows.unnamed _ named unnamed, grows.indexes _ named⟩
  | dropTable name => exact absurd rfl (creating name)

/-- What was carried out is settled. -/
theorem settled_of_define (creating : ∀ name, d ≠ .dropTable name) (done : db.define d = .ok db') : db'.Settled d := by
  have grows := grows_define creating done
  cases d with
  | createTable t =>
    have found := table?_createTable done t.name
    rw [if_pos (sameName_self _)] at found
    cases here : db.table? t.name with
    | some u =>
      obtain ⟨unreserved, rfl⟩ := (createTable_of_taken (by simp [here])).mp done
      exact settled_createTable.mpr ⟨unreserved, by simp [here]⟩
    | none =>
      obtain ⟨unreserved, _⟩ := (createTable_of_free here).mp done
      exact settled_createTable.mpr ⟨unreserved, by simp [found, here]⟩
  | createIndex i =>
    have known := isSome_of_createIndex done
    have named : db'.HasIndex i.name := (hasIndex_createIndex known done i.name).mpr (.inr rfl)
    obtain ⟨unnamed, _⟩ := (createIndex_iff known).mp done
    have same := table?_createIndex done i.name
    exact settled_createIndex.mpr ⟨grows.tables _ known, same.trans unnamed, named⟩
  | dropTable name => exact absurd rfl (creating name)

/-! ## Definitions in sequence -/

theorem settled_defineAll (creating : ∀ name, .dropTable name ∉ ds) (done : db.defineAll ds = .ok db') :
    Grows db db' ∧ ∀ d ∈ ds, db'.Settled d := by
  induction ds generalizing db with
  | nil =>
    obtain rfl := Except.ok.inj done
    exact ⟨grows_refl _, by simp⟩
  | cons first rest ih =>
    obtain ⟨next, made, later⟩ := Checks.bind_eq_ok.mp done
    have creates : ∀ name, first ≠ .dropTable name := by
      rintro name rfl
      exact creating name List.mem_cons_self
    obtain ⟨grown, settled⟩ := ih (fun name => List.not_mem_of_not_mem_cons (creating name)) later
    have grows := grows_define creates made
    exact ⟨grows.trans grown, List.forall_mem_cons.mpr ⟨(settled_of_define creates made).grows creates grown, settled⟩⟩

theorem defineAll_of_settled (settled : ∀ d ∈ ds, db.Settled d) : db.defineAll ds = .ok db := by
  induction ds with
  | nil => rfl
  | cons first rest ih =>
    obtain ⟨here, others⟩ := List.forall_mem_cons.mp settled
    exact Checks.bind_eq_ok.mpr ⟨db, here, ih others⟩

end Tabular.Database
