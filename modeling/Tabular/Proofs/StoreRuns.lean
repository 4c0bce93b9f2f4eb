import Tabular.Proofs.DatabaseStatements
import Tabular.Proofs.Sessions
import Tabular.Store

/-!
# Runs of a store

What a program does with a store is a run of operations on the instances of any types. An operation leaves the
database as it was, or it has carried out one statement that was checked against a registered entity
(`after_eq_or_change`), also when it then stops with a fault. What every such statement keeps therefore holds
of every database that is reached (`Reaches.invariant`).
-/

namespace Tabular.Store

open Sql Session

/-- An operation of a store, with what it is called with. -/
inductive Operation : Type 1
  | insert {α : Type} (m : Mapping α) (a : α)
  | insertWith {α : Type} (m : Mapping α) (a : α) (mode : Conflict)
  | persist {α : Type} (m : Mapping α) (a : α)
  | find {α : Type} (m : Mapping α) (key : Value)
  | findReferenced {α β : Type} (m : Mapping α) (a : α) (column : String) (target : Mapping β)
  | all {α : Type} (m : Mapping α)
  | select {α : Type} (m : Mapping α) (q : Query)
  | first {α : Type} (m : Mapping α) (q : Query)
  | count {α : Type} (m : Mapping α)
  | countWhere {α : Type} (m : Mapping α) (conds : List Condition)
  | update {α : Type} (m : Mapping α) (a : α)
  | updateWhere {α : Type} (m : Mapping α) (values : List (String × Value)) (conds : List Condition)
  | delete {α : Type} (m : Mapping α) (key : Value)
  | deleteWhere {α : Type} (m : Mapping α) (conds : List Condition)

/-- The database that an operation leaves, whether it succeeds or not. -/
def Operation.after (s : Schema) (db : Database) : Operation → Database
  | insert m a => (Store.insert s m a).after db
  | insertWith m a mode => (Store.insertWith s m a mode).after db
  | persist m a => (Store.persist s m a).after db
  | find m key => (Store.find s m key).after db
  | findReferenced m a column target => (Store.findReferenced s m a column target).after db
  | all m => (Store.all s m).after db
  | select m q => (Store.select s m q).after db
  | first m q => (Store.first s m q).after db
  | count m => (Store.count s m).after db
  | countWhere m conds => (Store.countWhere s m conds).after db
  | update m a => (Store.update s m a).after db
  | updateWhere m values conds => (Store.updateWhere s m values conds).after db
  | delete m key => (Store.delete s m key).after db
  | deleteWhere m conds => (Store.deleteWhere s m conds).after db

/-- The databases that runs of operations lead to, from a database at the start. -/
inductive Reaches (s : Schema) (start : Database) : Database → Prop
  | refl : Reaches s start start
  | next {db : Database} (o : Operation) (reached : Reaches s start db) : Reaches s start (o.after s db)

variable {s : Schema} {e : Entity} {α : Type} {m : Mapping α} {db db' : Database}

/-- A statement on the table of a registered entity that was carried out, after the checks that the store
makes. -/
inductive Change (s : Schema) (db : Database) : Database → Prop
  | inserted {e : Entity} {field : String → Option Value} {row : Row} {mode : Conflict} {i : Insertion}
      {id : Option Int64} {db' : Database} (known : e ∈ s.entities) (encoded : e.encode field = .ok row)
      (asked : e.insertion mode row = .ok i)
      (done : db.insert i.mode i.table (Database.cellsOf i.values) = .ok (id, db')) : Change s db db'
  | revised {e : Entity} {field : String → Option Value} {row : Row} {q : Revision} {n : Nat} {db' : Database}
      (known : e ∈ s.entities) (encoded : e.encode field = .ok row) (asked : e.revision row = .ok q)
      (done : db.update q = .ok (n, db')) : Change s db db'
  | assigned {e : Entity} {values : List (String × Value)} {conds : List Condition} {q : Revision} {n : Nat}
      {db' : Database} (known : e ∈ s.entities) (asked : e.revisionWhere values conds = .ok q)
      (done : db.update q = .ok (n, db')) : Change s db db'
  | removed {e : Entity} {q : Removal} {n : Nat} {db' : Database} (known : e ∈ s.entities)
      (table : q.table = e.tableName) (done : db.delete q = .ok (n, db')) : Change s db db'

theorem mem_of_describe {name : String} (described : s.describe name = .ok e) : e ∈ s.entities := by
  rw [Schema.describe] at described
  cases found : s.find? name with
  | none => simp [found] at described
  | some d =>
    obtain rfl : d = e := by simpa [found] using described
    rw [Schema.find?, Option.bind_eq_some_iff] at found
    obtain ⟨i, _, here⟩ := found
    exact List.mem_of_getElem? here

theorem allows_addRow {field : String → Option Value} {row : Row} {mode : Conflict} {i : Insertion}
    (known : e ∈ s.entities) (encoded : e.encode field = .ok row) (asked : e.insertion mode row = .ok i) :
    (addRow i).Allows (Change s) :=
  .execute fun _ _ _ done => .inserted known encoded asked done

theorem allows_insertWith (a : α) (mode : Conflict) : (insertWith s m a mode).Allows (Change s) :=
  .mapped_bind fun _ described => .mapped_bind fun _ encoded => .mapped_bind fun _ asked =>
    allows_addRow (mem_of_describe described) encoded asked

theorem allows_persist (a : α) : (persist s m a).Allows (Change s) := by
  refine .mapped_bind fun e described => .mapped_bind fun row encoded => .mapped_bind fun i asked => ?_
  -- What follows the insertion may fail, and the row stays.
  refine (allows_addRow (mem_of_describe described) encoded asked).bind_reading fun id => ?_
  exact (reading_mapped _).bind fun _ => reading_mapped _

theorem allows_update (a : α) : (update s m a).Allows (Change s) :=
  .mapped_bind fun _ described => .mapped_bind fun _ encoded => .mapped_bind fun _ asked =>
    .execute fun _ _ _ done => .revised (mem_of_describe described) encoded asked done

theorem allows_updateWhere (values : List (String × Value)) (conds : List Condition) :
    (updateWhere s m values conds).Allows (Change s) :=
  .mapped_bind fun _ described => .mapped_bind fun _ asked =>
    .execute fun _ _ _ done => .assigned (mem_of_describe described) asked done

theorem table_of_removal {key : Value} {q : Removal} (asked : e.removal key = .ok q) : q.table = e.tableName := by
  obtain ⟨c, _, answer⟩ := Checks.bind_eq_ok.mp asked
  obtain rfl := Except.ok.inj answer
  rfl

theorem table_of_removalWhere {conds : List Condition} {q : Removal} (asked : e.removalWhere conds = .ok q) :
    q.table = e.tableName := by
  obtain ⟨accepted, _, answer⟩ := Checks.bind_eq_ok.mp asked
  obtain rfl := Except.ok.inj answer
  rfl

theorem allows_delete (key : Value) : (delete s m key).Allows (Change s) :=
  .mapped_bind fun _ described => .mapped_bind fun _ asked =>
    .execute fun _ _ _ done => .removed (mem_of_describe described) (table_of_removal asked) done

theorem allows_deleteWhere (conds : List Condition) : (deleteWhere s m conds).Allows (Change s) :=
  .mapped_bind fun _ described => .mapped_bind fun _ asked =>
    .execute fun _ _ _ done => .removed (mem_of_describe described) (table_of_removalWhere asked) done

theorem reading_entity : (entity s m).Reading :=
  reading_mapped _

theorem reading_loadAll (e : Entity) (q : Selection) : (loadAll m e q).Reading := by
  refine (reading_ask _).bind fun rows => ?_
  cases rows.mapM (e.load m) with
  | ok instances => exact reading_pure instances
  | error f => exact reading_throw f

theorem reading_find (key : Value) : (find s m key).Reading := by
  refine reading_entity.bind fun e => (reading_mapped _).bind fun q => (reading_ask _).bind fun rows => ?_
  cases rows.getLast? with
  | none => exact reading_pure none
  | some cells =>
    dsimp only
    cases e.load m cells with
    | ok a => exact reading_pure (some a)
    | error f => exact reading_throw f

theorem reading_findReferenced {β : Type} (a : α) (column : String) (target : Mapping β) :
    (findReferenced s m a column target).Reading := by
  refine reading_entity.bind fun e => reading_entity.bind fun parent => (reading_mapped _).bind fun c => ?_
  refine Reading.refuse ?_
  cases m.field a column with
  | none => exact reading_throw _
  | some key => cases key <;> first | exact reading_pure none | exact reading_find _

theorem reading_select (q : Query) : (select s m q).Reading :=
  reading_entity.bind fun e => (reading_mapped _).bind fun q => reading_loadAll e q

theorem reading_first (q : Query) : (first s m q).Reading :=
  (reading_select q.first).bind fun found => reading_pure found.head?

theorem reading_all : (all s m).Reading :=
  reading_entity.bind fun e => (reading_mapped _).bind fun q => reading_loadAll e q

theorem reading_count : (count s m).Reading :=
  reading_entity.bind fun _ => reading_ask _

theorem reading_countWhere (conds : List Condition) : (countWhere s m conds).Reading :=
  reading_entity.bind fun _ => (reading_mapped _).bind fun _ => reading_ask _

/-- An operation leaves the database as it was, or one statement was carried out. -/
theorem after_eq_or_change (o : Operation) (db : Database) : o.after s db = db ∨ Change s db (o.after s db) := by
  cases o with
  | insert m a => exact (allows_insertWith a .unspecified).bind_reading (fun id => reading_pure (id.getD 0)) db
  | insertWith m a mode => exact allows_insertWith a mode db
  | persist m a => exact allows_persist a db
  | find m key => exact (reading_find key).allows db
  | findReferenced m a column target => exact (reading_findReferenced a column target).allows db
  | all m => exact reading_all.allows db
  | select m q => exact (reading_select q).allows db
  | first m q => exact (reading_first q).allows db
  | count m => exact reading_count.allows db
  | countWhere m conds => exact (reading_countWhere conds).allows db
  | update m a => exact allows_update a db
  | updateWhere m values conds => exact allows_updateWhere values conds db
  | delete m key => exact allows_delete key db
  | deleteWhere m conds => exact allows_deleteWhere conds db

/-! ## Runs -/

/-- What every statement keeps holds at the end of a run when it holds at the start. -/
theorem Reaches.invariant {P : Database → Prop} (kept : ∀ db db', P db → Change s db db' → P db')
    (reached : Reaches s db db') (initial : P db) : P db' := by
  induction reached with
  | refl => exact initial
  | @next db₁ o _ ih =>
    rcases after_eq_or_change o db₁ with same | change
    · rw [same]
      exact ih
    · exact kept db₁ _ ih change

end Tabular.Store
