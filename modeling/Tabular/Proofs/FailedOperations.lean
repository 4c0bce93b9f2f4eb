import Tabular.Proofs.Registration
import Tabular.Proofs.StoredInstances

/-!
# Operations that fail

What a store checks, it checks before its one statement, and a statement that fails has no effect. So an operation
that stops with a fault leaves the database as it was, whatever the fault. There is one exception
(`after_of_fault`): an instance that is persisted is built again from its row after the row was stored, by a
function of the program, and a row whose instance that function refuses to build stays.
-/

namespace Tabular

namespace Session

variable {α β : Type} {db : Database} {f : StoreFault}

/-- The fault that a session stops with, if it does. -/
def fault? (x : Session α) (db : Database) : Option StoreFault :=
  match (x.outcome db).1 with
  | .ok _ => none
  | .error f => some f

theorem fault?_eq_some {x : Session α} : x.fault? db = some f ↔ x.outcome db = (.error f, x.after db) := by
  rw [fault?, after]
  rcases x.outcome db with ⟨_ | _, _⟩
  · simp
  · simp

/-- A session that leaves the database as it was when it stops with a fault. -/
def AllOrNothing (x : Session α) : Prop :=
  ∀ db f db', x.outcome db = (.error f, db') → db' = db

theorem AllOrNothing.after_eq {x : Session α} (whole : x.AllOrNothing) (failed : x.fault? db = some f) :
    x.after db = db :=
  whole db f _ (fault?_eq_some.mp failed)

theorem allOrNothing_execute (statement : Database → Except DatabaseFault (α × Database)) :
    AllOrNothing (execute statement) := by
  intro db f db' failed
  obtain ⟨_, _, _, kept⟩ := execute_eq_error.mp failed
  exact kept

/-- What is checked first is checked before anything is changed. -/
theorem AllOrNothing.mapped_bind {r : Except Fault α} {next : α → Session β} (rest : ∀ a, (next a).AllOrNothing) :
    AllOrNothing (mapped r >>= next) := by
  intro db f db' failed
  rcases mapped_bind_eq_error.mp failed with ⟨_, _, _, kept⟩ | ⟨a, _, later⟩
  · exact kept
  · exact rest a db f db' later

/-- To put the answer of a session in other words adds no faults to it. -/
theorem AllOrNothing.bind_pure {x : Session α} (whole : x.AllOrNothing) (answer : α → β) :
    AllOrNothing (x >>= fun a => pure (answer a)) := by
  intro db f db' failed
  rcases bind_eq_error.mp failed with refused | ⟨_, _, _, later⟩
  · exact whole db f db' refused
  · cases later

end Session

namespace Store

open Sql Session

variable {s : Schema} {db db' : Database} {α : Type} {m : Mapping α} {f : StoreFault}

/-- The fault that an operation stops with, if it does. -/
def Operation.fault? (s : Schema) (db : Database) : Operation → Option StoreFault
  | insert m a => (Store.insert s m a).fault? db
  | insertWith m a mode => (Store.insertWith s m a mode).fault? db
  | persist m a => (Store.persist s m a).fault? db
  | find m key => (Store.find s m key).fault? db
  | findReferenced m a column target => (Store.findReferenced s m a column target).fault? db
  | all m => (Store.all s m).fault? db
  | select m q => (Store.select s m q).fault? db
  | first m q => (Store.first s m q).fault? db
  | count m => (Store.count s m).fault? db
  | countWhere m conds => (Store.countWhere s m conds).fault? db
  | update m a => (Store.update s m a).fault? db
  | updateWhere m values conds => (Store.updateWhere s m values conds).fault? db
  | delete m key => (Store.delete s m key).fault? db
  | deleteWhere m conds => (Store.deleteWhere s m conds).fault? db

theorem allOrNothing_insertWith (a : α) (mode : Conflict) : (insertWith s m a mode).AllOrNothing :=
  .mapped_bind fun _ => .mapped_bind fun _ => .mapped_bind fun _ => allOrNothing_execute _

theorem allOrNothing_update (a : α) : (update s m a).AllOrNothing :=
  .mapped_bind fun _ => .mapped_bind fun _ => .mapped_bind fun _ => allOrNothing_execute _

theorem allOrNothing_updateWhere (values : List (String × Value)) (conds : List Condition) :
    (updateWhere s m values conds).AllOrNothing :=
  .mapped_bind fun _ => .mapped_bind fun _ => allOrNothing_execute _

theorem allOrNothing_delete (key : Value) : (delete s m key).AllOrNothing :=
  .mapped_bind fun _ => .mapped_bind fun _ => allOrNothing_execute _

theorem allOrNothing_deleteWhere (conds : List Condition) : (deleteWhere s m conds).AllOrNothing :=
  .mapped_bind fun _ => .mapped_bind fun _ => allOrNothing_execute _

/-- An instance is not persisted because its row is not stored, or because it cannot be built again from the fields
of its row. -/
theorem persist_eq_error (consistent : s.Consistent) {a : α} (failed : (persist s m a).outcome db = (.error f, db')) :
    db' = db ∨ ∃ e key row id fields fault, s.describe m.name = .ok e ∧ e.keyIndex? = some key ∧
      e.encode (m.field a) = .ok row ∧ (insert s m a).outcome db = (.ok id, db') ∧
      e.fields (e.withKey key id row) = .ok fields ∧ m.build fields = .error fault ∧ f = .mapping fault := by
  rcases mapped_bind_eq_error.mp failed with ⟨_, _, _, kept⟩ | ⟨e, described, failed⟩
  · exact .inl kept
  rcases mapped_bind_eq_error.mp failed with ⟨_, _, _, kept⟩ | ⟨row, encoded, failed⟩
  · exact .inl kept
  rcases mapped_bind_eq_error.mp failed with ⟨_, _, _, kept⟩ | ⟨asked, accepted, failed⟩
  · exact .inl kept
  rcases bind_eq_error.mp failed with refused | ⟨done, db₁, stored, failed⟩
  · exact .inl (allOrNothing_execute _ _ _ _ refused)
  -- From here on the row is stored, and it is opened again with the key that it has now.
  obtain ⟨key, k, keyAt⟩ := consistent.keyAt (mem_of_describe described)
  have fits := Entity.fits_of_encode keyAt encoded
  have assigned : e.assignKey row (done.getD 0) = .ok (e.lacksKey key row, e.withKey key (done.getD 0) row) :=
    (Entity.assignKey_eq_ok keyAt.index).mpr ⟨fits.length, rfl⟩
  have opened : e.fields (e.withKey key (done.getD 0) row) = .ok _ :=
    Entity.fields_eq_ok.mpr ⟨key, keyAt.index, Entity.fits_withKey _ keyAt fits, rfl⟩
  rcases mapped_bind_eq_error.mp failed with ⟨_, unassigned, _⟩ | ⟨taken, assigned', failed⟩
  · rw [assigned] at unassigned
    cases unassigned
  · obtain rfl := Except.ok.inj (assigned.symm.trans assigned')
    obtain ⟨fault, refused, rfl, rfl⟩ := mapped_eq_error.mp failed
    rw [Entity.decode, opened] at refused
    have inserted : (insertWith s m a .unspecified).outcome db = (.ok done, db') :=
      insertWith_eq_ok.mpr ⟨e, row, asked, described, encoded, accepted, execute_eq_ok.mp stored⟩
    exact .inr ⟨e, key, row, done.getD 0, _, fault, described, keyAt.index, encoded,
      insert_eq_ok.mpr ⟨done, inserted, rfl⟩, opened, refused, rfl⟩

/-! ## Any operation -/

/-- An operation that stops with a fault has no effect, unless an instance is persisted that cannot be built again
from the fields of its row: then the fault is that of the building, and the row stays as an insertion of the
instance leaves it. -/
theorem after_of_fault (reachable : s.Reachable) (o : Operation) (failed : o.fault? s db = some f) :
    o.after s db = db ∨ ∃ (α : Type) (m : Mapping α) (a : α) (e : Entity) (key : Nat) (row : Row) (id : Int64)
      (fields : Fields) (fault : Fault), o = .persist m a ∧ s.describe m.name = .ok e ∧ e.keyIndex? = some key ∧
        e.encode (m.field a) = .ok row ∧ (insert s m a).outcome db = (.ok id, o.after s db) ∧
        e.fields (e.withKey key id row) = .ok fields ∧ m.build fields = .error fault ∧ f = .mapping fault := by
  cases o with
  | insert m a => exact .inl (((allOrNothing_insertWith a .unspecified).bind_pure fun id => id.getD 0).after_eq failed)
  | insertWith m a mode => exact .inl ((allOrNothing_insertWith a mode).after_eq failed)
  | persist m a =>
    rcases persist_eq_error reachable.consistent (fault?_eq_some.mp failed) with kept | stored
    · exact .inl kept
    · obtain ⟨e, key, row, id, fields, fault, rest⟩ := stored
      exact .inr ⟨_, m, a, e, key, row, id, fields, fault, rfl, rest⟩
  | find m key => exact .inl (reading_find key db)
  | findReferenced m a column target => exact .inl (reading_findReferenced a column target db)
  | all m => exact .inl (reading_all db)
  | select m q => exact .inl (reading_select q db)
  | first m q => exact .inl (reading_first q db)
  | count m => exact .inl (reading_count db)
  | countWhere m conds => exact .inl (reading_countWhere conds db)
  | update m a => exact .inl ((allOrNothing_update a).after_eq failed)
  | updateWhere m values conds => exact .inl ((allOrNothing_updateWhere values conds).after_eq failed)
  | delete m key => exact .inl ((allOrNothing_delete key).after_eq failed)
  | deleteWhere m conds => exact .inl ((allOrNothing_deleteWhere conds).after_eq failed)

/-- An integer that is stored as the id of a tag, and read back from a column that tags do not have. -/
def unreadable : Mapping Int64 where
  name := "Tag"
  field n := fun column => if column = "id" then some (.integer n) else none
  build f := f.read Int64 "name"

/-- A tag that cannot be read back is persisted with a fault, and its row stays. -/
theorem after_of_fault_unreadable :
    let tag : Entity := { name := "Tag", columns := [{ name := "id", kind := .integer, isKey := true }] }
    let s : Schema := Schema.attempt {} tag
    let db : Database := { tables := [{ definition := tag.tableDefinition }] }
    let o : Operation := .persist unreadable 7
    let f : StoreFault := .mapping (.missingField "Tag" "name")
    s.Reachable ∧ o.fault? s db = some f ∧
      o.after s db = { tables := [{ definition := tag.tableDefinition, rows := [⟨7, [.integer 7]⟩] }] } ∧
      ∃ id, (insert s unreadable 7).outcome db = (.ok id, o.after s db) := by
  intro tag s db o f
  have reachable : s.Reachable := .attempted tag .empty
  have failed : o.fault? s db = some f := by decide +kernel
  have stays : o.after s db = { tables := [{ definition := tag.tableDefinition, rows := [⟨7, [.integer 7]⟩] }] } := by
    decide +kernel
  rcases after_of_fault reachable o failed with kept | ⟨_, m, a, _, _, _, id, _, _, same, _, _, _, inserted, _⟩
  · exact absurd (kept.symm.trans stays) (by decide +kernel)
  · have same' : Operation.persist unreadable 7 = .persist m a := same
    cases same'
    exact ⟨reachable, failed, stays, id, inserted⟩

theorem after_of_fault_row_stays :
    ¬ ∀ (s : Schema) (o : Operation) (db : Database) (f : StoreFault),
      s.Reachable → o.fault? s db = some f → o.after s db = db := by
  intro unchanged
  let tag : Entity := { name := "Tag", columns := [{ name := "id", kind := .integer, isKey := true }] }
  let s : Schema := Schema.attempt {} tag
  let db : Database := { tables := [{ definition := tag.tableDefinition }] }
  have reachable : s.Reachable := .attempted tag .empty
  have failed : (Operation.persist unreadable 7).fault? s db = some (.mapping (.missingField "Tag" "name")) := by
    decide +kernel
  exact absurd (unchanged s (.persist unreadable 7) db _ reachable failed) (by decide +kernel)

end Store

end Tabular
