import Tabular.Proofs.ConditionalStatements
import Tabular.Proofs.FoundRows
import Tabular.Proofs.HostedTables

/-!
# References that are followed

The instance that a column of another instance stands for is looked up by the value of the column. A column refers to
a table whose keys are of its kind, and an instance that can be stored has a value of this kind in it or none, so that
the value is a key of the table (`followed_references`). Nothing is looked up for a column that refers to another
table or to none.
-/

namespace Tabular

open Sql

namespace Entity

/-- What a column of an instance, which has the given fields, asks the table of another entity for: nothing, or the
rows with a key. -/
def referral (e parent : Entity) (field : String → Option Value) (column : String) :
    Except Fault (Option Selection) := do
  let c ← e.requireColumn column
  if c.references ≠ some parent.tableName then
    throw (.badQuery e.name (.notReferencing column parent.tableName))
  match field column with
  | some .null => return none
  | some key => some <$> parent.lookup key
  | none => throw (.missingField e.name column)

def referred {α : Type} (e : Entity) (μ : Mapping α) (db : Database) : Option Selection → Except StoreFault (Option α)
  | none => .ok none
  | some q => (db.select q).mapError .database >>= e.loadLast μ

/-- What a reference asks for: nothing if the entity has no such column or the column does not refer to the table, each
a fault of its own; nothing if the instance has no value there; or else the rows whose key is the value, which is of
the kind of the keys. -/
inductive Follows (e parent : Entity) (field : String → Option Value) (column : String) :
    Except Fault (Option Selection) → Prop
  | unknown (missing : e.column? column = none) : Follows e parent field column (.error (.unknownColumn e.name column))
  | other {c : Column} (found : e.column? column = some c) (other : c.references ≠ some parent.tableName) :
      Follows e parent field column (.error (.badQuery e.name (.notReferencing column parent.tableName)))
  | absent {c : Column} (found : e.column? column = some c) (refers : c.references = some parent.tableName)
      (absent : field column = some .null) : Follows e parent field column (.ok none)
  | key {c k : Column} {v : Value} (found : e.column? column = some c) (refers : c.references = some parent.tableName)
      (given : field column = some v) (keyed : parent.key? = some k) (kind : v.kind? = some k.kind) :
      Follows e parent field column (.ok (some
        ⟨parent.tableName, parent.columns.map (·.name), [⟨k.name, .compare .equal v⟩], [], {}⟩))

variable {e parent : Entity} {field : String → Option Value} {column : String} {key i : Nat} {c k : Column} {row : Row}

/-- The fields of an instance that can be stored are of the kinds of their columns, unless they are absent. -/
theorem kind_of_encode (keyAt : e.KeyAt key k) (encoded : e.encode field = .ok row) (column : e.columns[i]? = some c) :
    ∃ v, field c.name = some v ∧ (v = .null ∨ v.kind? = some c.kind) := by
  obtain ⟨v, given, _, stored⟩ := value_of_encode keyAt encoded column
  refine ⟨v, given, ?_⟩
  have accepted := (fits_of_encode keyAt encoded).accepted i c _ column stored
  by_cases unset : e.fillsKey key i = true ∧ v = .integer unsetKey
  · -- A key that is not set yet is an integer, as the keys that storage chooses are.
    obtain ⟨fills, rfl⟩ := unset
    obtain ⟨auto, rfl⟩ : e.autoincrement = true ∧ i = key := by simpa [fillsKey] using fills
    obtain rfl : k = c := Option.some.inj (keyAt.column.symm.trans column)
    rw [keyAt.counted auto]
    exact .inr rfl
  · rw [if_neg unset] at accepted
    rcases accepts_iff.mp accepted with kind | ⟨absent, _⟩
    · exact .inr kind
    · exact .inl absent

end Entity

theorem Schema.Consistent.kind_of_references {s : Schema} {e parent : Entity} {c : Column} (consistent : s.Consistent)
    (known : e ∈ s.entities) (member : c ∈ e.columns) (target : parent ∈ s.entities)
    (refers : c.references = some parent.tableName) : ∃ k, parent.key? = some k ∧ k.kind = c.kind := by
  obtain ⟨i, here⟩ := List.getElem?_of_mem known
  obtain ⟨l, there⟩ := List.getElem?_of_mem target
  obtain ⟨j, d, k, _, found, _, key, kind, only⟩ := consistent.references i e c _ here member refers
  obtain rfl := only l parent there rfl
  obtain rfl : parent = d := Option.some.inj (there.symm.trans found)
  exact ⟨k, key, kind⟩

namespace Entity

variable {e parent : Entity} {field : String → Option Value} {column : String} {c : Column}
  {x : Except Fault (Option Selection)}

theorem referral_eq (found : e.column? column = some c) (parent : Entity) (field : String → Option Value) :
    e.referral parent field column =
      if c.references ≠ some parent.tableName then .error (.badQuery e.name (.notReferencing column parent.tableName))
      else match field column with
        | some .null => .ok none
        | some key => some <$> parent.lookup key
        | none => .error (.missingField e.name column) := by
  rw [referral, requireColumn_eq_ok.mpr found]
  rfl

theorem Follows.referral_eq (valid : parent.Valid) (follows : e.Follows parent field column x) :
    e.referral parent field column = x := by
  cases follows with
  | unknown missing =>
    rw [referral, requireColumn_eq_error.mpr ⟨missing, rfl⟩]
    rfl
  | other found other => rw [Entity.referral_eq found, if_pos other]
  | absent found refers absent => rw [Entity.referral_eq found, if_neg (not_not_intro refers), absent]
  | @key c k v found refers given keyed kind =>
    obtain ⟨key, k', keyAt⟩ := valid.keyAt
    obtain rfl : k = k' := Option.some.inj (keyed.symm.trans keyAt.key?_eq)
    rw [Entity.referral_eq found, if_neg (not_not_intro refers), given]
    have asked : some <$> parent.lookup v = .ok (some
        ⟨parent.tableName, parent.columns.map (·.name), [⟨k.name, .compare .equal v⟩], [], {}⟩) := by
      rw [Store.lookup_eq keyAt kind]
      rfl
    cases v with
    | null => cases kind
    | integer n => exact asked
    | text t => exact asked
    | timestamp t => exact asked

theorem exists_follows {s : Schema} {row : Row} (consistent : s.Consistent) (known : e ∈ s.entities)
    (target : parent ∈ s.entities) (encoded : e.encode field = .ok row) (column : String) :
    ∃ x, e.Follows parent field column x := by
  cases found : e.column? column with
  | none => exact ⟨_, .unknown found⟩
  | some c =>
    by_cases refers : c.references = some parent.tableName
    · have member := List.mem_of_find?_eq_some found
      obtain ⟨i, here⟩ := List.getElem?_of_mem member
      obtain ⟨key, k', keyAt⟩ := consistent.keyAt known
      obtain ⟨k, keyed, same⟩ := consistent.kind_of_references known member target refers
      obtain ⟨v, given, suits⟩ := kind_of_encode keyAt encoded here
      rw [name_of_column? found] at given
      rcases suits with rfl | kind
      · exact ⟨_, .absent found refers given⟩
      · exact ⟨_, .key found refers given keyed (kind.trans (congrArg some same.symm))⟩
    · exact ⟨_, .other found refers⟩

end Entity

namespace Store

open Session

variable {α β : Type} {s : Schema} {μ : Mapping α} {ν : Mapping β} {e parent : Entity} {db : Database} {a : α}
  {row : Row} {column : String}

/-- What a reference leads to is decided in two steps: what is asked, which needs no database, and the answer. -/
theorem outcome_findReferenced (described : s.describe μ.name = .ok e) (target : s.describe ν.name = .ok parent)
    (a : α) (column : String) (db : Database) : (findReferenced s μ a column ν).outcome db =
      ((e.referral parent (μ.field a) column).mapError .mapping >>= parent.referred ν db, db) := by
  rw [findReferenced, outcome_bind, entity, outcome_mapped, described]
  show outcome _ db = _
  rw [outcome_bind, entity, outcome_mapped, target]
  show outcome _ db = _
  rw [outcome_bind, outcome_mapped]
  have asked (key : Value) : (find s ν key).outcome db =
      ((some <$> parent.lookup key).mapError .mapping >>= parent.referred ν db, db) := by
    rw [outcome_find_lookup target]
    cases parent.lookup key <;> rfl
  cases found : e.column? column with
  | none =>
    rw [Entity.referral, Entity.requireColumn_eq_error.mpr ⟨found, rfl⟩]
    rfl
  | some c =>
    rw [Entity.referral_eq found, Entity.requireColumn_eq_ok.mpr found]
    show outcome (if c.references ≠ some parent.tableName then _ else _) db = _
    by_cases other : c.references ≠ some parent.tableName
    · rw [if_pos other, if_pos other]
      rfl
    · rw [if_neg other, if_neg other]
      cases μ.field a column with
      | none => rfl
      | some key =>
        cases key with
        | null => rfl
        | integer n => exact asked _
        | text t => exact asked _
        | timestamp t => exact asked _

/-- A reference of an instance that can be stored meets no key of a wrong kind and no field that is missing: it is
refused if the entity has no such column or the column does not refer to the table, and for no other reason. It leads
to nothing, whatever is in the database, if the instance has no value there, and otherwise to the instance in the
rows of the table whose key is the value, which is of the kind of the keys. -/
theorem followed_references (reached : s.Reachable) (described : s.describe μ.name = .ok e)
    (target : s.describe ν.name = .ok parent) (encoded : e.encode (μ.field a) = .ok row) (column : String) :
    (∀ db, (findReferenced s μ a column ν).outcome db =
      ((e.referral parent (μ.field a) column).mapError .mapping >>= parent.referred ν db, db)) ∧
    ∀ x, e.referral parent (μ.field a) column = x ↔ e.Follows parent (μ.field a) column x := by
  have consistent := reached.consistent
  have known := mem_of_describe target
  have valid := Entity.violations_eq_nil.mp (consistent.valid parent known)
  obtain ⟨x, follows⟩ := Entity.exists_follows consistent (mem_of_describe described) known encoded column
  refine ⟨outcome_findReferenced described target a column, fun y => ⟨?_, fun other => other.referral_eq valid⟩⟩
  rintro rfl
  rwa [follows.referral_eq valid]

/-- A note refers to the tag 7, or to none. -/
theorem followed_references_note :
    let tag : Entity := { name := "Tag", columns := [{ name := "id", kind := .integer, isKey := true }] }
    let note : Entity := { name := "Note", columns := [{ name := "id", kind := .integer, isKey := true },
      { name := "tag", kind := .integer, nullable := true, references := some "Tag" }] }
    let s : Schema := ⟨[tag, note], [("Note", 1), ("Tag", 0)]⟩
    let named : String → Mapping (List (String × Value)) := fun name => ⟨name, fun a c => a.lookup c, fun _ => .ok []⟩
    let a : List (String × Value) := [("id", .integer 1), ("tag", .integer 7)]
    let b : List (String × Value) := [("id", .integer 2), ("tag", .null)]
    s.Reachable ∧ s.describe "Note" = .ok note ∧ s.describe "Tag" = .ok tag ∧
      note.encode (a.lookup ·) = .ok [.integer 1, .integer 7] ∧ note.encode (b.lookup ·) = .ok [.integer 2, .null] ∧
      note.Follows tag (a.lookup ·) "tag"
        (.ok (some ⟨"Tag", ["id"], [⟨"id", .compare .equal (.integer 7)⟩], [], {}⟩)) ∧
      note.Follows tag (a.lookup ·) "id" (.error (.badQuery "Note" (.notReferencing "id" "Tag"))) ∧
      note.Follows tag (a.lookup ·) "color" (.error (.unknownColumn "Note" "color")) ∧
      ∀ db, (findReferenced s (named "Note") b "tag" (named "Tag")).outcome db = (.ok none, db) := by
  intro tag note s named a b
  have made : Schema.ofEntities [tag, note] = .ok s := by decide +kernel
  have reached : s.Reachable := .listed _ made
  have described : s.describe (named "Note").name = .ok note := by decide +kernel
  have target : s.describe (named "Tag").name = .ok tag := by decide +kernel
  have first : note.encode ((named "Note").field a) = .ok [.integer 1, .integer 7] := by decide +kernel
  have second : note.encode ((named "Note").field b) = .ok [.integer 2, .null] := by decide +kernel
  have follows (column : String) (x : Except Fault (Option Selection)) :=
    (followed_references reached described target first column).2 x
  obtain ⟨leads, _⟩ := followed_references reached described target second "tag"
  refine ⟨reached, described, target, first, second, (follows "tag" _).mp ?_, (follows "id" _).mp ?_,
    (follows "color" _).mp ?_, leads⟩
  · decide +kernel
  · decide +kernel
  · decide +kernel

end Store

end Tabular
