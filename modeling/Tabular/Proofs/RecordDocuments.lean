import Tabular.Proofs.CatalogTexts
import Mathlib.Logic.Relation

/-!
# Documents of records

A catalog's document holds records of three levels: the catalog, its entities and their columns. Reading one depends
on the fields that each record gives only. So it is the same for every document that `Edit`s lead to from the
catalog's own, and there is no catalog in a document that is `Flawed` (`Catalog.read_documents`).
-/

namespace Tabular

open Json Text

namespace Document

/-- The records that a catalog's document is made of. -/
inductive Level where
  | catalog
  | entity
  | column

namespace Level

def fieldNames : Level → List String
  | catalog => Catalog.fieldNames
  | entity => Entity.fieldNames
  | column => Column.fieldNames

/-- The fields that a record must have. -/
def required : Level → List String
  | catalog => ["version"]
  | entity => ["name", "columns"]
  | column => ["name", "type"]

/-- The other fields, with the values that they have when they are left out. -/
def defaults : Level → List (String × Json)
  | catalog => [("entities", .array [])]
  | entity => [("table", .null), ("autoincrement", .bool false)]
  | column =>
    [("nullable", .bool false), ("primary_key", .bool false), ("unique", .bool false), ("indexed", .bool false),
      ("references", .null)]

/-- The field that lists the records inside a record, and the level of these. -/
def inner? : Level → Option (String × Level)
  | catalog => some ("entities", entity)
  | entity => some ("columns", column)
  | column => none

abbrev Carrier : Level → Type
  | catalog => Catalog
  | entity => Entity
  | column => Column

def read : (l : Level) → Json → Option l.Carrier
  | catalog => Catalog.ofJson?
  | entity => Entity.ofJson?
  | column => Column.ofJson?

def build : (l : Level) → (String → Option Json) → Option l.Carrier
  | catalog, m => do
    let entities ← requiredItems (some ((m "entities").getD (.array [])))
    return ⟨← requiredText (m "version"), ← entities.mapM Entity.ofJson?⟩
  | entity, m => do
    return ⟨← requiredText (m "name"), ← optionalText (m "table"), ← optionalFlag (m "autoincrement"),
      ← (← requiredItems (m "columns")).mapM Column.ofJson?⟩
  | column, m => do
    return ⟨← requiredText (m "name"), ← Kind.ofJson? (m "type"), ← optionalFlag (m "nullable"),
      ← optionalFlag (m "primary_key"), ← optionalFlag (m "unique"), ← optionalFlag (m "indexed"),
      ← optionalText (m "references")⟩

end Level

/-- A step from one document of a record to another. The member that a step adds, removes or changes stands in front,
where reordering brings any member. An unknown key may be any text that names no field, given before or not, and its
value may be any value. -/
inductive Edit : Level → Json → Json → Prop
  | reorder {l : Level} {ms ms' : List (Option String × Json)} (order : ms.Perm ms') :
      Edit l (.object ms) (.object ms')
  | unknown {l : Level} {ms : List (Option String × Json)} {name : String} (other : name ∉ l.fieldNames)
      (value : Json) : Edit l (.object ms) (.object (field name value :: ms))
  | explicit {l : Level} {ms : List (Option String × Json)} {name : String} {value : Json}
      (optional : (name, value) ∈ l.defaults) (absent : some name ∉ ms.map (·.1)) :
      Edit l (.object ms) (.object (field name value :: ms))
  | leftOut {l : Level} {ms : List (Option String × Json)} {name : String} {value : Json}
      (optional : (name, value) ∈ l.defaults) (absent : some name ∉ ms.map (·.1)) :
      Edit l (.object (field name value :: ms)) (.object ms)
  | inside {l inner : Level} {ms : List (Option String × Json)} {name : String} {j j' : Json}
      (nested : l.inner? = some (name, inner)) (before after : List Json) (edit : Edit inner j j') :
      Edit l (.object (field name (.array (before ++ j :: after)) :: ms))
        (.object (field name (.array (before ++ j' :: after)) :: ms))

/-! ## Documents that are refused -/

/-- A document in which a record repeats a key that it knows or misses a field that it must have. -/
inductive Flawed : Level → Json → Prop
  | repeated {l : Level} {ms : List (Option String × Json)} {name : String} (known : name ∈ l.fieldNames)
      (twice : 2 ≤ (ms.map (·.1)).count (some name)) : Flawed l (.object ms)
  | missing {l : Level} {name : String} {j : Json} (required : name ∈ l.required)
      (absent : ∀ value, ¬ Holds l.fieldNames name value j) : Flawed l j
  | inside {l inner : Level} {name : String} {items : List Json} {item j : Json}
      (nested : l.inner? = some (name, inner)) (held : Holds l.fieldNames name (.array items) j)
      (listed : item ∈ items) (flawed : Flawed inner item) : Flawed l j

namespace Level

variable {l inner : Level} {j j' : Json} {m m' : String → Option Json} {name : String} {value : Json}

theorem nodup_fieldNames (l : Level) : l.fieldNames.Nodup := by
  cases l <;> decide

/-- A record must have each of its fields or has a value for it when it is left out. -/
theorem mem_fieldNames : name ∈ l.fieldNames ↔ name ∈ l.required ∨ name ∈ l.defaults.map (·.1) := by
  cases l with
  | catalog => simp [fieldNames, Catalog.fieldNames, required, defaults]
  | entity =>
    simp [fieldNames, Entity.fieldNames, required, defaults]
    tauto
  | column =>
    simp [fieldNames, Column.fieldNames, required, defaults]
    tauto

theorem mem_fieldNames_of_inner (nested : l.inner? = some (name, inner)) : name ∈ l.fieldNames := by
  cases l <;> cases nested <;> decide

/-- Reading a record is looking up its fields by their names. -/
theorem read_eq_build (fields : fields? l.fieldNames j = some (l.fieldNames.map m)) : l.read j = l.build m := by
  cases l with
  | catalog =>
    rw [fieldNames] at fields
    rw [read, Catalog.ofJson?, fields]
    cases given : m "entities" <;> simp [Catalog.fieldNames, build, given, requiredItems]
  | entity =>
    rw [fieldNames] at fields
    rw [read, Entity.ofJson?, fields]
    simp [Entity.fieldNames, build]
  | column =>
    rw [fieldNames] at fields
    rw [read, Column.ofJson?, fields]
    simp [Column.fieldNames, build]

theorem read_eq_none (none : fields? l.fieldNames j = none) : l.read j = .none := by
  cases l with
  | catalog =>
    rw [fieldNames] at none
    rw [read, Catalog.ofJson?, none]
    rfl
  | entity =>
    rw [fieldNames] at none
    rw [read, Entity.ofJson?, none]
    rfl
  | column =>
    rw [fieldNames] at none
    rw [read, Column.ofJson?, none]
    rfl

theorem build_congr (same : ∀ name ∈ l.fieldNames, m name = m' name) : l.build m = l.build m' := by
  cases l with
  | catalog => simp_all [build, fieldNames, Catalog.fieldNames]
  | entity => simp_all [build, fieldNames, Entity.fieldNames]
  | column => simp_all [build, fieldNames, Column.fieldNames]

/-- A field with the value that it has when it is left out may as well be left out. -/
theorem build_default (optional : (name, value) ∈ l.defaults) (absent : m name = none) (given : m' name = some value)
    (others : ∀ other, other ≠ name → m' other = m other) : l.build m = l.build m' := by
  cases l with
  | catalog =>
    simp only [defaults, List.mem_cons, Prod.mk.injEq, List.not_mem_nil, or_false] at optional
    obtain ⟨rfl, rfl⟩ := optional
    simp [build, absent, given, others]
  | entity =>
    simp only [defaults, List.mem_cons, Prod.mk.injEq, List.not_mem_nil, or_false] at optional
    rcases optional with ⟨rfl, rfl⟩ | ⟨rfl, rfl⟩
    all_goals simp [build, absent, given, others, optionalFlag, optionalText]
  | column =>
    simp only [defaults, List.mem_cons, Prod.mk.injEq, List.not_mem_nil, or_false] at optional
    rcases optional with ⟨rfl, rfl⟩ | ⟨rfl, rfl⟩ | ⟨rfl, rfl⟩ | ⟨rfl, rfl⟩ | ⟨rfl, rfl⟩
    all_goals simp [build, absent, given, others, optionalFlag, optionalText]

theorem build_inside {items items' : List Json} (nested : l.inner? = some (name, inner))
    (held : m name = some (.array items)) (held' : m' name = some (.array items'))
    (others : ∀ other, other ≠ name → m' other = m other) (same : items.mapM inner.read = items'.mapM inner.read) :
    l.build m = l.build m' := by
  cases l with
  | catalog =>
    cases nested
    rw [read] at same
    simp [build, held, held', others, requiredItems, same]
  | entity =>
    cases nested
    rw [read] at same
    simp [build, held, held', others, requiredItems, same]
  | column => cases nested

theorem build_missing (required : name ∈ l.required) (absent : m name = none) : l.build m = none := by
  cases l with
  | catalog =>
    simp only [Level.required, List.mem_cons, List.not_mem_nil, or_false] at required
    subst required
    simp [build, absent, requiredText]
  | entity =>
    simp only [Level.required, List.mem_cons, List.not_mem_nil, or_false] at required
    rcases required with rfl | rfl <;> simp [build, absent, requiredText, requiredItems]
  | column =>
    simp only [Level.required, List.mem_cons, List.not_mem_nil, or_false] at required
    rcases required with rfl | rfl <;> simp [build, absent, requiredText, Kind.ofJson?]

theorem build_inside_none {items : List Json} (nested : l.inner? = some (name, inner))
    (held : m name = some (.array items)) (none : items.mapM inner.read = none) : l.build m = .none := by
  cases l with
  | catalog =>
    cases nested
    rw [read] at none
    simp [build, held, requiredItems, none]
  | entity =>
    cases nested
    rw [read] at none
    simp [build, held, requiredItems, none]
  | column => cases nested

end Level

section Steps

variable {l : Level} {j j' : Json} {ms ms' : List (Option String × Json)}

/-- Objects are read alike when both or none give the fields of a record, and the records are the same. -/
theorem read_object_congr (proper : Proper l.fieldNames (ms.map (·.1)) ↔ Proper l.fieldNames (ms'.map (·.1)))
    (same : Proper l.fieldNames (ms.map (·.1)) → l.build (member? ms) = l.build (member? ms')) :
    l.read (.object ms) = l.read (.object ms') := by
  by_cases given : Proper l.fieldNames (ms.map (·.1))
  · rw [Level.read_eq_build (fields?_of_proper given), Level.read_eq_build (fields?_of_proper (proper.mp given)),
      same given]
  · have refused : ∀ ns : List (Option String × Json), ¬ Proper l.fieldNames (ns.map (·.1)) →
        l.read (.object ns) = none := by
      intro ns improper
      apply Level.read_eq_none
      rw [Option.eq_none_iff_forall_ne_some]
      exact fun vs fields => improper (proper_of_fields? fields)
    rw [refused ms given, refused ms' fun other => given (proper.mpr other)]

theorem read_explicit {name : String} {value : Json} (optional : (name, value) ∈ l.defaults)
    (absent : some name ∉ ms.map (·.1)) : l.read (.object ms) = l.read (.object (field name value :: ms)) := by
  apply read_object_congr
  · exact (proper_cons fun _ => absent).symm
  · intro _
    apply Level.build_default optional (member?_eq_none.mpr absent)
    · rw [field, member?_cons, if_pos rfl]
    · intro other different
      rw [field, member?_cons, if_neg fun same => different (Option.some.inj same).symm]

/-- A step does not change what is read. -/
theorem Edit.read_eq (edit : Edit l j j') : l.read j = l.read j' := by
  induction edit with
  | @reorder l ms ms' order =>
    have keys := order.map (·.1)
    apply read_object_congr
    · exact ⟨fun proper => proper.perm keys, fun proper => proper.perm keys.symm⟩
    · intro proper
      exact Level.build_congr fun name known => member?_perm (proper.once name known) order
  | @unknown l ms name other value =>
    apply read_object_congr
    · exact (proper_cons fun known => absurd known other).symm
    · intro _
      apply Level.build_congr
      intro n known
      rw [field, member?_cons, if_neg]
      rintro same
      obtain rfl := Option.some.inj same
      exact other known
  | explicit optional absent => exact read_explicit optional absent
  | leftOut optional absent => exact (read_explicit optional absent).symm
  | @inside l inner ms name j j' nested before after _ ih =>
    apply read_object_congr
    · rfl
    · intro _
      apply Level.build_inside nested
      · rw [field, member?_cons, if_pos rfl]
      · rw [field, member?_cons, if_pos rfl]
      · intro other different
        have key : some name ≠ some other := fun same => different (Option.some.inj same).symm
        rw [field, field, member?_cons, member?_cons, if_neg key, if_neg key]
      · simp [List.mapM_append, List.mapM_cons, ih]

theorem read_of_edits (edits : Relation.ReflTransGen (Edit l) j j') : l.read j' = l.read j := by
  induction edits with
  | refl => rfl
  | tail _ edit ih => rw [← edit.read_eq, ih]

/-- Steps inside a record are steps of the record around it. -/
theorem edits_inside {l inner : Level} {ms : List (Option String × Json)} {name : String} {j j' : Json}
    (nested : l.inner? = some (name, inner)) (before after : List Json)
    (edits : Relation.ReflTransGen (Edit inner) j j') :
    Relation.ReflTransGen (Edit l) (.object (field name (.array (before ++ j :: after)) :: ms))
      (.object (field name (.array (before ++ j' :: after)) :: ms)) :=
  Relation.ReflTransGen.lift (fun item => Json.object (field name (.array (before ++ item :: after)) :: ms))
    (fun _ _ edit => Edit.inside nested before after edit) _ _ edits

end Steps

theorem mapM_eq_none {α β : Type} {f : α → Option β} {xs : List α} {x : α} (listed : x ∈ xs) (none : f x = none) :
    xs.mapM f = .none := by
  induction xs with
  | nil => cases listed
  | cons y rest ih =>
    rw [List.mapM_cons]
    rcases List.mem_cons.mp listed with rfl | later
    · rw [none]
      rfl
    · cases f y with
      | none => rfl
      | some b => simp [ih later]

theorem Flawed.read_eq_none {l : Level} {j : Json} (flawed : Flawed l j) : l.read j = none := by
  induction flawed with
  | @repeated l ms name known twice =>
    apply Level.read_eq_none
    rw [Option.eq_none_iff_forall_ne_some]
    intro vs fields
    have := (proper_of_fields? fields).once name known
    omega
  | @missing l name j required absent =>
    cases fields : fields? l.fieldNames j with
    | none => exact Level.read_eq_none fields
    | some vs =>
      obtain ⟨m, rfl, held⟩ := exists_of_fields? l.nodup_fieldNames fields
      rw [Level.read_eq_build fields]
      apply Level.build_missing required
      rw [Option.eq_none_iff_forall_ne_some]
      exact fun value given => absent value ((held name (Level.mem_fieldNames.mpr (.inl required)) value).mp given)
  | @inside l inner name items item j nested held listed _ ih =>
    cases fields : fields? l.fieldNames j with
    | none => exact Level.read_eq_none fields
    | some vs =>
      obtain ⟨m, rfl, holds⟩ := exists_of_fields? l.nodup_fieldNames fields
      rw [Level.read_eq_build fields]
      exact Level.build_inside_none nested ((holds name (Level.mem_fieldNames_of_inner nested) _).mpr held)
        (mapM_eq_none listed ih)

end Document

open Document

/-- Every text of a document that steps lead to from a catalog's own is read as the catalog's own text is. A document
in which a record repeats a key that it knows or misses a field that it must have is refused in every text. -/
theorem Catalog.read_documents (c : Catalog) :
    (∀ j s, Relation.ReflTransGen (Edit .catalog) c.toJson j → Spells j s →
      read .json s = read .json (Content.ofString (c.write .json)) ∧ read .json s = c.requireVersion) ∧
    ∀ j s, Flawed .catalog j → Spells j s → read .json s = .error .badJson := by
  refine ⟨fun j s edits spelled => ?_, fun j s flawed spelled => ?_⟩
  · have back : ofJson? j = some c := (read_of_edits edits).trans (ofJson?_toJson c)
    have same : read .json s = c.requireVersion := by
      rw [read, parse_spelled spelled, Option.bind_some, back]
    exact ⟨same.trans (read_write_json c).symm, same⟩
  · have refused : ofJson? j = none := flawed.read_eq_none
    rw [read, parse_spelled spelled, Option.bind_some, refused]

/-- Known keys in an unknown one, defaults written out, and members in another order at each level. A column that has
its name twice is refused. -/
theorem Catalog.read_documents_nested :
    let c : Catalog := ⟨"1", [⟨"Tag", none, false, [⟨"id", .integer, false, true, false, false, none⟩]⟩]⟩
    let unknown : Json := .array [.object [field "version" .null, field "version" (.bool true)]]
    let column : Json := .object [field "primary_key" (.bool true), field "type" (text "integer"),
      field "name" (text "id"), field "references" .null]
    let entity : Json := .object [field "note" unknown, field "table" .null, field "columns" (.array [column]),
      field "name" (text "Tag")]
    let j : Json := .object [field "" unknown, field "entities" (.array [entity]), field "version" (text "1")]
    let repeated : Json := .object [field "name" (text "id"), field "type" (text "integer"), field "name" (text "id")]
    let tag : Json := .object [field "name" (text "Tag"), field "columns" (.array [column, repeated])]
    let broken : Json := .object [field "version" (text "1"), field "entities" (.array [tag])]
    Relation.ReflTransGen (Edit .catalog) c.toJson j ∧ Spells j (Content.ofString j.compact) ∧
      read .json (Content.ofString j.compact) = .ok c ∧ Flawed .catalog broken ∧
      Spells broken (Content.ofString broken.pretty) ∧
      read .json (Content.ofString broken.pretty) = .error .badJson := by
  intro c unknown column entity j repeated tag broken
  let key : Column := ⟨"id", .integer, false, true, false, false, none⟩
  have columnEdits : Relation.ReflTransGen (Edit .column) key.toJson column :=
    .head (.explicit (show ("references", Json.null) ∈ Level.column.defaults by simp [Level.defaults]) (by decide))
      (.single (.reorder (List.reverse_perm _).symm))
  have entityEdits : Relation.ReflTransGen (Edit .entity) (Entity.toJson ⟨"Tag", none, false, [key]⟩) entity :=
    .head (.reorder (List.reverse_perm _).symm) <|
      (edits_inside rfl [] [] columnEdits).tail
        (.explicit (show ("table", Json.null) ∈ Level.entity.defaults by simp [Level.defaults]) (by decide))
        |>.tail (.unknown (show "note" ∉ Level.entity.fieldNames by decide) unknown)
  have edits : Relation.ReflTransGen (Edit .catalog) c.toJson j :=
    .head (.reorder (List.reverse_perm _).symm) <|
      (edits_inside rfl [] [] entityEdits).tail (.unknown (show "" ∉ Level.catalog.fieldNames by decide) unknown)
  have flawed : Flawed .catalog broken := by
    apply Flawed.inside rfl (.member (List.mem_cons_of_mem _ List.mem_cons_self)) List.mem_cons_self
    apply Flawed.inside rfl (.member (List.mem_cons_of_mem _ List.mem_cons_self))
      (List.mem_cons_of_mem _ List.mem_cons_self)
    exact .repeated (show "name" ∈ Level.column.fieldNames by decide) (by decide)
  have plainUnknown : Plain unknown :=
    .array (by simpa using Plain.object (by simp [field]) (by simp [field, Plain.null, Plain.bool]))
  have plainColumn : Plain column :=
    .object (by simp [field]) (by simp [field, Plain.null, Plain.bool, Plain.text])
  have plainEntity : Plain entity :=
    .object (by simp [field]) (by simp [field, Plain.null, Plain.text, plainUnknown, Plain.array, plainColumn])
  have plain : Plain j :=
    .object (by simp [field]) (by simp [field, Plain.text, plainUnknown, Plain.array, plainEntity])
  have plainRepeated : Plain repeated := .object (by simp [field]) (by simp [field, Plain.text])
  have plainTag : Plain tag :=
    .object (by simp [field]) (by simp [field, Plain.text, Plain.array, plainColumn, plainRepeated])
  have plainBroken : Plain broken :=
    .object (by simp [field]) (by simp [field, Plain.text, Plain.array, plainTag])
  have spelled : Spells j (Content.ofString j.compact) := spells_compact plain
  have spelledBroken : Spells broken (Content.ofString broken.pretty) := spells_pretty plainBroken
  have versioned : c.requireVersion = .ok c := by decide
  obtain ⟨read, refused⟩ := read_documents c
  exact ⟨edits, spelled, (read j _ edits spelled).2.trans versioned, flawed, spelledBroken,
    refused broken _ flawed spelledBroken⟩

end Tabular
