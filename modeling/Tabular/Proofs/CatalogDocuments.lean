import Tabular.Proofs.CatalogTexts
import Tabular.Proofs.YamlDocuments
import Mathlib.Data.List.Count

/-!
# Catalogs as YAML texts

A catalog of printable texts is read back from its YAML text as from its JSON text: a text that could be taken for
something else stands between apostrophes, and the fields of a record are found again in its members. So both files of
a catalog are loaded as the same catalog, with the same fingerprint (`load_saved_yaml`).
-/

namespace Tabular

open Json Text

namespace Yaml

variable {r : Reader} {members : List (Option String × Json)}

/-- The names of members and the nodes of their values. -/
def namedNodes (members : List (Option String × Json)) : List (String × Node) :=
  members.map fun m => (m.1.getD "", node m.2)

theorem mapM_text?_memberNodes :
    (memberNodes members).mapM (fun (k, v) => do return (← r.text? k, v)) = some (namedNodes members) := by
  induction members with
  | nil => rfl
  | cons member rest ih =>
    have name : r.text? (.scalar none ⟨none, .plain, member.1.getD ""⟩) = some (member.1.getD "") := rfl
    rw [memberNodes, List.mapM_cons, ih]
    simp [name, namedNodes]

theorem count_namedNodes (keys : ∀ m ∈ members, m.1.isSome = true) (name : String) :
    ((namedNodes members).map (·.1)).count name = (members.map (·.1)).count (some name) := by
  have same : members.map (·.1) = ((namedNodes members).map (·.1)).map some := by
    rw [namedNodes, List.map_map, List.map_map]
    refine List.map_congr_left fun m member => ?_
    obtain ⟨key, named⟩ := Option.isSome_iff_exists.mp (keys m member)
    simp [named]
  rw [same, List.count_map_of_injective _ some fun _ _ same => Option.some.inj same]

theorem lookup_namedNodes (keys : ∀ m ∈ members, m.1.isSome = true) (name : String) :
    (namedNodes members).lookup name = (member? members name).map node := by
  induction members with
  | nil => rfl
  | cons member rest ih =>
    obtain ⟨key, value⟩ := member
    obtain ⟨other, rfl⟩ : ∃ other, key = some other :=
      Option.isSome_iff_exists.mp (keys (key, value) List.mem_cons_self)
    have later := ih fun m member => keys m (List.mem_cons_of_mem _ member)
    by_cases same : other = name
    · simp [namedNodes, member?, same]
    · rw [namedNodes, member?] at later
      have apart : (name == other) = false := beq_eq_false_iff_ne.mpr (Ne.symm same)
      simpa [namedNodes, member?, same, List.lookup_cons, apart] using later

/-- The fields of a record are found in its YAML document where they are found in the record. -/
theorem fields?_node (names : List String) (keys : ∀ m ∈ members, m.1.isSome = true) :
    r.fields? names (node (.object members)) =
      (Json.fields? names (.object members)).map fun values => values.map (Option.map node) := by
  have all : members.all (·.1.isSome) = true := List.all_eq_true.mpr keys
  have once : (names.all fun name => ((namedNodes members).map (·.1)).count name ≤ 1) =
      names.all fun name => (members.map (·.1)).count (some name) ≤ 1 := by
    simp only [count_namedNodes keys]
  rw [Reader.fields?, node, Json.fields?]
  simp only [Node.resolve?, mapM_text?_memberNodes]
  rw [all, ← once]
  simp only [Option.bind_eq_bind, Option.bind_some, true_and]
  split
  · simp [lookup_namedNodes keys]
  · rfl

/-- The fields of a record are read back from its YAML document. -/
theorem fields?_present {fs : List (String × Option Json)} (distinct : (fs.map (·.1)).Nodup) :
    r.fields? (fs.map (·.1)) (node (.object (present fs))) = some (fs.map fun f => f.2.map node) := by
  have keys : ∀ m ∈ present fs, m.1.isSome = true := by
    intro m member
    obtain ⟨name, j, _, rfl⟩ := mem_present.mp member
    rfl
  rw [fields?_node _ keys, Json.fields?_present distinct, Option.map_some, List.map_map]
  rfl

theorem tidy_present {fs : List (String × Option Json)} (given : present fs ≠ [])
    (names : ∀ name ∈ fs.map (·.1), IsFieldName name) (each : ∀ name j, (name, some j) ∈ fs → Tidy j) :
    Tidy (.object (present fs)) := by
  obtain ⟨member, members, same⟩ := List.exists_cons_of_ne_nil given
  have all : ∀ m ∈ member :: members, ∃ name j, (name, some j) ∈ fs ∧ m = field name j := by
    intro m listed
    rw [← same] at listed
    exact mem_present.mp listed
  rw [same]
  refine .object (fun m listed => ?_) (fun m listed => ?_)
  · obtain ⟨name, j, known, rfl⟩ := all m listed
    exact ⟨name, rfl, names name (List.mem_map_of_mem known)⟩
  · obtain ⟨name, j, known, rfl⟩ := all m listed
    exact each name j known

/-! ## Flags, texts and lists -/

theorem isAmbiguous_of_plain {s : String} (plain : styleOf s = .plain) : isAmbiguous s = false := by
  rw [styleOf] at plain
  split at plain
  · split at plain <;> cases plain
  · split at plain
    · next fits =>
      rw [Bool.and_eq_true, Bool.not_eq_true'] at fits
      exact fits.1
    · split at plain <;> cases plain

theorem fieldOr_some {α : Type} (absent : Option α) (read : Node → Option α) (n : Node) :
    fieldOr absent read (some n) = read n :=
  rfl

theorem flag?_flagValue (b : Bool) : fieldOr (some false) r.flag? ((flagValue b).map node) = some b := by
  cases b with
  | false => rfl
  | true => exact (by decide : boolWord? "true" = some true)

/-- A text is not taken for an absent one, since it is not written without quotes then. -/
theorem optionalText?_node (s : String) : r.optionalText? (node (text s)) = some (some s) := by
  have scalar : r.scalar? (node (text s)) = some ⟨none, styleOf s, s⟩ := rfl
  rw [Reader.optionalText?, scalar]
  cases style : styleOf s with
  | plain =>
    have unambiguous := isAmbiguous_of_plain style
    simp only [isAmbiguous, Bool.or_eq_false_iff] at unambiguous
    simp [unambiguous]
  | singleQuoted => rfl
  | doubleQuoted => rfl
  | literal => rfl
  | folded => rfl

theorem optionalText?_map_text (s : Option String) :
    fieldOr (some none) r.optionalText? ((s.map text).map node) = some s := by
  cases s with
  | none => rfl
  | some s => exact optionalText?_node s

theorem items?_node {α : Type} (toJson : α → Json) (xs : List α) :
    r.items? (node (.array (xs.map toJson))) = some (xs.map fun x => node (toJson x)) := by
  show some (itemNodes (xs.map toJson)) = _
  rw [itemNodes_eq, List.map_map]
  rfl

end Yaml

open Yaml

section Reading

variable {r : Reader}

theorem Column.ofYaml?_toJson (c : Column) : ofYaml? r (node c.toJson) = some c := by
  have distinct : (c.fieldValues.map (·.1)).Nodup := by
    show fieldNames.Nodup
    decide
  have fields : r.fields? fieldNames (node c.toJson) = some (c.fieldValues.map fun f => f.2.map node) := by
    rw [toJson_eq]
    exact Yaml.fields?_present distinct
  have kind : Kind.ofYaml? r (node (text c.kind.name)) = some c.kind := Kind.ofName?_name c.kind
  have name : r.text? (node (text c.name)) = some c.name := rfl
  rw [ofYaml?, fields]
  simp only [fieldValues, List.map_cons, List.map_nil, Option.bind_eq_bind, Option.bind_some, Option.map_some,
    fieldOr_some, flag?_flagValue, optionalText?_map_text, kind, name]
  rfl

theorem Entity.ofYaml?_toJson (e : Entity) : ofYaml? r (node e.toJson) = some e := by
  have distinct : (e.fieldValues.map (·.1)).Nodup := by
    show fieldNames.Nodup
    decide
  have fields : r.fields? fieldNames (node e.toJson) = some (e.fieldValues.map fun f => f.2.map node) := by
    rw [toJson_eq]
    exact Yaml.fields?_present distinct
  have name : r.text? (node (text e.name)) = some e.name := rfl
  have columns : r.items? (node (.array (e.columns.map Column.toJson))) = some (e.columns.map fun c => node c.toJson) :=
    items?_node Column.toJson e.columns
  rw [ofYaml?, fields]
  simp only [fieldValues, List.map_cons, List.map_nil, Option.bind_eq_bind, Option.bind_some, Option.map_some,
    fieldOr_some, flag?_flagValue, optionalText?_map_text, name, columns, mapM_map_some Column.ofYaml?_toJson]
  rfl

end Reading

namespace Catalog

theorem ofYaml?_toJson (c : Catalog) : ofYaml? (node c.toJson) = some c := by
  have distinct : (c.fieldValues.map (·.1)).Nodup := by
    show fieldNames.Nodup
    decide
  have fields : (Reader.mk (node c.toJson)).fields? fieldNames (node c.toJson) =
      some (c.fieldValues.map fun f => f.2.map node) := Yaml.fields?_present distinct
  have version : ∀ r : Reader, r.text? (node (text c.version)) = some c.version := fun _ => rfl
  have entities : ∀ r : Reader, r.items? (node (.array (c.entities.map Entity.toJson))) =
      some (c.entities.map fun e => node e.toJson) := fun _ => items?_node Entity.toJson c.entities
  rw [ofYaml?, fields]
  simp only [fieldValues, List.map_cons, List.map_nil, Option.bind_eq_bind, Option.bind_some, Option.map_some,
    fieldOr_some, version, entities, mapM_map_some Entity.ofYaml?_toJson]
  rfl

end Catalog

/-- A column whose texts are printable. -/
def Column.Printable (c : Column) : Prop :=
  Yaml.Printable c.name ∧ ∀ target ∈ c.references, Yaml.Printable target

/-- An entity whose texts are printable. -/
def Entity.Printable (e : Entity) : Prop :=
  Yaml.Printable e.name ∧ (∀ table ∈ e.table, Yaml.Printable table) ∧ ∀ c ∈ e.columns, c.Printable

/-- A catalog whose texts are printable. -/
def Catalog.Printable (c : Catalog) : Prop :=
  Yaml.Printable c.version ∧ ∀ e ∈ c.entities, e.Printable

instance (c : Column) : Decidable c.Printable :=
  inferInstanceAs (Decidable (_ ∧ _))

instance (e : Entity) : Decidable e.Printable :=
  inferInstanceAs (Decidable (_ ∧ _ ∧ _))

instance (c : Catalog) : Decidable c.Printable :=
  inferInstanceAs (Decidable (_ ∧ _))

theorem tidy_of_flagValue {b : Bool} {j : Json} (given : some j = flagValue b) : Tidy j := by
  cases b with
  | false => cases given
  | true =>
    obtain rfl := Option.some.inj given
    exact .bool true

theorem tidy_of_map_text {s : Option String} {j : Json} (printable : ∀ t ∈ s, Yaml.Printable t)
    (given : some j = s.map text) : Tidy j := by
  obtain ⟨t, same, rfl⟩ := Option.map_eq_some_iff.mp given.symm
  exact .text (printable t same)

/-- Each member of a list is written as a record. -/
theorem tidy_array {α : Type} {toJson : α → Json} {xs : List α} (each : ∀ x ∈ xs, Tidy (toJson x))
    (records : ∀ x, ∃ member members, toJson x = .object (member :: members)) : Tidy (.array (xs.map toJson)) := by
  refine .array (fun j listed => ?_) (fun j listed => ?_)
  · obtain ⟨x, _, rfl⟩ := List.mem_map.mp listed
    exact records x
  · obtain ⟨x, member, rfl⟩ := List.mem_map.mp listed
    exact each x member

theorem Column.tidy_toJson {c : Column} (printable : c.Printable) : Tidy c.toJson := by
  have named : ∀ name ∈ fieldNames, IsFieldName name := by decide +kernel
  rw [toJson_eq]
  refine tidy_present (by simp [present, fieldValues]) named fun name j listed => ?_
  simp only [fieldValues, List.mem_cons, Prod.mk.injEq, Option.some.injEq, List.not_mem_nil, or_false] at listed
  rcases listed with ⟨_, rfl⟩ | ⟨_, rfl⟩ | ⟨_, given⟩ | ⟨_, given⟩ | ⟨_, given⟩ | ⟨_, given⟩ | ⟨_, given⟩
  · exact .text printable.1
  · refine .text ?_
    cases c.kind <;> decide
  · exact tidy_of_flagValue given
  · exact tidy_of_flagValue given
  · exact tidy_of_flagValue given
  · exact tidy_of_flagValue given
  · exact tidy_of_map_text printable.2 given

theorem Entity.tidy_toJson {e : Entity} (printable : e.Printable) : Tidy e.toJson := by
  have named : ∀ name ∈ fieldNames, IsFieldName name := by decide +kernel
  obtain ⟨name, table, columns⟩ := printable
  rw [toJson_eq]
  refine tidy_present (by simp [present, fieldValues]) named fun name j listed => ?_
  simp only [fieldValues, List.mem_cons, Prod.mk.injEq, Option.some.injEq, List.not_mem_nil, or_false] at listed
  rcases listed with ⟨_, rfl⟩ | ⟨_, given⟩ | ⟨_, given⟩ | ⟨_, rfl⟩
  · exact .text ‹_›
  · exact tidy_of_map_text table given
  · exact tidy_of_flagValue given
  · exact tidy_array (fun c listed => Column.tidy_toJson (columns c listed)) fun c => ⟨_, _, rfl⟩

namespace Catalog

variable {c : Catalog}

theorem tidy_toJson (printable : c.Printable) : Tidy c.toJson := by
  have named : ∀ name ∈ fieldNames, IsFieldName name := by decide +kernel
  have present : c.toJson = .object (present c.fieldValues) := rfl
  obtain ⟨version, entities⟩ := printable
  rw [present]
  refine tidy_present (by simp [Json.present, fieldValues]) named fun name j listed => ?_
  simp only [fieldValues, List.mem_cons, Prod.mk.injEq, Option.some.injEq, List.not_mem_nil, or_false] at listed
  rcases listed with ⟨_, rfl⟩ | ⟨_, rfl⟩
  · exact .text version
  · exact tidy_array (fun e listed => Entity.tidy_toJson (entities e listed)) fun e => ⟨_, _, rfl⟩

theorem read_write_yaml (printable : c.Printable) :
    read .yaml (Content.ofString (c.write .yaml)) = c.requireVersion := by
  have parsed : Yaml.parse (Yaml.write c.toJson) = some (node c.toJson) := parse_write (tidy_toJson printable)
  rw [read, write, Content.text?_ofString]
  simp [parsed, ofYaml?_toJson]

/-- The format of a file is that of its extension. -/
theorem ofPath_of_extension {path extension : String}
    (named : (Format.fileName? path).bind Format.extension? = some extension) :
    (extension = "yaml" ∨ extension = "yml" → Format.ofPath path = .ok .yaml) ∧
      (extension = "json" → Format.ofPath path = .ok .json) := by
  obtain ⟨name, file, last⟩ := Option.bind_eq_some_iff.mp named
  rw [Format.ofPath, file, Option.bind_some, Format.ofName?, last]
  refine ⟨?_, ?_⟩
  · rintro (rfl | rfl)
    · rfl
    · rfl
  · rintro rfl
    rfl

/-- A catalog is loaded from the file that it was saved to, in either format. -/
theorem load_of_save {f : Format} {files after : Files} {path text : String} (versioned : isBlank c.version = false)
    (printable : c.Printable) (format : Format.ofPath path = .ok f) (saved : c.save files path = .ok (text, after)) :
    load after path = .ok c := by
  obtain ⟨g, same, rfl, written⟩ := save_eq_ok.mp saved
  obtain rfl : g = f := Except.ok.inj (same.symm.trans format)
  have kept : c.requireVersion = .ok c := by
    rw [requireVersion, versioned]
    rfl
  rw [load_of_open? format (Files.open?_write? written)]
  cases g with
  | yaml => rw [read_write_yaml printable, kept]
  | json => rw [read_write_json, kept]

/-- A catalog with a version whose texts are printable is saved to a YAML file whenever the file can be written, and
loaded from the file as it was. So the fingerprint of what is loaded is that of what is loaded from its JSON file. -/
theorem load_saved_yaml (c : Catalog) (versioned : isBlank c.version = false) (printable : c.Printable) :
    ∀ files after path text extension, (Format.fileName? path).bind Format.extension? = some extension →
      extension = "yaml" ∨ extension = "yml" →
      (c.save files path = .ok (text, after) ↔
        text = c.write .yaml ∧ files.write? path (Content.ofString text) = some after) ∧
      (c.save files path = .ok (text, after) → load after path = .ok c ∧
        ∀ files' after' path' text', (Format.fileName? path').bind Format.extension? = some "json" →
          c.save files' path' = .ok (text', after') →
          (load after path).map fingerprint = (load after' path').map fingerprint) := by
  intro files after path text extension named yaml
  have format := (ofPath_of_extension named).1 yaml
  refine ⟨?_, fun saved => ⟨load_of_save versioned printable format saved, ?_⟩⟩
  · rw [save_eq_ok]
    constructor
    · rintro ⟨f, same, rfl, written⟩
      obtain rfl : f = .yaml := Except.ok.inj (same.symm.trans format)
      exact ⟨rfl, written⟩
    · rintro ⟨rfl, written⟩
      exact ⟨.yaml, format, rfl, written⟩
  · intro files' after' path' text' named' saved'
    have format' := (ofPath_of_extension named').2 rfl
    rw [load_of_save versioned printable format saved, load_of_save versioned printable format' saved']

/-- Texts that stand for nothing, a flag, a number, a mark or the structure of a document when they are not quoted. -/
theorem load_saved_yaml_quotes :
    let column : Column := ⟨"~", .timestamp, true, false, true, true, some ""⟩
    let other : Column := ⟨" it's: a #1 ", .text, false, true, false, false, some "- ?"⟩
    let entity : Entity := ⟨"---", some "null", true, [column, other, ⟨"", .text, false, true, false, false, none⟩]⟩
    let c : Catalog := ⟨"1", [entity, { name := "true" }, ⟨"plain text: no", some "[0x1f]", false, [other]⟩]⟩
    let yaml : Files := ⟨[(["c.yml"], .file (Content.ofString (c.write .yaml)))], []⟩
    let json : Files := ⟨[(["c.json"], .file (Content.ofString (c.write .json)))], []⟩
    isBlank c.version = false ∧ c.Printable ∧ c.save {} "c.yml" = .ok (c.write .yaml, yaml) ∧
      load yaml "c.yml" = .ok c ∧ c.save {} "c.json" = .ok (c.write .json, json) ∧
      (load yaml "c.yml").map fingerprint = (load json "c.json").map fingerprint := by
  intro column other entity c yaml json
  have versioned : isBlank c.version = false := by decide
  have printable : c.Printable := by decide +kernel
  have yamlName : IsName "c.yml" := by decide
  have jsonName : IsName "c.json" := by decide
  have document : (Format.fileName? "c.yml").bind Format.extension? = some "yml" := by
    rw [yamlName.fileName?]
    exact Format.extension?_eq_some.mpr ⟨"c", by decide, rfl, by decide⟩
  have file : (Format.fileName? "c.json").bind Format.extension? = some "json" := by
    rw [jsonName.fileName?]
    exact Format.extension?_eq_some.mpr ⟨"c", by decide, rfl, by decide⟩
  obtain ⟨written, loaded⟩ :=
    load_saved_yaml c versioned printable {} yaml "c.yml" (c.write .yaml) "yml" document (.inr rfl)
  have saved : c.save {} "c.yml" = .ok (c.write .yaml, yaml) := written.mpr ⟨rfl, Files.write?_name yamlName rfl rfl⟩
  have also : c.save {} "c.json" = .ok (c.write .json, json) :=
    save_eq_ok.mpr ⟨.json, (ofPath_of_extension file).2 rfl, rfl, Files.write?_name jsonName rfl rfl⟩
  obtain ⟨back, same⟩ := loaded saved
  exact ⟨versioned, printable, saved, back, also, same {} json "c.json" _ file also⟩

end Catalog

end Tabular
