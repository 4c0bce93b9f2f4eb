import Tabular.Proofs.Checks
import Tabular.Proofs.JsonRecords
import Tabular.Proofs.JsonTexts
import Tabular.Proofs.Paths

/-!
# Catalogs as JSON texts

An entity is read back from its JSON form, in which what has its default value is left out
(`Entity.ofJson?_toJson`). So a catalog is read back from the text that it is saved as, and entities from their
canonical text: the bytes that a fingerprint is made of tell lists of entities apart (`load_saved_json`).
-/

theorem ByteArray.toList_eq (bytes : ByteArray) : bytes.toList = bytes.data.toList := by
  have loop : ∀ i done, ByteArray.toList.loop bytes i done = done.reverse ++ bytes.data.toList.drop i := by
    intro i done
    fun_induction ByteArray.toList.loop bytes i done with
    | case1 i done inside ih =>
      have more : bytes.data.toList.drop i = bytes.get! i :: bytes.data.toList.drop (i + 1) := by
        rw [List.drop_eq_getElem_cons (by simpa using inside)]
        simp [ByteArray.get!, inside]
      rw [ih, more, List.reverse_cons, List.append_assoc, List.singleton_append]
    | case2 i done outside =>
      rw [List.drop_eq_nil_of_le (by simpa using outside), List.append_nil]
  exact loop 0 []

theorem String.toList_toUTF8_inj {s t : String} : s.toUTF8.toList = t.toUTF8.toList ↔ s = t := by
  rw [ByteArray.toList_eq, ByteArray.toList_eq, Array.toList_inj]
  constructor
  · exact fun same => String.toByteArray_inj.mp (ByteArray.ext same)
  · rintro rfl
    rfl

namespace Tabular

open Json Text

namespace Json

/-- The members of an object for the fields that have a value. -/
def present (fs : List (String × Option Json)) : List (Option String × Json) :=
  fs.filterMap fun (name, value) => value.map (field name)

variable {fs : List (String × Option Json)} {name : String} {value : Option Json}

theorem present_append (fs gs : List (String × Option Json)) : present (fs ++ gs) = present fs ++ present gs :=
  List.filterMap_append

theorem mem_present {m : Option String × Json} :
    m ∈ present fs ↔ ∃ name j, (name, some j) ∈ fs ∧ m = field name j := by
  rw [present, List.mem_filterMap]
  constructor
  · rintro ⟨⟨name, value⟩, listed, given⟩
    obtain ⟨j, rfl, rfl⟩ := Option.map_eq_some_iff.mp given
    exact ⟨name, j, listed, rfl⟩
  · rintro ⟨name, j, listed, rfl⟩
    exact ⟨(name, some j), listed, rfl⟩

theorem keys_present_sublist : ((present fs).map (·.1)).Sublist ((fs.map (·.1)).map some) := by
  induction fs with
  | nil => exact .refl _
  | cons f rest ih =>
    obtain ⟨name, _ | j⟩ := f
    · exact ih.cons _
    · exact ih.cons_cons _

theorem nodup_keys_present (distinct : (fs.map (·.1)).Nodup) : ((present fs).map (·.1)).Nodup :=
  (distinct.map fun _ _ same => Option.some.inj same).sublist keys_present_sublist

theorem member?_present (distinct : (fs.map (·.1)).Nodup) (listed : (name, value) ∈ fs) :
    member? (present fs) name = value := by
  have once := List.nodup_iff_count_le_one.mp (nodup_keys_present distinct) (some name)
  apply Option.ext
  intro j
  rw [member?_eq_some once, mem_present]
  constructor
  · -- Only the field itself has its name.
    rintro ⟨other, k, known, same⟩
    obtain ⟨named, rfl⟩ := Prod.mk.inj same
    obtain rfl := Option.some.inj named
    exact congrArg Prod.snd (List.inj_on_of_nodup_map distinct listed known rfl)
  · rintro rfl
    exact ⟨name, j, listed, rfl⟩

/-- The fields of a record are read back from the members that are present. -/
theorem fields?_present (distinct : (fs.map (·.1)).Nodup) :
    fields? (fs.map (·.1)) (.object (present fs)) = some (fs.map (·.2)) := by
  have proper : Proper (fs.map (·.1)) ((present fs).map (·.1)) := by
    refine ⟨fun key listed => ?_, fun n _ => List.nodup_iff_count_le_one.mp (nodup_keys_present distinct) (some n)⟩
    obtain ⟨name, _, rfl⟩ := List.mem_map.mp (keys_present_sublist.subset listed)
    rfl
  rw [fields?_of_proper proper, List.map_map]
  refine congrArg some (List.map_congr_left fun f listed => ?_)
  exact member?_present distinct listed

theorem plain_present (each : ∀ name j, (name, some j) ∈ fs → Plain j) : Plain (.object (present fs)) := by
  refine .object (fun m member => ?_) (fun m member => ?_)
  · obtain ⟨name, j, _, rfl⟩ := mem_present.mp member
    rfl
  · obtain ⟨name, j, listed, rfl⟩ := mem_present.mp member
    exact each name j listed

end Json

/-- A list is read back when each of its members is. -/
theorem mapM_map_some {α β : Type} {f : β → Option α} {g : α → β} (back : ∀ a, f (g a) = some a)
    (xs : List α) : (xs.map g).mapM f = some xs := by
  induction xs with
  | nil => rfl
  | cons x rest ih => simp [List.mapM_cons, back, ih]

/-! ## Flags and texts that may be left out -/

/-- The value of a flag that is left out unless it is set. -/
def flagValue (b : Bool) : Option Json :=
  if b then some (.bool true) else none

theorem flagField_eq (name : String) (b : Bool) : flagField name b = present [(name, flagValue b)] := by
  cases b <;> rfl

theorem textField_eq (name : String) (s : Option String) : textField name s = present [(name, s.map text)] := by
  cases s <;> rfl

theorem optionalFlag_flagValue (b : Bool) : optionalFlag (flagValue b) = some b := by
  cases b <;> rfl

theorem optionalText_map_text (s : Option String) : optionalText (s.map text) = some s := by
  cases s <;> rfl

theorem plain_of_flagValue {b : Bool} {j : Json} (given : some j = flagValue b) : Plain j := by
  cases b with
  | false => cases given
  | true =>
    obtain rfl := Option.some.inj given
    exact .bool true

theorem plain_of_map_text {s : Option String} {j : Json} (given : some j = s.map text) : Plain j := by
  obtain ⟨s, _, rfl⟩ := Option.map_eq_some_iff.mp given.symm
  exact .text s

namespace Column

/-- The fields of a column in their order, those with default values left out. -/
def fieldValues (c : Column) : List (String × Option Json) :=
  [("name", some (text c.name)), ("type", some (text c.kind.name)), ("nullable", flagValue c.nullable),
    ("primary_key", flagValue c.isKey), ("unique", flagValue c.unique), ("indexed", flagValue c.indexed),
    ("references", c.references.map text)]

theorem toJson_eq (c : Column) : c.toJson = .object (present c.fieldValues) := by
  have required : [field "name" (text c.name), field "type" (text c.kind.name)] =
      present [("name", some (text c.name)), ("type", some (text c.kind.name))] := rfl
  rw [toJson, required]
  simp only [flagField_eq, textField_eq, ← present_append]
  rfl

theorem ofJson?_toJson (c : Column) : ofJson? c.toJson = some c := by
  have distinct : (c.fieldValues.map (·.1)).Nodup := by
    show fieldNames.Nodup
    decide
  have fields : fields? fieldNames c.toJson = some (c.fieldValues.map (·.2)) := by
    rw [toJson_eq]
    exact fields?_present distinct
  rw [ofJson?, fields]
  simp [fieldValues, requiredText, text, Kind.ofJson?, optionalFlag_flagValue, optionalText_map_text]

theorem plain_toJson (c : Column) : Plain c.toJson := by
  rw [toJson_eq]
  refine plain_present fun name j listed => ?_
  simp only [fieldValues, List.mem_cons, Prod.mk.injEq, Option.some.injEq, List.not_mem_nil, or_false] at listed
  rcases listed with ⟨_, rfl⟩ | ⟨_, rfl⟩ | ⟨_, given⟩ | ⟨_, given⟩ | ⟨_, given⟩ | ⟨_, given⟩ | ⟨_, given⟩
  · exact .text _
  · exact .text _
  · exact plain_of_flagValue given
  · exact plain_of_flagValue given
  · exact plain_of_flagValue given
  · exact plain_of_flagValue given
  · exact plain_of_map_text given

end Column

namespace Entity

/-- The fields of an entity in their order, those with default values left out. -/
def fieldValues (e : Entity) : List (String × Option Json) :=
  [("name", some (text e.name)), ("table", e.table.map text), ("autoincrement", flagValue e.autoincrement),
    ("columns", some (.array (e.columns.map Column.toJson)))]

theorem toJson_eq (e : Entity) : e.toJson = .object (present e.fieldValues) := by
  have name : [field "name" (text e.name)] = present [("name", some (text e.name))] := rfl
  have columns : [field "columns" (.array (e.columns.map Column.toJson))] =
      present [("columns", some (.array (e.columns.map Column.toJson)))] := rfl
  rw [toJson, name, columns]
  simp only [flagField_eq, textField_eq, ← present_append]
  rfl

theorem ofJson?_toJson (e : Entity) : ofJson? e.toJson = some e := by
  have distinct : (e.fieldValues.map (·.1)).Nodup := by
    show fieldNames.Nodup
    decide
  have fields : fields? fieldNames e.toJson = some (e.fieldValues.map (·.2)) := by
    rw [toJson_eq]
    exact fields?_present distinct
  rw [ofJson?, fields]
  simp [fieldValues, requiredText, text, optionalFlag_flagValue, optionalText_map_text, requiredItems,
    mapM_map_some Column.ofJson?_toJson]

theorem plain_toJson (e : Entity) : Plain e.toJson := by
  rw [toJson_eq]
  refine plain_present fun name j listed => ?_
  simp only [fieldValues, List.mem_cons, Prod.mk.injEq, Option.some.injEq, List.not_mem_nil, or_false] at listed
  rcases listed with ⟨_, rfl⟩ | ⟨_, given⟩ | ⟨_, given⟩ | ⟨_, rfl⟩
  · exact .text _
  · exact plain_of_map_text given
  · exact plain_of_flagValue given
  · refine .array fun j member => ?_
    obtain ⟨c, _, rfl⟩ := List.mem_map.mp member
    exact c.plain_toJson

/-- Entities as one value. -/
theorem plain_array (es : List Entity) : Plain (.array (es.map toJson)) := by
  refine .array fun j member => ?_
  obtain ⟨e, _, rfl⟩ := List.mem_map.mp member
  exact e.plain_toJson

end Entity

namespace Catalog

/-- The fields of a catalog in their order. -/
def fieldValues (c : Catalog) : List (String × Option Json) :=
  [("version", some (text c.version)), ("entities", some (.array (c.entities.map Entity.toJson)))]

theorem ofJson?_toJson (c : Catalog) : ofJson? c.toJson = some c := by
  have distinct : (c.fieldValues.map (·.1)).Nodup := by
    show fieldNames.Nodup
    decide
  have fields : fields? fieldNames c.toJson = some (c.fieldValues.map (·.2)) := fields?_present distinct
  rw [ofJson?, fields]
  simp [fieldValues, requiredText, text, requiredItems, mapM_map_some Entity.ofJson?_toJson]

theorem plain_toJson (c : Catalog) : Plain c.toJson := by
  refine .object (by simp [field]) ?_
  simp [field, Plain.text, Entity.plain_array]

/-- The entities in a canonical text. -/
def ofCanonical? (content : Content) : Option (List Entity) := do
  (← requiredItems (← Json.parse content)).mapM Entity.ofJson?

theorem ofCanonical?_canonical (es : List Entity) : ofCanonical? (Content.ofString (canonical es)) = some es := by
  rw [ofCanonical?, canonical, parse_compact (Entity.plain_array es)]
  exact mapM_map_some Entity.ofJson?_toJson es

theorem canonical_injective {es ds : List Entity} (same : canonical es = canonical ds) : es = ds := by
  have back := ofCanonical?_canonical es
  rw [same, ofCanonical?_canonical] at back
  exact (Option.some.inj back).symm

theorem read_write_json (c : Catalog) : read .json (Content.ofString (c.write .json)) = c.requireVersion := by
  rw [read, write, parse_pretty c.plain_toJson]
  simp [ofJson?_toJson]

theorem save_eq_ok {c : Catalog} {files files' : Files} {path text : String} :
    c.save files path = .ok (text, files') ↔ ∃ f, Format.ofPath path = .ok f ∧ text = c.write f ∧
      files.write? path (Content.ofString (c.write f)) = some files' := by
  rw [save, Checks.bind_eq_ok]
  refine exists_congr fun f => and_congr_right fun _ => ?_
  cases written : files.write? path (Content.ofString (c.write f)) with
  | none => simp [written, throw, throwThe, MonadExceptOf.throw]
  | some after => simp [written, pure, Except.pure, eq_comm]

/-- A catalog with a version is read back from its JSON text, and loaded from the file that it was saved to. Entities
are read back from their canonical text, so that the bytes that a fingerprint is made of are the same for the same
entities only, whatever the versions. -/
theorem load_saved_json (c d : Catalog) :
    (isBlank c.version = false → read .json (Content.ofString (c.write .json)) = .ok c ∧
      ∀ files files' path text, Format.ofPath path = .ok .json → c.save files path = .ok (text, files') →
        text = c.write .json ∧ load files' path = .ok c) ∧
    ofCanonical? (Content.ofString (canonical c.entities)) = some c.entities ∧
    ((canonical c.entities).toUTF8.toList = (canonical d.entities).toUTF8.toList ↔ c.entities = d.entities) := by
  refine ⟨fun versioned => ?_, ofCanonical?_canonical c.entities, ?_⟩
  · have back : read .json (Content.ofString (c.write .json)) = .ok c := by
      rw [read_write_json, requireVersion, versioned]
      rfl
    refine ⟨back, fun files files' path text json saved => ?_⟩
    obtain ⟨f, format, rfl, written⟩ := save_eq_ok.mp saved
    obtain rfl : f = .json := Except.ok.inj (format.symm.trans json)
    exact ⟨rfl, (load_of_open? json (Files.open?_write? written)).trans back⟩
  · rw [String.toList_toUTF8_inj]
    constructor
    · exact canonical_injective
    · rintro same
      rw [same]

/-- Quotes, backslashes, controls and characters beyond ASCII in every place where a text may stand. -/
theorem load_saved_json_escapes :
    let column : Column := ⟨"\\u0041\x01", .timestamp, true, false, true, true, some "\"Tag\""⟩
    let entity : Entity := ⟨"say \"\x1f\x7f\"", some "t\u00e9\u2028\r\n", true,
      [column, ⟨"", .text, false, true, false, false, none⟩]⟩
    let c : Catalog := ⟨"\t1", [entity, { name := "" }]⟩
    let d : Catalog := ⟨"", [entity, { name := "" }]⟩
    let files' : Files := ⟨[(["c.json"], .file (Content.ofString (c.write .json)))], []⟩
    isBlank c.version = false ∧ Format.ofPath "c.json" = .ok .json ∧
      c.save {} "c.json" = .ok (c.write .json, files') ∧ load files' "c.json" = .ok c ∧
      (canonical c.entities).toUTF8.toList = (canonical d.entities).toUTF8.toList := by
  intro column entity c d files'
  obtain ⟨loaded, _, bytes⟩ := load_saved_json c d
  have versioned : isBlank c.version = false := by decide
  have named : IsName "c.json" := by decide
  have format : Format.ofPath "c.json" = .ok .json := ofPath_name named (Format.ofName?_eq_some.mpr
    ⟨"c", "json", by decide, by decide, rfl⟩)
  have saved : c.save {} "c.json" = .ok (c.write .json, files') :=
    save_eq_ok.mpr ⟨.json, format, rfl, Files.write?_name named rfl rfl⟩
  exact ⟨versioned, format, saved, ((loaded versioned).2 {} files' "c.json" _ format saved).2, bytes.mpr rfl⟩

end Catalog

end Tabular
