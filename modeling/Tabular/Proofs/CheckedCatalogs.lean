import Tabular.CommandLine
import Tabular.Proofs.CatalogTexts
import Tabular.Proofs.Creation

/-!
# Catalogs that are checked, printed and migrated

A check looks at the entities one by one and then registers them, the printing of definitions registers them and looks
at each one again, and so does a creation. All three accept the same catalogs, and what is printed is what a creation
carries out after the table that remembers the fingerprint (`check_ddl_up`).
-/

namespace Tabular

open Sql Text

namespace Migration

variable {m : Migration} {ds more : List Definition}

theorem script_append : script (ds ++ more) = script ds ++ script more := by
  rw [script, script, script, List.map_append, String.join_append]

theorem script_cons (d : Definition) : script (d :: ds) = script [d] ++ script ds := by
  rw [← List.singleton_append, script_append]

/-- A creation carries out the definitions, all or none of them, and remembers the fingerprint. -/
def CarriesOut (m : Migration) (ds : List Definition) : Prop :=
  ∀ db : Database, m.up.outcome db =
    match db.defineAll ds with
    | .error f => (.error (.creation f), db)
    | .ok made =>
      match made.insert .replace metaName [("key", .text fingerprintKey), ("value", .text m.fingerprint)] with
      | .error f => (.error (.database f), db)
      | .ok (_, db') => (.ok (), db')

theorem carriesOut_of_batch (batch : m.batch = .ok ds) : m.CarriesOut (.createTable metaDefinition :: ds) := by
  intro db
  rewrite [outcome_up, batch]
  rfl

end Migration

namespace CommandLine

variable {files : Files} {path : String} {c : Catalog} {m : Migration} {es : List Entity}

theorem loadSchema_eq_ok {s : Schema} : loadSchema c = .ok s ↔ c.schema = .ok s :=
  Checks.mapError_eq_ok

/-- Entities that are registered together are valid each by itself. -/
theorem violations_of_schema {s : Schema} (registered : c.schema = .ok s) : ∀ e ∈ s.entities, e.violations = [] := by
  have made : Migration.ofCatalog c = .ok ⟨s, c.fingerprint⟩ := Migration.ofCatalog_eq_ok.mpr ⟨registered, rfl⟩
  exact (Migration.consistent_of_ofCatalog made).valid

theorem code_failure (reason : String) : (failure files reason).code ≠ 0 :=
  Nat.one_ne_zero

/-- A check that succeeds has found no fault in any entity, and none between them. -/
theorem code_check (json : Bool) : (check files path json).code = 0 ↔
    ∃ c, loadCatalog files path = .ok c ∧ (∀ e ∈ c.entities, e.violations = []) ∧ ∃ s, c.schema = .ok s := by
  rw [check]
  cases loaded : loadCatalog files path with
  | error reason => simp [code_failure]
  | ok c =>
    have faultless : (c.entities.countP fun e => !e.violations.isEmpty) = 0 ↔ ∀ e ∈ c.entities, e.violations = [] := by
      simp [List.countP_eq_zero]
    simp only [Except.ok.injEq, exists_eq_left', ← faultless]
    cases c.entities.countP fun e => !e.violations.isEmpty with
    | succ n => simp
    | zero =>
      simp only [← loadSchema_eq_ok, true_and]
      cases loadSchema c with
      | error reason => simp [code_failure]
      | ok s => simp [success]

/-- Valid entities are printed one after the other; the definitions come out as those of one list. -/
theorem printDefinitions_of_valid (valid : ∀ e ∈ es, e.violations = []) (printed : String) :
    printDefinitions files printed es =
      success files (printed ++ Migration.script (es.flatMap Migration.entityDefinitions)) := by
  -- Induction on the entities, for whatever is printed already.
  induction es generalizing printed with
  | nil =>
    have nothing : Migration.script ([].flatMap Migration.entityDefinitions) = "" := rfl
    rw [printDefinitions, nothing, String.append_empty]
  | cons e rest ih =>
    obtain ⟨here, others⟩ := List.forall_mem_cons.mp valid
    have table : e.creation = .ok (.createTable e.tableDefinition) := Entity.creation_eq_ok.mpr ⟨here, rfl⟩
    have indexes : e.indexing = .ok (e.indexDefinitions.map .createIndex) := Entity.indexing_eq_ok.mpr ⟨here, rfl⟩
    have parts : Migration.script (Migration.entityDefinitions e) =
        Migration.script [.createTable e.tableDefinition] ++
          Migration.script (e.indexDefinitions.map .createIndex) :=
      Migration.script_cons (.createTable e.tableDefinition)
    rw [printDefinitions, table]
    dsimp only
    rw [indexes]
    dsimp only
    rw [ih others, List.flatMap_cons, Migration.script_append, parts]
    simp only [String.append_assoc]

/-- The schema of a catalog that is accepted has valid entities, so that printing it cannot fail. -/
theorem ddl_of_schema {s : Schema} (loaded : loadCatalog files path = .ok c) (registered : c.schema = .ok s) :
    ddl files path = success files (Migration.script (s.entities.flatMap Migration.entityDefinitions)) := by
  have accepted : loadCatalog files path >>= loadSchema = .ok s :=
    Checks.bind_eq_ok.mpr ⟨c, loaded, loadSchema_eq_ok.mpr registered⟩
  rw [ddl, accepted]
  dsimp only
  rw [printDefinitions_of_valid (violations_of_schema registered), String.empty_append]

theorem code_ddl : (ddl files path).code = 0 ↔ ∃ c s, loadCatalog files path = .ok c ∧ c.schema = .ok s := by
  constructor
  · intro succeeded
    cases accepted : loadCatalog files path >>= loadSchema with
    | error reason =>
      rw [ddl, accepted] at succeeded
      exact absurd succeeded (code_failure reason)
    | ok s =>
      obtain ⟨c, loaded, registered⟩ := Checks.bind_eq_ok.mp accepted
      exact ⟨c, s, loaded, loadSchema_eq_ok.mp registered⟩
  · rintro ⟨c, s, loaded, registered⟩
    rw [ddl_of_schema loaded registered]
    rfl

/-! ## Agreement -/

/-- A catalog can be checked with success exactly when its definitions can be printed, and exactly when it can be
loaded and there is a migration of it. What is printed is then the text of what a creation carries out after the table
that remembers the fingerprint. -/
theorem check_ddl_up (files : Files) (path : String) (json : Bool) :
    ((execute files (.check path json)).code = 0 ↔ (execute files (.ddl path)).code = 0) ∧
    ((execute files (.ddl path)).code = 0 ↔
      ∃ c m, loadCatalog files path = .ok c ∧ Migration.ofCatalog c = .ok m) ∧
    ∀ c m, loadCatalog files path = .ok c → Migration.ofCatalog c = .ok m → ∃ ds, m.batch = .ok ds ∧
      m.CarriesOut (.createTable Migration.metaDefinition :: ds) ∧
      Migration.script (.createTable Migration.metaDefinition :: ds) =
        Migration.script [.createTable Migration.metaDefinition] ++ (execute files (.ddl path)).stdout := by
  simp only [execute]
  refine ⟨?_, ?_, fun c m loaded made => ?_⟩
  · rw [code_check, code_ddl]
    refine exists_congr fun c => ?_
    rw [exists_and_left]
    refine and_congr_right fun _ => and_iff_right_of_imp ?_
    rintro ⟨s, registered⟩
    rw [← Migration.entities_of_schema registered]
    exact violations_of_schema registered
  · rw [code_ddl]
    refine exists_congr fun c => ?_
    simp only [exists_and_left]
    refine and_congr_right fun _ => ?_
    constructor
    · rintro ⟨s, registered⟩
      exact ⟨⟨s, c.fingerprint⟩, Migration.ofCatalog_eq_ok.mpr ⟨registered, rfl⟩⟩
    · rintro ⟨m, made⟩
      exact ⟨m.schema, (Migration.ofCatalog_eq_ok.mp made).1⟩
  · have valid := (Migration.consistent_of_ofCatalog made).valid
    have batch : m.batch = .ok m.definitions := Migration.batch_eq_ok.mpr ⟨valid, rfl⟩
    refine ⟨m.definitions, batch, Migration.carriesOut_of_batch batch, ?_⟩
    rw [ddl_of_schema loaded (Migration.ofCatalog_eq_ok.mp made).1, Migration.script_cons]
    rfl

/-- A catalog in a file, with an index and a reference. -/
theorem check_ddl_up_index :
    let tag : Entity := ⟨"Tag", none, false, [⟨"name", .text, false, true, false, false, none⟩]⟩
    let note : Entity := ⟨"Note", some "notes", true, [⟨"id", .integer, false, true, false, false, none⟩,
      ⟨"tag", .text, true, false, false, true, some "Tag"⟩]⟩
    let c : Catalog := ⟨"1", [tag, note]⟩
    let files : Files := ⟨[(["c.json"], .file (Content.ofString (c.write .json)))], []⟩
    ∃ m, loadCatalog files "c.json" = .ok c ∧ Migration.ofCatalog c = .ok m ∧
      (execute files (.check "c.json" true)).code = 0 ∧
      Migration.script (.createTable Migration.metaDefinition :: m.definitions) =
        Migration.script [.createTable Migration.metaDefinition] ++ (execute files (.ddl "c.json")).stdout ∧
      (execute files (.ddl "c.json")).stdout =
        "CREATE TABLE IF NOT EXISTS \"Tag\" (\"name\" TEXT PRIMARY KEY);\n" ++
        "CREATE TABLE IF NOT EXISTS \"notes\" (\"id\" INTEGER PRIMARY KEY AUTOINCREMENT, " ++
        "\"tag\" TEXT REFERENCES \"Tag\");\n" ++
        "CREATE INDEX IF NOT EXISTS \"index_tag_on_notes\" ON \"notes\" (\"tag\");\n" := by
  intro tag note c files
  let s : Schema := ⟨[tag, note], [("Note", 1), ("Tag", 0)]⟩
  have registered : c.schema = .ok s := by decide +kernel
  have made : Migration.ofCatalog c = .ok ⟨s, c.fingerprint⟩ := Migration.ofCatalog_eq_ok.mpr ⟨registered, rfl⟩
  have named : IsName "c.json" := by decide
  have format : Format.ofPath "c.json" = .ok .json := Catalog.ofPath_name named (Format.ofName?_eq_some.mpr
    ⟨"c", "json", by decide, by decide, rfl⟩)
  have opened : files.open? "c.json" = some (.file (Content.ofString (c.write .json))) :=
    Files.open?_write? (f := {}) (Files.write?_name named rfl rfl)
  have versioned : c.requireVersion = .ok c := by decide +kernel
  have read : Catalog.load files "c.json" = .ok c := by
    rw [Catalog.load_of_open? format opened, Catalog.read_write_json, versioned]
  have loaded : loadCatalog files "c.json" = .ok c := by
    rw [loadCatalog, opened, read]
    rfl
  obtain ⟨checked, printed, batch⟩ := check_ddl_up files "c.json" true
  obtain ⟨ds, whole, _, text⟩ := batch c _ loaded made
  obtain ⟨_, rfl⟩ := Migration.batch_eq_ok.mp whole
  refine ⟨_, loaded, made, checked.mpr (printed.mpr ⟨c, _, loaded, made⟩), text, ?_⟩
  show (ddl files "c.json").stdout = _
  rw [ddl_of_schema loaded registered]
  decide +kernel

end CommandLine

end Tabular
