import Tabular.Proofs.CatalogTexts
import Tabular.Proofs.FirstMigration

/-!
# What a fingerprint tells

Whatever was done with whatever catalogs, starting from an empty database, the fingerprint that is remembered is that
of the last creation that succeeded, and nothing has changed since (`recorded_reached`). A creation keeps the tables
that it finds, so that a status that matches tells that the entities are the same, and of their tables that they are as
declared exactly when the creation did not find others of their names (`status_matching`).
-/

namespace Tabular

open Sql Text

namespace Digest

/-- Two messages that a digest does not tell apart. -/
def Collision (x y : List UInt8) : Prop :=
  x ≠ y ∧ sha256 x = sha256 y

theorem hexText_injective {xs ys : List UInt8} (same : hexText xs = hexText ys) : xs = ys := by
  rw [hexText, hexText, String.ofList_inj] at same
  induction xs generalizing ys with
  | nil =>
    cases ys with
    | nil => rfl
    | cons y rest => cases same
  | cons x more ih =>
    cases ys with
    | nil => cases same
    | cons y rest =>
      simp only [List.flatMap_cons, List.cons_append, List.nil_append, List.cons.injEq] at same
      obtain ⟨high, low, others⟩ := same
      have x_lt := x.toNat_lt
      have y_lt := y.toNat_lt
      have high' := digit_injective (by omega) (by omega) high
      have low' := digit_injective (by omega) (by omega) low
      have equal : x = y := UInt8.toNat_inj.mp (by omega)
      rw [equal, ih others]

end Digest

namespace Catalog

/-- The bytes that the fingerprint is made of. -/
def bytes (c : Catalog) : List UInt8 :=
  (canonical c.entities).toUTF8.toList

theorem entities_of_fingerprint {c d : Catalog} (same : c.fingerprint = d.fingerprint) :
    c.entities = d.entities ∨ Digest.Collision c.bytes d.bytes := by
  have digests : Digest.sha256 c.bytes = Digest.sha256 d.bytes := Digest.hexText_injective same
  by_cases equal : c.bytes = d.bytes
  · exact .inl (canonical_injective (String.toList_toUTF8_inj.mp equal))
  · exact .inr ⟨equal, digests⟩

end Catalog

namespace Migration

variable {m : Migration} {db db' found : Database} {e : Entity}

/-- What is done with the tables of a catalog. -/
structure Use where
  action : Action
  catalog : Catalog

/-- The database that a use leaves. A catalog that is refused changes nothing. -/
def Use.leave (u : Use) (db : Database) : Database :=
  match ofCatalog u.catalog with
  | .ok m => (m.perform u.action).after db
  | .error _ => db

/-- The database that uses lead to, one after the other from the empty one. -/
def reached (uses : List Use) : Database :=
  uses.foldl (fun db u => u.leave db) {}

theorem leave_of_up {c : Catalog} (made : ofCatalog c = .ok m) (done : m.up.outcome db = (.ok (), db')) :
    Use.leave ⟨.up, c⟩ db = db' := by
  simp only [Use.leave, made, perform, Session.after, done]

theorem reached_concat (uses : List Use) (u : Use) : reached (uses ++ [u]) = u.leave (reached uses) := by
  rw [reached, List.foldl_append]
  rfl

/-- What the creation of a use finds: what was there, or what its removal leaves of it. -/
def Use.Finds (u : Use) (m : Migration) (db found : Database) : Prop :=
  u.action = .up ∧ found = db ∨ u.action = .refresh ∧ m.down.outcome db = (.ok (), found)

theorem Use.leave_cases (u : Use) (db : Database) : u.leave db = db ∨ ∃ m, ofCatalog u.catalog = .ok m ∧
    ((∃ found, u.Finds m db found ∧ m.up.outcome found = (.ok (), u.leave db)) ∨
      m.down.outcome db = (.ok (), u.leave db)) := by
  cases made : ofCatalog u.catalog with
  | error f => exact .inl (by simp [Use.leave, made])
  | ok m =>
    have left : u.leave db = ((m.perform u.action).outcome db).2 := by simp only [Use.leave, made, Session.after]
    rw [left]
    rcases answer : (m.perform u.action).outcome db with ⟨f | ⟨⟩, after⟩
    · rcases perform_eq_error answer with ⟨_, rfl⟩ | ⟨_, _, removed, _⟩
      · exact .inl rfl
      · exact .inr ⟨m, rfl, .inr removed⟩
    · refine .inr ⟨m, rfl, ?_⟩
      rcases u with ⟨_ | _ | _, c⟩
      · exact .inl ⟨db, .inl ⟨rfl, rfl⟩, answer⟩
      · exact .inr answer
      · obtain ⟨_, found, removed, created⟩ := Session.bind_eq_ok.mp answer
        exact .inl ⟨found, .inr ⟨rfl, removed⟩, created⟩

theorem mem_tableNames_meta (m : Migration) : metaName ∈ m.tableNames := by
  simp [tableNames]

theorem table?_meta_of_down (done : m.down.outcome db = (.ok (), db')) : db'.table? metaName = none := by
  rw [down_eq_ok done, Database.table?_without, if_pos]
  exact List.any_eq_true.mpr ⟨metaName, mem_tableNames_meta m, sameName_self metaName⟩

theorem sound_of_down (done : m.down.outcome db = (.ok (), db')) (sound : db.Sound) : db'.Sound := by
  rw [down_eq_ok done]
  constructor
  · intro t member
    exact sound.tables t (List.mem_of_mem_filter member)
  · exact sound.names.sublist (List.filter_sublist.map _)

/-- A sound database in which the table that remembers the fingerprint was made for it, if there is one. -/
structure Wellmade (db : Database) : Prop where
  sound : db.Sound
  remembers : Remembers db

theorem wellmade_empty : Wellmade {} := by
  refine ⟨Database.sound_empty, ?_⟩
  intro t found
  cases found

theorem Wellmade.down (wellmade : Wellmade db) (done : m.down.outcome db = (.ok (), db')) : Wellmade db' := by
  refine ⟨sound_of_down done wellmade.sound, ?_⟩
  intro t found
  rw [table?_meta_of_down done] at found
  cases found

theorem Wellmade.up (wellmade : Wellmade db) (done : m.up.outcome db = (.ok (), db')) : Wellmade db' := by
  refine ⟨sound_of_up done wellmade.sound, ?_⟩
  intro t found
  obtain ⟨u, found', made⟩ := wellmade.remembers.up done
  obtain rfl := Option.some.inj (found.symm.trans found')
  exact made

theorem Use.Finds.wellmade {u : Use} (finds : u.Finds m db found) (wellmade : Wellmade db) : Wellmade found := by
  rcases finds with ⟨_, rfl⟩ | ⟨_, removed⟩
  · exact wellmade
  · exact wellmade.down removed

/-- The last use that created tables, with its migration and the database that its creation found. Nothing has changed
since. -/
structure LastCreation (uses : List Use) (u : Use) (m : Migration) (found : Database) : Prop where
  position : ∃ before after, uses = before ++ u :: after ∧ u.Finds m (reached before) found
  made : ofCatalog u.catalog = .ok m
  wellmade : Wellmade found
  done : m.up.outcome found = (.ok (), reached uses)

/-- What is remembered after uses, if anything, is what the last creation left. -/
structure Recorded (uses : List Use) : Prop where
  wellmade : Wellmade (reached uses)
  last : (reached uses).table? metaName = none ∨ ∃ u m found, LastCreation uses u m found

theorem LastCreation.concat {uses : List Use} {u v : Use} (last : LastCreation uses u m found)
    (same : reached (uses ++ [v]) = reached uses) : LastCreation (uses ++ [v]) u m found := by
  obtain ⟨before, after, rfl, finds⟩ := last.position
  refine ⟨⟨before, after ++ [v], by simp, finds⟩, last.made, last.wellmade, ?_⟩
  rw [same]
  exact last.done

/-- Whatever uses came before, the next one keeps the record: it changes nothing, or is itself the last creation, or
removes what was remembered. -/
theorem Recorded.concat {uses : List Use} (recorded : Recorded uses) (u : Use) : Recorded (uses ++ [u]) := by
  rcases u.leave_cases (reached uses) with same | ⟨m, made, ⟨found, finds, created⟩ | removed⟩
  · rw [← reached_concat] at same
    constructor
    · rw [same]
      exact recorded.wellmade
    · rcases recorded.last with nothing | ⟨v, m, found, last⟩
      · exact .inl (by rw [same, nothing])
      · exact .inr ⟨v, m, found, last.concat same⟩
  · rw [← reached_concat] at created
    have wellmade := finds.wellmade recorded.wellmade
    exact ⟨wellmade.up created, .inr ⟨u, m, found, ⟨uses, [], rfl, finds⟩, made, wellmade, created⟩⟩
  · rw [← reached_concat] at removed
    exact ⟨recorded.wellmade.down removed, .inl (table?_meta_of_down removed)⟩

theorem recorded_reached (uses : List Use) : Recorded uses := by
  induction uses using List.reverseRecOn with
  | nil => exact ⟨wellmade_empty, .inl rfl⟩
  | append_singleton uses u ih => exact ih.concat u

/-- The table of an entity has the columns that its definition declares, with their types and constraints. -/
def AsDeclared (db : Database) (e : Entity) : Prop :=
  ∃ t, db.table? e.tableName = some t ∧ e.creation = .ok (.createTable t.definition)

theorem asDeclared_iff_definition (valid : e.violations = []) :
    AsDeclared db e ↔ (db.table? e.tableName).map (·.definition) = some e.tableDefinition := by
  have creation : ∀ d, e.creation = .ok (.createTable d) ↔ d = e.tableDefinition := by
    intro d
    simp [Entity.creation_eq_ok, valid]
  simp only [AsDeclared, creation, Option.map_eq_some_iff]

theorem table?_of_hasTable (sound : db.Sound) {name : String} (present : hasTable db name = true) :
    ∃ t, db.table? name = some t ∧ t.name = name := by
  obtain ⟨t, member, rfl⟩ := mem_of_hasTable present
  exact ⟨t, sound.table?_of_mem member, rfl⟩

/-- Where a creation finds a name free, it leaves the table made for the name, unless it is that of the fingerprint. -/
theorem definition_of_free (consistent : m.schema.Consistent) (sound : db.Sound)
    (done : m.up.outcome found = (.ok (), db)) (known : e ∈ m.schema.entities)
    (present : hasTable db e.tableName = true) (free : found.table? e.tableName = none) :
    (db.table? e.tableName).map (·.definition) = some e.tableDefinition ∨
      sameName metaName e.tableName = true ∧ (db.table? e.tableName).map (·.definition) = some metaDefinition := by
  obtain ⟨t, here, named⟩ := table?_of_hasTable sound present
  have stands := table?_up done e.tableName
  rw [free, here, Option.map_none, Option.none_or, Option.map_some] at stands
  rw [here, Option.map_some]
  rcases List.mem_cons.mp (List.mem_of_find?_eq_some stands.symm) with own | entity
  · have same := List.find?_some stands.symm
    rw [own] at same
    exact .inr ⟨same, by rw [own]⟩
  · -- The table has the very name of the entity, and tables tell entities apart.
    obtain ⟨other, known', definition⟩ := List.mem_map.mp entity
    have tables : other.tableName = e.tableName := by
      rw [← named]
      exact congrArg TableDefinition.name definition
    obtain rfl : other = e := List.inj_on_of_nodup_map consistent.tables known' known tables
    exact .inl (by rw [definition])

/-- A table that was created is as declared exactly when its creation found no other table of its name. -/
theorem asDeclared_iff (consistent : m.schema.Consistent) (wellmade : Wellmade found)
    (done : m.up.outcome found = (.ok (), db)) (known : e ∈ m.schema.entities)
    (present : hasTable db e.tableName = true) : AsDeclared db e ↔
      ∀ d ∈ metaDefinition :: found.tables.map (·.definition), sameName d.name e.tableName = true →
        d = e.tableDefinition := by
  have stands := table?_up done e.tableName
  rw [asDeclared_iff_definition (consistent.valid e known), List.forall_mem_cons, List.forall_mem_map]
  constructor
  · intro declared
    constructor
    · intro same
      have named : foldCase metaName = foldCase e.tableName := Database.sameName_iff.mp same
      obtain ⟨t, here, own⟩ := wellmade.remembers.up done
      rw [← Database.table?_congr named, here, Option.map_some, own] at declared
      exact Option.some.inj declared
    · intro t member same
      have named : foldCase t.name = foldCase e.tableName := Database.sameName_iff.mp same
      have here := wellmade.sound.table?_of_mem member
      rw [Database.table?_congr named] at here
      rw [here, Option.map_some, Option.some_or, declared] at stands
      exact (Option.some.inj stands).symm
  · rintro ⟨own, others⟩
    cases before : found.table? e.tableName with
    | some t =>
      have same := Database.sameName_iff.mpr (Database.foldCase_of_table? before)
      rw [stands, before, Option.map_some, Option.some_or, others t (Database.mem_of_table? before) same]
    | none =>
      rcases definition_of_free consistent (sound_of_up done wellmade.sound) done known present before with
        made | ⟨same, made⟩
      · exact made
      · rw [made, own same]

/-! ## Status -/

theorem stored_of_none (nothing : db.table? metaName = none) : stored.outcome db = (.ok none, db) := by
  have absent : ¬ hasTable db metaName = true := by
    intro present
    obtain ⟨t, member, named⟩ := mem_of_hasTable present
    exact Database.table?_eq_none.mp nothing t member (congrArg foldCase named)
  rw [stored, Session.outcome_bind]
  show Session.outcome (if hasTable db metaName = true then _ else _) db = _
  rw [if_neg absent]
  rfl

/-! ## Tables that are kept -/

theorem defineAll_of_taken {es : List Entity} (unreserved : ∀ e ∈ es, Database.isReserved e.tableName = false)
    (taken : ∀ e ∈ es, (db.table? e.tableName).isSome = true) (plain : ∀ e ∈ es, e.indexDefinitions = []) :
    db.defineAll (es.flatMap entityDefinitions) = .ok db := by
  induction es with
  | nil => rfl
  | cons e rest ih =>
    obtain ⟨unreserved, unreserved'⟩ := List.forall_mem_cons.mp unreserved
    obtain ⟨taken, taken'⟩ := List.forall_mem_cons.mp taken
    obtain ⟨plain, plain'⟩ := List.forall_mem_cons.mp plain
    have here : (db.table? e.tableDefinition.name).isSome = true := taken
    have kept : db.createTable e.tableDefinition = .ok db := (Database.createTable_of_taken here).mpr ⟨unreserved, rfl⟩
    rw [List.flatMap_cons, entityDefinitions, plain]
    exact Checks.bind_eq_ok.mpr ⟨db, kept, ih unreserved' taken' plain'⟩

/-- A creation that finds all its tables, in a database without rows, succeeds whatever their columns are. -/
theorem exists_up_of_taken {t : Table} (valid : ∀ e ∈ m.schema.entities, e.violations = [])
    (found : db.table? metaName = some t) (own : t.definition = metaDefinition)
    (others : ∀ u ∈ db.tables, u.definition = metaDefinition ∨ u.rows = [])
    (unreserved : ∀ e ∈ m.schema.entities, Database.isReserved e.tableName = false)
    (taken : ∀ e ∈ m.schema.entities, (db.table? e.tableName).isSome = true)
    (plain : ∀ e ∈ m.schema.entities, e.indexDefinitions = []) : ∃ db', m.up.outcome db = (.ok (), db') := by
  have known : (db.table? metaDefinition.name).isSome = true := Option.isSome_iff_exists.mpr ⟨t, found⟩
  have kept := (Database.createTable_of_taken known).mpr ⟨by decide +kernel, rfl⟩
  have defined : db.defineAll (.createTable metaDefinition :: m.definitions) = .ok db :=
    Checks.bind_eq_ok.mpr ⟨db, kept, defineAll_of_taken unreserved taken plain⟩
  obtain ⟨row, db', inserted⟩ := exists_insert found own others m.fingerprint
  exact ⟨db', up_eq_ok.mpr ⟨valid, db, row, defined, inserted⟩⟩

/-- After the first creation only the table that remembers the fingerprint has rows. -/
theorem Made.rows_of_replaces {es : List Entity} {t t' : Table} (made : Made es db)
    (replaces : Database.Replaces db db' metaName t t') :
    ∀ u ∈ db'.tables, u.definition = metaDefinition ∨ u.rows = [] := by
  intro u member
  rw [replaces.replaced] at member
  rcases Database.mem_setTable member with rfl | old
  · obtain rfl := Option.some.inj (replaces.found.symm.trans made.table?_meta)
    exact .inl replaces.definition
  · exact .inr (made.rows_eq_nil u old)

/-- The creation of a table for an entity after that for another one. -/
def successive (a b : Entity) : List Use :=
  [⟨.up, ⟨"1", [a]⟩⟩, ⟨.up, ⟨"1", [b]⟩⟩]

/-- When the second entity has the table of the first, the status matches and the table is as the first declared it. -/
theorem status_of_kept_table {a b : Entity} {s s' : Schema} (first : Catalog.schema ⟨"1", [a]⟩ = .ok s)
    (second : Catalog.schema ⟨"1", [b]⟩ = .ok s') (apart : TablesApart [a]) (creatable : Creatable [a])
    (named : b.tableName = a.tableName) (plain : b.indexDefinitions = []) :
    ∃ m st, ofCatalog ⟨"1", [b]⟩ = .ok m ∧
      m.status.outcome (reached (successive a b)) = (.ok st, reached (successive a b)) ∧
      st.allExist = true ∧ st.matching = true ∧
      ((reached (successive a b)).table? b.tableName).map (·.definition) = some a.tableDefinition := by
  let m : Migration := ⟨s, Catalog.fingerprint ⟨"1", [a]⟩⟩
  let m' : Migration := ⟨s', Catalog.fingerprint ⟨"1", [b]⟩⟩
  have made : ofCatalog ⟨"1", [a]⟩ = .ok m := ofCatalog_eq_ok.mpr ⟨first, rfl⟩
  have made' : ofCatalog ⟨"1", [b]⟩ = .ok m' := ofCatalog_eq_ok.mpr ⟨second, rfl⟩
  have entities : m.schema.entities = [a] := entities_of_schema first
  have entities' : m'.schema.entities = [b] := entities_of_schema second
  rw [← entities] at apart creatable
  obtain ⟨between, db, t, t', done, shape, sound, replaces⟩ :=
    exists_up (consistent_of_ofCatalog made).valid apart creatable
  -- The table that the first creation leaves.
  have declared : (db.table? b.tableName).map (·.definition) = some a.tableDefinition := by
    have known : a ∈ m.schema.entities := by simp [entities]
    rw [named, replaces.table?, if_neg (apart.ne_meta known), shape.table?_of_mem sound known]
    rfl
  obtain ⟨u, found, own⟩ := wellmade_empty.remembers.up done
  have taken : (db.table? b.tableName).isSome = true := by
    rw [← Option.isSome_map, declared]
    rfl
  have unreserved : Database.isReserved b.tableName = false := by
    rw [named]
    exact creatable.unreserved a (by simp [entities])
  obtain ⟨db', done'⟩ : ∃ db', m'.up.outcome db = (.ok (), db') := by
    have each : ∀ {p : Entity → Prop}, p b → ∀ e ∈ m'.schema.entities, p e := by
      intro p holds
      rw [entities', List.forall_mem_singleton]
      exact holds
    exact exists_up_of_taken (consistent_of_ofCatalog made').valid found own (shape.rows_of_replaces replaces)
      (each unreserved) (each taken) (each plain)
  have kept : (db'.table? b.tableName).map (·.definition) = some a.tableDefinition := by
    rw [table?_up done', declared, Option.some_or]
  have left : reached (successive a b) = db' := by
    show Use.leave _ (Use.leave _ {}) = db'
    rw [leave_of_up made done, leave_of_up made' done']
  rw [left]
  have remembered := stored_of_up (wellmade_empty.up done).remembers done'
  refine ⟨m', ⟨[b].map (presence db'), some m'.fingerprint, m'.fingerprint⟩, made',
    status_eq_ok.mpr ⟨by rw [entities'], rfl, remembered, rfl⟩, ?_, beq_self_eq_true _, kept⟩
  obtain ⟨u, found, definition⟩ := Option.map_eq_some_iff.mp kept
  have present : hasTable db' b.tableName = true :=
    hasTable_of_table? found ((congrArg TableDefinition.name definition).trans named.symm)
  simp [Status.allExist, presence, present]

/-! ## Status that matches -/

/-- Whatever was done before with whatever catalogs: when the status of a catalog tells that all tables exist and that
the fingerprint is the one remembered, then the last creation was for the same entities, unless digests collide, and
nothing has changed since. The table of an entity is as declared exactly when that creation did not find another
table of its name. -/
theorem status_matching {c : Catalog} {uses : List Use} {st : Status} (made : ofCatalog c = .ok m)
    (asked : m.status.outcome (reached uses) = (.ok st, db)) (exist : st.allExist = true)
    (matching : st.matching = true) :
    ∃ u m' found, LastCreation uses u m' found ∧ (Digest.Collision c.bytes u.catalog.bytes ∨
      c.entities = u.catalog.entities ∧ ∀ e ∈ c.entities, AsDeclared (reached uses) e ↔
        ∀ d ∈ metaDefinition :: found.tables.map (·.definition), sameName d.name e.tableName = true →
          d = e.tableDefinition) := by
  obtain ⟨tables, printed, remembered, rfl⟩ := status_eq_ok.mp asked
  have same : st.stored = some m.fingerprint := by
    rw [← printed]
    exact beq_iff_eq.mp matching
  rw [same] at remembered
  rcases (recorded_reached uses).last with nothing | ⟨u, m', found, last⟩
  · rw [stored_of_none nothing] at remembered
    cases remembered
  refine ⟨u, m', found, last, ?_⟩
  rw [stored_of_up last.wellmade.remembers last.done] at remembered
  have fingerprints : c.fingerprint = u.catalog.fingerprint := by
    rw [← (ofCatalog_eq_ok.mp made).2, ← (ofCatalog_eq_ok.mp last.made).2]
    simpa using remembered.symm
  rcases Catalog.entities_of_fingerprint fingerprints with equal | collision
  · refine .inr ⟨equal, fun e known => ?_⟩
    have entities := entities_of_schema (ofCatalog_eq_ok.mp made).1
    have entities' := entities_of_schema (ofCatalog_eq_ok.mp last.made).1
    have present : hasTable (reached uses) e.tableName = true := by
      rw [Status.allExist, tables, List.all_map, List.all_eq_true, entities] at exist
      have here : (presence (reached uses) e).present = true := exist e known
      rw [presence] at here
      by_contra absent
      rw [if_neg absent] at here
      cases here
    exact asDeclared_iff (consistent_of_ofCatalog last.made) last.wellmade last.done
      (by rw [entities', ← equal]; exact known) present
  · exact .inl collision

/-- A creation with one column more than the table that it finds. -/
theorem status_matching_kept :
    let id : Column := ⟨"id", .integer, false, true, false, false, none⟩
    let a : Entity := ⟨"Note", none, false, [id]⟩
    let b : Entity := ⟨"Note", none, false, [id, ⟨"text", .text, false, false, false, false, none⟩]⟩
    let uses : List Use := [⟨.up, ⟨"1", [a]⟩⟩, ⟨.up, ⟨"1", [b]⟩⟩]
    ∃ m st u m' found, ofCatalog ⟨"1", [b]⟩ = .ok m ∧ m.status.outcome (reached uses) = (.ok st, reached uses) ∧
      st.allExist = true ∧ st.matching = true ∧ LastCreation uses u m' found ∧
      (Digest.Collision (Catalog.bytes ⟨"1", [b]⟩) u.catalog.bytes ∨ [b] = u.catalog.entities ∧
        (AsDeclared (reached uses) b ↔ ∀ d ∈ metaDefinition :: found.tables.map (·.definition),
          sameName d.name "Note" = true → d = b.tableDefinition)) := by
  intro id a b uses
  have apart : TablesApart [a] := by
    rw [TablesApart]
    decide +kernel
  have creatable : Creatable [a] := ⟨by decide +kernel, by decide +kernel, by decide +kernel, by decide +kernel⟩
  have first : Catalog.schema ⟨"1", [a]⟩ = .ok ⟨[a], [("Note", 0)]⟩ := by decide +kernel
  have second : Catalog.schema ⟨"1", [b]⟩ = .ok ⟨[b], [("Note", 0)]⟩ := by decide +kernel
  obtain ⟨m, st, made, asked, exist, matching, _⟩ := status_of_kept_table first second apart creatable rfl rfl
  obtain ⟨u, m', found, last, told⟩ := status_matching made asked exist matching
  refine ⟨m, st, u, m', found, made, asked, exist, matching, last, ?_⟩
  rcases told with collision | ⟨same, declared⟩
  · exact .inl collision
  · exact .inr ⟨same, declared b (List.mem_singleton_self b)⟩

/-- The status matches although the table lacks a column. -/
theorem status_matching_column_lost :
    ¬ ∀ (c : Catalog) (m : Migration) (uses : List Use) (st : Status), ofCatalog c = .ok m →
      m.status.outcome (reached uses) = (.ok st, reached uses) → st.allExist = true → st.matching = true →
      ∀ e ∈ c.entities, AsDeclared (reached uses) e := by
  intro declared
  let id : Column := ⟨"id", .integer, false, true, false, false, none⟩
  let a : Entity := ⟨"Note", none, false, [id]⟩
  let b : Entity := ⟨"Note", none, false, [id, ⟨"text", .text, false, false, false, false, none⟩]⟩
  have apart : TablesApart [a] := by
    rw [TablesApart]
    decide +kernel
  have creatable : Creatable [a] := ⟨by decide +kernel, by decide +kernel, by decide +kernel, by decide +kernel⟩
  have first : Catalog.schema ⟨"1", [a]⟩ = .ok ⟨[a], [("Note", 0)]⟩ := by decide +kernel
  have second : Catalog.schema ⟨"1", [b]⟩ = .ok ⟨[b], [("Note", 0)]⟩ := by decide +kernel
  obtain ⟨m, st, made, asked, exist, matching, kept⟩ := status_of_kept_table first second apart creatable rfl rfl
  have wrong := declared _ m _ st made asked exist matching b (List.mem_singleton_self b)
  rw [asDeclared_iff_definition (by decide +kernel), kept] at wrong
  exact absurd wrong (by decide +kernel)

end Migration

end Tabular
