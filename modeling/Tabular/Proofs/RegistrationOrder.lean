import Tabular.Proofs.Refusals

/-!
# The order of registration

Entities that make a schema in one order make one in every other order that is `Ordered`, in which no entity refers to a
later one, and both schemas answer alike for every name. In any other order an entity is refused for a reference to a
later one (`ofEntities_perm`).
-/

namespace Tabular

/-- A column of the entity stands for an instance of the other one. -/
def Entity.RefersTo (e d : Entity) : Prop :=
  ∃ c ∈ e.columns, c.references = some d.tableName

namespace Schema

variable {s r : Schema} {e : Entity} {es ds rest : List Entity}

/-- Entities that fit together, in whatever order they stand. -/
structure Closed (es : List Entity) : Prop where
  names : (es.map (·.name)).Nodup
  tables : (es.map (·.tableName)).Nodup
  valid : ∀ e ∈ es, e.violations = []
  references : ∀ e ∈ es, ∀ c ∈ e.columns, ∀ table, c.references = some table →
    ∃ d ∈ es, ∃ k, d.tableName = table ∧ d.key? = some k ∧ k.kind = c.kind

/-- No entity refers to a later one. -/
def Ordered (es : List Entity) : Prop :=
  es.Pairwise fun earlier later => ¬ earlier.RefersTo later

theorem Consistent.closed (consistent : s.Consistent) : Closed s.entities where
  names := consistent.names
  tables := consistent.tables
  valid := consistent.valid
  references := by
    intro e known c member table refers
    obtain ⟨i, here⟩ := List.getElem?_of_mem known
    obtain ⟨j, d, k, _, there, named, key, kind, _⟩ := consistent.references i e c table here member refers
    exact ⟨d, List.mem_of_getElem? there, k, named, key, kind⟩

theorem Closed.perm (closed : Closed es) (perm : ds.Perm es) : Closed ds where
  names := (perm.map _).nodup_iff.mpr closed.names
  tables := (perm.map _).nodup_iff.mpr closed.tables
  valid := fun e known => closed.valid e (perm.mem_iff.mp known)
  references := by
    intro e known c member table refers
    obtain ⟨d, present, k, found⟩ := closed.references e (perm.mem_iff.mp known) c member table refers
    exact ⟨d, perm.mem_iff.mpr present, k, found⟩

/-- The next of entities that fit together has a name and a table of its own. -/
private theorem Closed.apart {f : Entity → String} (distinct : ((s.entities ++ e :: rest).map f).Nodup) :
    ∀ d ∈ s.entities, f d ≠ f e := by
  intro d known
  rw [List.map_append, List.nodup_append] at distinct
  exact distinct.2.2 (f d) (List.mem_map_of_mem known) (f e) (by simp)

theorem Closed.attaches_or_later (closed : Closed (s.entities ++ e :: rest)) {c : Column} (member : c ∈ e.columns) :
    s.Attaches e c ∨ ∃ d ∈ rest, c.references = some d.tableName := by
  cases refers : c.references with
  | none => exact .inl (by simp [Attaches, refers])
  | some table =>
    obtain ⟨d, known, k, named, key, kind⟩ := closed.references e (by simp) c member table refers
    rw [List.mem_append, List.mem_cons] at known
    rcases known with before | own | after
    · refine .inl fun table' same => ⟨d, k, .inr before, ?_, key, kind⟩
      exact named.trans (Option.some.inj (refers.symm.trans same))
    · refine .inl fun table' same => ⟨d, k, .inl own, ?_, key, kind⟩
      exact named.trans (Option.some.inj (refers.symm.trans same))
    · exact .inr ⟨d, after, by rw [named]⟩

theorem Closed.not_attaches (closed : Closed (s.entities ++ e :: rest)) {c : Column} {d : Entity} (later : d ∈ rest)
    (refers : c.references = some d.tableName) : ¬ s.Attaches e c := by
  intro attaches
  obtain ⟨d', _, known, named, _⟩ := attaches d.tableName refers
  have distinct := closed.tables
  rw [List.map_append, List.map_cons, List.nodup_append, List.nodup_cons] at distinct
  obtain ⟨_, ⟨own, _⟩, others⟩ := distinct
  rcases known with rfl | before
  · exact own (named ▸ List.mem_map_of_mem later)
  · refine others d'.tableName (List.mem_map_of_mem before) d.tableName ?_ named
    exact List.mem_cons_of_mem _ (List.mem_map_of_mem later)

theorem Closed.welcomes (closed : Closed (s.entities ++ e :: rest)) (ready : ∀ d ∈ rest, ¬ e.RefersTo d) :
    s.Welcomes e where
  name := Closed.apart closed.names
  valid := closed.valid e (by simp)
  table := Closed.apart closed.tables
  references := by
    intro c member
    rcases closed.attaches_or_later member with attaches | ⟨d, later, refers⟩
    · exact attaches
    · exact absurd ⟨c, member, refers⟩ (ready d later)

/-- An entity that refers to a later one is refused for the first column that does. -/
theorem Closed.refuses (closed : Closed (s.entities ++ e :: rest)) (early : ∃ d ∈ rest, e.RefersTo d) :
    ∃ c ∈ e.columns, ∃ d ∈ rest, c.references = some d.tableName ∧
      s.Refuses e (.invalidEntity e.name (.badReference c.name d.tableName)) := by
  classical
  obtain ⟨d, later, c, member, refers⟩ := early
  obtain ⟨c', found⟩ : ∃ c', e.columns.find? (fun c => ¬ s.Attaches e c) = some c' := by
    rw [← Option.isSome_iff_exists, List.find?_isSome]
    exact ⟨c, member, decide_eq_true (closed.not_attaches later refers)⟩
  obtain ⟨loose, before, after, split, earlier⟩ := List.find?_eq_some_iff_append.mp found
  have loose : ¬ s.Attaches e c' := by simpa using loose
  have listed : c' ∈ e.columns := by simp [split]
  rcases closed.attaches_or_later listed with attaches | ⟨d', later', refers'⟩
  · exact absurd attaches loose
  · refine ⟨c', listed, d', later', refers', ?_⟩
    exact .reference (Closed.apart closed.names) (closed.valid e (by simp)) (Closed.apart closed.tables) split
      (fun b front => by simpa using earlier b front) refers' loose

theorem Consistent.exists_foldlM (consistent : s.Consistent) (closed : Closed (s.entities ++ ds))
    (ordered : Ordered ds) : ∃ r, ds.foldlM Schema.register s = .ok r := by
  induction ds generalizing s with
  | nil => exact ⟨s, rfl⟩
  | cons e rest ih =>
    obtain ⟨ready, later⟩ := List.pairwise_cons.mp ordered
    have taken := consistent.register_eq_ok.mpr ⟨closed.welcomes ready, rfl⟩
    obtain ⟨r, made⟩ := ih (consistent.register taken) (by simpa using closed) later
    exact ⟨r, Checks.bind_eq_ok.mpr ⟨_, taken, made⟩⟩

/-- The first entity that refers to a later one is refused for it. -/
theorem Consistent.foldlM_eq_error (consistent : s.Consistent) (closed : Closed (s.entities ++ ds))
    (disordered : ¬ Ordered ds) : ∃ before e after, ds = before ++ e :: after ∧ ∃ c ∈ e.columns, ∃ d ∈ after,
      c.references = some d.tableName ∧
      ds.foldlM Schema.register s = .error (.invalidEntity e.name (.badReference c.name d.tableName)) := by
  induction ds generalizing s with
  | nil => exact absurd List.Pairwise.nil disordered
  | cons e rest ih =>
    by_cases early : ∃ d ∈ rest, e.RefersTo d
    · obtain ⟨c, member, d, later, refers, refuses⟩ := closed.refuses early
      refine ⟨[], e, rest, rfl, c, member, d, later, refers, ?_⟩
      exact Checks.bind_eq_error.mpr (.inl (consistent.register_eq_error.mpr refuses))
    · have ready : ∀ d ∈ rest, ¬ e.RefersTo d := fun d later refers => early ⟨d, later, refers⟩
      have taken := consistent.register_eq_ok.mpr ⟨closed.welcomes ready, rfl⟩
      have others : ¬ Ordered rest := fun ordered => disordered (List.pairwise_cons.mpr ⟨ready, ordered⟩)
      obtain ⟨before, e', after, rfl, c, member, d, later, refers, refused⟩ :=
        ih (consistent.register taken) (by simpa using closed) others
      refine ⟨e :: before, e', after, rfl, c, member, d, later, refers, ?_⟩
      exact Checks.bind_eq_error.mpr (.inr ⟨_, taken, refused⟩)

/-! ## Schemas of the same entities -/

theorem describe_eq_ok_iff {name : String} : s.describe name = .ok e ↔ s.find? name = some e := by
  rw [describe]
  cases s.find? name <;> simp

/-- What a schema answers for a name depends on its entities only, not on their order. -/
theorem Consistent.answers_of_perm (one : s.Consistent) (two : r.Consistent) (perm : r.entities.Perm s.entities)
    (name : String) : r.describe name = s.describe name ∧ r.contains name = s.contains name := by
  constructor
  · have found : r.find? name = s.find? name := by
      ext e
      rw [← describe_eq_ok_iff, ← describe_eq_ok_iff, one.describe_eq_ok, two.describe_eq_ok, perm.mem_iff]
    rw [describe, describe, found]
  · rw [Bool.eq_iff_iff, one.contains_iff, two.contains_iff]
    simp only [perm.mem_iff]

/-- Entities that make a schema make one in every order in which none refers to a later one, and each name is answered
as before. In any other order the first entity that refers to a later one is refused for that reference. -/
theorem ofEntities_perm (made : ofEntities es = .ok s) (perm : ds.Perm es) :
    (Ordered ds → ∃ r, ofEntities ds = .ok r ∧
      ∀ name, r.describe name = s.describe name ∧ r.contains name = s.contains name) ∧
    (¬ Ordered ds → ∃ before e after, ds = before ++ e :: after ∧ ∃ c ∈ e.columns, ∃ d ∈ after,
      c.references = some d.tableName ∧
      ofEntities ds = .error (.invalidEntity e.name (.badReference c.name d.tableName))) := by
  have consistent : s.Consistent := consistent_empty.foldlM made
  have entities : s.entities = es := entities_of_foldlM made
  have closed : Closed ds := (entities ▸ consistent.closed).perm perm
  refine ⟨fun ordered => ?_, fun disordered => ?_⟩
  · obtain ⟨r, made'⟩ := consistent_empty.exists_foldlM closed ordered
    refine ⟨r, made', consistent.answers_of_perm (consistent_empty.foldlM made') ?_⟩
    rw [entities, entities_of_foldlM made']
    exact perm
  · exact consistent_empty.foldlM_eq_error closed disordered

/-- An entity that refers to itself and to one before it, which may not be moved behind it. -/
theorem ofEntities_perm_reference :
    let tag : Entity := ⟨"Tag", none, false, [⟨"name", .text, false, true, false, false, none⟩]⟩
    let log : Entity := ⟨"Log", none, true, [⟨"id", .integer, false, true, false, false, none⟩]⟩
    let note : Entity := ⟨"Note", some "notes", true, [⟨"id", .integer, false, true, false, false, none⟩,
      ⟨"parent", .integer, true, false, false, false, some "notes"⟩,
      ⟨"tag", .text, true, false, false, false, some "Tag"⟩]⟩
    let s : Schema := ⟨[log, tag, note], [("Note", 2), ("Tag", 1), ("Log", 0)]⟩
    ofEntities [log, tag, note] = .ok s ∧ [tag, note, log].Perm [log, tag, note] ∧
      [note, log, tag].Perm [log, tag, note] ∧
      (∃ r, ofEntities [tag, note, log] = .ok r ∧ r.describe "Note" = .ok note ∧ r.contains "Log" = true) ∧
      ∃ (e : Entity) (c : Column) (table : String), c ∈ e.columns ∧ c.references = some table ∧
        ofEntities [note, log, tag] = .error (.invalidEntity e.name (.badReference c.name table)) := by
  intro tag log note s
  have made : ofEntities [log, tag, note] = .ok s := by decide +kernel
  have one : [tag, note, log].Perm [log, tag, note] := by decide
  have two : [note, log, tag].Perm [log, tag, note] := by decide
  have ordered : Ordered [tag, note, log] := by
    simp [Ordered, Entity.RefersTo, tag, note, log, Entity.tableName]
  have disordered : ¬ Ordered [note, log, tag] := by
    simp [Ordered, Entity.RefersTo, tag, note, log, Entity.tableName]
  refine ⟨made, one, two, ?_, ?_⟩
  · obtain ⟨r, made', same⟩ := (ofEntities_perm made one).1 ordered
    exact ⟨r, made', (same "Note").1.trans (by decide +kernel), (same "Log").2.trans (by decide +kernel)⟩
  · obtain ⟨_, e, _, _, c, member, d, _, refers, refused⟩ := (ofEntities_perm made two).2 disordered
    exact ⟨e, c, d.tableName, member, refers, refused⟩

end Schema

end Tabular
