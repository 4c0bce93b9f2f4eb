import Tabular.Proofs.Registration

/-!
# Entities that a schema takes or refuses

A schema takes an entity when it `Welcomes` it, and refuses any other for the first reason there is, in the order of
`Refuses`. An entity that is refused leaves the schema as it was, and one that is taken changes nothing for the names
before it (`register_outcome`).
-/

namespace Tabular

theorem Checks.refuse_eq_error {ε β : Type} {p : Prop} [Decidable p] {fault f : ε} {next : PUnit → Except ε β} :
    (if p then throw fault >>= next else next ⟨⟩) = .error f ↔ p ∧ f = fault ∨ ¬ p ∧ next ⟨⟩ = .error f := by
  by_cases refused : p
  · simp [refused, bind, Except.bind, throw, throwThe, MonadExceptOf.throw, eq_comm]
  · simp [refused]

theorem Entity.requireValid_eq_error {e : Entity} {f : Fault} :
    e.requireValid = .error f ↔ ∃ reason more, e.violations = reason :: more ∧ f = .invalidEntity e.name reason := by
  rw [requireValid]
  cases e.violations with
  | nil => simp
  | cons first more => simp [eq_comm]

namespace Schema

variable {s s' : Schema} {e : Entity} {f : Fault} {es ds : List Entity}

/-- What a column of a new entity refers to is the entity itself or one of the schema, with a key of the column's
kind. -/
def Attaches (s : Schema) (e : Entity) (c : Column) : Prop :=
  ∀ table, c.references = some table →
    ∃ d k, (d = e ∨ d ∈ s.entities) ∧ d.tableName = table ∧ d.key? = some k ∧ k.kind = c.kind

/-- An entity that fits beside those of a schema. -/
structure Welcomes (s : Schema) (e : Entity) : Prop where
  name : ∀ d ∈ s.entities, d.name ≠ e.name
  valid : e.violations = []
  table : ∀ d ∈ s.entities, d.tableName ≠ e.tableName
  references : ∀ c ∈ e.columns, s.Attaches e c

/-- The first reason for which an entity does not fit beside those of a schema. -/
inductive Refuses (s : Schema) (e : Entity) : Fault → Prop
  | name (taken : ∃ d ∈ s.entities, d.name = e.name) : Refuses s e (.duplicateEntity e.name)
  | invalid {reason : Violation} {more : List Violation} (fresh : ∀ d ∈ s.entities, d.name ≠ e.name)
      (broken : e.violations = reason :: more) : Refuses s e (.invalidEntity e.name reason)
  | table (fresh : ∀ d ∈ s.entities, d.name ≠ e.name) (valid : e.violations = [])
      (taken : ∃ d ∈ s.entities, d.tableName = e.tableName) :
      Refuses s e (.invalidEntity e.name (.tableTaken e.tableName))
  | reference {before after : List Column} {c : Column} {table : String} (fresh : ∀ d ∈ s.entities, d.name ≠ e.name)
      (valid : e.violations = []) (free : ∀ d ∈ s.entities, d.tableName ≠ e.tableName)
      (split : e.columns = before ++ c :: after) (earlier : ∀ b ∈ before, s.Attaches e b)
      (refers : c.references = some table) (loose : ¬ s.Attaches e c) :
      Refuses s e (.invalidEntity e.name (.badReference c.name table))

theorem Consistent.contains_eq_false (consistent : s.Consistent) {name : String} :
    s.contains name = false ↔ ∀ d ∈ s.entities, d.name ≠ name := by
  rw [← Bool.not_eq_true, consistent.contains_iff]
  simp

/-- An entity with the table of a reference is found under it, as no other has the table. -/
theorem target?_eq_some (tables : (s.entities.map (·.tableName)).Nodup)
    (free : ∀ d ∈ s.entities, d.tableName ≠ e.tableName) {table : String} {d : Entity} :
    s.target? e table = some d ↔ (d = e ∨ d ∈ s.entities) ∧ d.tableName = table := by
  rw [target?]
  by_cases own : table = e.tableName
  · rw [if_pos own, Option.some.injEq]
    constructor
    · rintro rfl
      exact ⟨.inl rfl, own.symm⟩
    · rintro ⟨rfl | known, named⟩
      · rfl
      · exact absurd (named.trans own) (free d known)
  · rw [if_neg own]
    constructor
    · intro found
      exact ⟨.inr (List.mem_of_find?_eq_some found), by simpa using List.find?_some found⟩
    · rintro ⟨rfl | known, named⟩
      · exact absurd named.symm own
      · obtain ⟨d', found⟩ : ∃ d', s.entities.find? (·.tableName = table) = some d' := by
          rw [← Option.isSome_iff_exists, List.find?_isSome]
          exact ⟨d, known, by simpa using named⟩
        have named' : d'.tableName = table := by simpa using List.find?_some found
        have same : d' = d :=
          List.inj_on_of_nodup_map tables (List.mem_of_find?_eq_some found) known (named'.trans named.symm)
        rw [found, same]

theorem resolves_iff_attaches (tables : (s.entities.map (·.tableName)).Nodup)
    (free : ∀ d ∈ s.entities, d.tableName ≠ e.tableName) {c : Column} : s.resolves e c = true ↔ s.Attaches e c := by
  cases refers : c.references with
  | none => simp [resolves, Attaches, refers]
  | some table =>
    rw [resolves_iff refers, Attaches, refers]
    simp only [target?_eq_some tables free, Option.some.injEq, forall_eq']
    constructor
    · rintro ⟨d, k, ⟨known, named⟩, key, kind⟩
      exact ⟨d, k, known, named, key, kind⟩
    · rintro ⟨d, k, known, named, key, kind⟩
      exact ⟨d, k, ⟨known, named⟩, key, kind⟩

theorem Consistent.register_eq_ok (consistent : s.Consistent) : s.register e = .ok s' ↔
    s.Welcomes e ∧ s' = ⟨s.entities ++ [e], (e.name, s.entities.length) :: s.index⟩ := by
  rw [Schema.register_eq_ok, consistent.contains_eq_false]
  constructor
  · rintro ⟨fresh, valid, free, resolved, rfl⟩
    refine ⟨⟨fresh, valid, free, fun c member => ?_⟩, rfl⟩
    exact (resolves_iff_attaches consistent.tables free).mp (resolved c member)
  · rintro ⟨welcome, rfl⟩
    refine ⟨welcome.name, welcome.valid, welcome.table, fun c member => ?_, rfl⟩
    exact (resolves_iff_attaches consistent.tables welcome.table).mpr (welcome.references c member)

/-- The column that is found is the first one whose reference leads nowhere. -/
private theorem find?_loose_iff (tables : (s.entities.map (·.tableName)).Nodup)
    (free : ∀ d ∈ s.entities, d.tableName ≠ e.tableName) {c : Column} :
    e.columns.find? (fun c => !s.resolves e c) = some c ↔ ∃ before after, e.columns = before ++ c :: after ∧
      (∀ b ∈ before, s.Attaches e b) ∧ ¬ s.Attaches e c := by
  rw [List.find?_eq_some_iff_append]
  simp only [Bool.not_eq_true', Bool.not_eq_true, Bool.not_not, ← resolves_iff_attaches tables free]
  constructor
  · rintro ⟨loose, before, after, split, earlier⟩
    exact ⟨before, after, split, earlier, loose⟩
  · rintro ⟨before, after, split, earlier, loose⟩
    exact ⟨loose, before, after, split, earlier⟩

theorem Consistent.register_eq_error (consistent : s.Consistent) : s.register e = .error f ↔ s.Refuses e f := by
  have free_iff : ¬ s.entities.any (·.tableName = e.tableName) = true ↔
      ∀ d ∈ s.entities, d.tableName ≠ e.tableName := by simp
  rw [Schema.register]
  constructor
  · intro refused
    rcases Checks.refuse_eq_error.mp refused with ⟨taken, rfl⟩ | ⟨unnamed, checked⟩
    · exact .name (consistent.contains_iff.mp taken)
    have fresh := consistent.contains_eq_false.mp (Bool.eq_false_iff.mpr unnamed)
    rcases Checks.bind_eq_error.mp checked with invalid | ⟨_, valid, placed⟩
    · obtain ⟨reason, more, broken, rfl⟩ := Entity.requireValid_eq_error.mp invalid
      exact .invalid fresh broken
    have valid := Entity.requireValid_eq_ok.mp valid
    rcases Checks.refuse_eq_error.mp placed with ⟨taken, rfl⟩ | ⟨unused, resolved⟩
    · exact .table fresh valid (by simpa using taken)
    have free := free_iff.mp unused
    cases found : e.columns.find? (fun c => !s.resolves e c) with
    | none =>
      rw [found] at resolved
      cases resolved
    | some c =>
      rw [found] at resolved
      obtain rfl := Except.error.inj resolved
      obtain ⟨before, after, split, earlier, loose⟩ := (find?_loose_iff consistent.tables free).mp found
      cases refers : c.references with
      | none => exact absurd (by simp [Attaches, refers]) loose
      | some table => exact .reference fresh valid free split earlier refers loose
  · intro refuses
    cases refuses with
    | name taken => exact Checks.refuse_eq_error.mpr (.inl ⟨consistent.contains_iff.mpr taken, rfl⟩)
    | invalid fresh broken =>
      refine Checks.refuse_eq_error.mpr (.inr ⟨Bool.eq_false_iff.mp (consistent.contains_eq_false.mpr fresh), ?_⟩)
      exact Checks.bind_eq_error.mpr (.inl (Entity.requireValid_eq_error.mpr ⟨_, _, broken, rfl⟩))
    | table fresh valid taken =>
      refine Checks.refuse_eq_error.mpr (.inr ⟨Bool.eq_false_iff.mp (consistent.contains_eq_false.mpr fresh), ?_⟩)
      refine Checks.bind_eq_error.mpr (.inr ⟨(), Entity.requireValid_eq_ok.mpr valid, ?_⟩)
      exact Checks.refuse_eq_error.mpr (.inl ⟨by simpa using taken, rfl⟩)
    | reference fresh valid free split earlier refers loose =>
      have found := (find?_loose_iff consistent.tables free).mpr ⟨_, _, split, earlier, loose⟩
      refine Checks.refuse_eq_error.mpr (.inr ⟨Bool.eq_false_iff.mp (consistent.contains_eq_false.mpr fresh), ?_⟩)
      refine Checks.bind_eq_error.mpr (.inr ⟨(), Entity.requireValid_eq_ok.mpr valid, ?_⟩)
      refine Checks.refuse_eq_error.mpr (.inr ⟨free_iff.mpr free, ?_⟩)
      rw [found]
      simp [refers, throw, throwThe, MonadExceptOf.throw]

/-! ## What a registration changes -/

theorem attempt_of_ok (taken : s.register e = .ok s') : s.attempt e = s' := by
  rw [attempt, taken]

theorem attempt_of_error (refused : s.register e = .error f) : s.attempt e = s := by
  rw [attempt, refused]

/-- Only the name of the new entity is answered in another way than before. -/
theorem describe_of_register (taken : s.register e = .ok s') {name : String} (other : name ≠ e.name)
    (consistent : s.Consistent) : s'.describe name = s.describe name := by
  obtain ⟨_, rfl⟩ := consistent.register_eq_ok.mp taken
  have index : ((e.name, s.entities.length) :: s.index).lookup name = s.index.lookup name := by
    rw [List.lookup_cons, beq_eq_false_iff_ne.mpr other]
  have found : Schema.find? ⟨s.entities ++ [e], (e.name, s.entities.length) :: s.index⟩ name = s.find? name := by
    rw [find?, find?, index]
    cases position : s.index.lookup name with
    | none => rfl
    | some i =>
      obtain ⟨d, here, _⟩ := (consistent.positions name i).mp position
      have inside : i < s.entities.length := (List.getElem?_eq_some_iff.mp here).1
      show (s.entities ++ [e])[i]? = s.entities[i]?
      exact List.getElem?_append_left inside
  rw [describe, describe, found]

/-- Entities that are all taken, one after the other, are taken up to each of them. -/
theorem ofEntities_of_prefix (made : ofEntities es = .ok s) {first : List Entity} (front : first <+: es) :
    ∃ r, ofEntities first = .ok r ∧ r.entities = first := by
  obtain ⟨rest, rfl⟩ := front
  rw [ofEntities, List.foldlM_append] at made
  obtain ⟨r, earlier, _⟩ := Checks.bind_eq_ok.mp made
  exact ⟨r, earlier, entities_of_foldlM earlier⟩

/-- An entity is taken exactly when a schema welcomes it, and otherwise refused for the first reason there is. A refused
entity changes nothing. One that is taken stands after all others and is described under its name, while every
other name is answered as before. So a schema that is made of entities holds them all in their order, and each part
of them from the first one on makes a schema too. -/
theorem register_outcome (reached : Reachable s) (e : Entity) :
    ((∃ s', s.register e = .ok s') ↔ s.Welcomes e) ∧
    (∀ f, s.register e = .error f ↔ s.Refuses e f) ∧
    (∀ f, s.register e = .error f → s.attempt e = s) ∧
    (∀ s', s.register e = .ok s' → s.attempt e = s' ∧ s'.entities = s.entities ++ [e] ∧
      s'.describe e.name = .ok e ∧ ∀ name, name ≠ e.name → s'.describe name = s.describe name) ∧
    (∀ es r, ofEntities es = .ok r → r.entities = es ∧
      ∀ first, first <+: es → ∃ p, ofEntities first = .ok p ∧ p.entities = first) := by
  have consistent := reached.consistent
  refine ⟨?_, fun _ => consistent.register_eq_error, fun _ => attempt_of_error, fun s' taken => ?_, fun es r made => ?_⟩
  · simp only [consistent.register_eq_ok, exists_and_left, exists_eq, and_true]
  · have entities : s'.entities = s.entities ++ [e] := by
      obtain ⟨_, rfl⟩ := consistent.register_eq_ok.mp taken
      rfl
    refine ⟨attempt_of_ok taken, entities, ?_, fun name other => describe_of_register taken other consistent⟩
    exact (consistent.register taken).describe_eq_ok.mpr ⟨by simp [entities], rfl⟩
  · exact ⟨entities_of_foldlM made, fun first front => ofEntities_of_prefix made front⟩

/-- The first of two columns that lead nowhere is named, after one that leads back to the new entity. -/
theorem register_outcome_reference :
    let parent : Entity := ⟨"Parent", none, true, [⟨"id", .integer, false, true, false, false, none⟩]⟩
    let child : Entity := ⟨"Child", some "children", false, [⟨"name", .text, false, true, false, false, none⟩,
      ⟨"sibling", .text, true, false, false, false, some "children"⟩,
      ⟨"parent", .text, true, false, false, false, some "Parent"⟩,
      ⟨"other", .integer, true, false, false, false, some "Nowhere"⟩]⟩
    let s : Schema := attempt {} parent
    Reachable s ∧ s.register child = .error (.invalidEntity "Child" (.badReference "parent" "Parent")) ∧
      s.Refuses child (.invalidEntity "Child" (.badReference "parent" "Parent")) ∧ ¬ s.Welcomes child ∧
      s.attempt child = s := by
  intro parent child s
  have reached : Reachable s := .attempted parent .empty
  obtain ⟨welcomed, refused, unchanged, _⟩ := register_outcome reached child
  have answer : s.register child = .error (.invalidEntity "Child" (.badReference "parent" "Parent")) := by
    decide +kernel
  refine ⟨reached, answer, (refused _).mp answer, fun welcome => ?_, unchanged _ answer⟩
  obtain ⟨s', taken⟩ := welcomed.mpr welcome
  rw [answer] at taken
  cases taken

end Schema

end Tabular
