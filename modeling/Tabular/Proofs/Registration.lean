import Tabular.Proofs.Checks
import Tabular.Schema
import Mathlib.Data.List.Nodup

/-!
# Schemas that are reached

A schema grows by one entity at a time, and an entity that is refused leaves it as it was. `register_eq_ok` says
what is asked of the next entity. Whatever was offered before, in whatever order, the schema is `Consistent`
(`reachable_consistent`): names and tables tell its entities apart, its index leads to them, and every reference
leads to the only entity with its table.
-/

namespace Tabular

theorem Entity.requireValid_eq_ok {e : Entity} : e.requireValid = .ok () ↔ e.violations = [] := by
  rw [requireValid]
  cases e.violations with
  | nil => simp
  | cons first more => simp

namespace Schema

variable {s s' : Schema} {e : Entity}

/-- A reference leads to an entity whose key is of the kind of the column. -/
theorem resolves_iff {c : Column} {table : String} (refers : c.references = some table) :
    s.resolves e c = true ↔ ∃ d k, s.target? e table = some d ∧ d.key? = some k ∧ k.kind = c.kind := by
  simp [resolves, refers, Option.bind_eq_some_iff]

/-- An entity is taken when its name and its table are free, it breaks no rule, and all it refers to is there. -/
theorem register_eq_ok :
    s.register e = .ok s' ↔ s.contains e.name = false ∧ e.violations = [] ∧
      (∀ d ∈ s.entities, d.tableName ≠ e.tableName) ∧ (∀ c ∈ e.columns, s.resolves e c = true) ∧
      s' = ⟨s.entities ++ [e], (e.name, s.entities.length) :: s.index⟩ := by
  rw [register]
  constructor
  · intro registered
    obtain ⟨fresh, checked⟩ := Checks.refuse_eq_ok.mp registered
    obtain ⟨_, valid, placed⟩ := Checks.bind_eq_ok.mp checked
    obtain ⟨free, resolved⟩ := Checks.refuse_eq_ok.mp placed
    cases broken : e.columns.find? (fun c => !s.resolves e c) with
    | some c =>
      rw [broken] at resolved
      cases resolved
    | none =>
      rw [broken] at resolved
      have answer : s' = ⟨s.entities ++ [e], (e.name, s.entities.length) :: s.index⟩ := (Except.ok.inj resolved).symm
      exact ⟨by simpa using fresh, Entity.requireValid_eq_ok.mp valid, by simpa using free, by simpa using broken,
        answer⟩
  · rintro ⟨fresh, valid, free, resolved, rfl⟩
    have whole : e.columns.find? (fun c => !s.resolves e c) = none := by simpa using resolved
    refine Checks.refuse_eq_ok.mpr ⟨by simpa using fresh, ?_⟩
    refine Checks.bind_eq_ok.mpr ⟨(), Entity.requireValid_eq_ok.mpr valid, ?_⟩
    refine Checks.refuse_eq_ok.mpr ⟨by simpa using free, ?_⟩
    rw [whole]
    rfl

/-- The schema after an entity was offered to it, whether it was taken or not. -/
def attempt (s : Schema) (e : Entity) : Schema :=
  match s.register e with
  | .ok s' => s'
  | .error _ => s

/-- The schemas that offers lead to, one entity at a time or a whole list at the start. -/
inductive Reachable : Schema → Prop
  | empty : Reachable {}
  | listed {s : Schema} (es : List Entity) (made : ofEntities es = .ok s) : Reachable s
  | attempted {s : Schema} (e : Entity) (reached : Reachable s) : Reachable (s.attempt e)

/-- A reference of the entity at position `i` leads to the entity itself or to an earlier one. It is the only
entity with the table, and its key is of the kind of the column. -/
def Leads (s : Schema) (i : Nat) (c : Column) (table : String) : Prop :=
  ∃ (j : Nat) (d : Entity) (k : Column), j ≤ i ∧ s.entities[j]? = some d ∧ d.tableName = table ∧
    d.key? = some k ∧ k.kind = c.kind ∧
    ∀ (l : Nat) (other : Entity), s.entities[l]? = some other → other.tableName = table → l = j

/-- A schema whose names, tables, index and references fit together. -/
structure Consistent (s : Schema) : Prop where
  names : (s.entities.map (·.name)).Nodup
  tables : (s.entities.map (·.tableName)).Nodup
  valid : ∀ e ∈ s.entities, e.violations = []
  /-- The index knows every name once, and no others. -/
  indexed : (s.index.map (·.1)).Perm (s.entities.map (·.name))
  /-- A name leads to the position of its own entity. -/
  positions : ∀ (name : String) (i : Nat),
    s.index.lookup name = some i ↔ ∃ e, s.entities[i]? = some e ∧ e.name = name
  references : ∀ (i : Nat) (e : Entity) (c : Column) (table : String), s.entities[i]? = some e →
    c ∈ e.columns → c.references = some table → s.Leads i c table

theorem consistent_empty : Consistent {} where
  names := .nil
  tables := .nil
  valid := by simp
  indexed := .nil
  positions := by simp
  references := by simp

/-! ## What one registration keeps -/

private theorem getElem?_concat_iff {es : List Entity} {i : Nat} {d : Entity} :
    (es ++ [e])[i]? = some d ↔ es[i]? = some d ∨ i = es.length ∧ e = d := by
  rw [List.getElem?_append]
  by_cases inside : i < es.length
  · have earlier : i ≠ es.length := by omega
    simp [inside, earlier]
  · have missing : es[i]? = none := List.getElem?_eq_none (by omega)
    rw [if_neg inside, missing]
    by_cases last : i = es.length
    · simp [last]
    · have beyond : [e][i - es.length]? = none := List.getElem?_eq_none (by simp; omega)
      simp [last, beyond]

private theorem nodup_concat {f : Entity → String} {es : List Entity} (distinct : (es.map f).Nodup)
    (fresh : ∀ d ∈ es, f d ≠ f e) : ((es ++ [e]).map f).Nodup := by
  rw [List.map_append, List.nodup_append]
  refine ⟨distinct, List.nodup_singleton _, ?_⟩
  intro known member new last
  obtain ⟨d, present, rfl⟩ := List.mem_map.mp member
  rw [List.mem_singleton.mp last]
  exact fresh d present

/-- Entities with the same table stand at the same position. -/
private theorem position_of_table {es : List Entity} (tables : (es.map (·.tableName)).Nodup) {i j : Nat}
    {d other : Entity} (one : es[i]? = some d) (two : es[j]? = some other) (same : d.tableName = other.tableName) :
    i = j := by
  have inside : i < es.length := (List.getElem?_eq_some_iff.mp one).1
  refine (List.getElem?_inj (by simpa using inside) tables).mp ?_
  rw [List.getElem?_map, List.getElem?_map, one, two, Option.map_some, Option.map_some, same]

/-- When tables are distinct, there is no other entity to be led to. -/
private theorem leads_of_target (tables : (s.entities.map (·.tableName)).Nodup) {i j : Nat} {c k : Column}
    {d : Entity} {table : String} (before : j ≤ i) (target : s.entities[j]? = some d) (named : d.tableName = table)
    (key : d.key? = some k) (kind : k.kind = c.kind) : s.Leads i c table := by
  refine ⟨j, d, k, before, target, named, key, kind, ?_⟩
  intro l other found same
  exact position_of_table tables found target (same.trans named.symm)

theorem Consistent.contains_iff (consistent : s.Consistent) {name : String} :
    s.contains name = true ↔ ∃ e ∈ s.entities, e.name = name := by
  rw [contains, Option.isSome_iff_exists]
  simp only [consistent.positions]
  constructor
  · rintro ⟨i, d, found, named⟩
    exact ⟨d, List.mem_of_getElem? found, named⟩
  · rintro ⟨d, known, named⟩
    obtain ⟨i, found⟩ := List.getElem?_of_mem known
    exact ⟨i, d, found, named⟩

private theorem Consistent.positions_concat (consistent : s.Consistent) (fresh : ∀ d ∈ s.entities, d.name ≠ e.name)
    (name : String) (i : Nat) : ((e.name, s.entities.length) :: s.index).lookup name = some i ↔
      ∃ d, (s.entities ++ [e])[i]? = some d ∧ d.name = name := by
  simp only [getElem?_concat_iff]
  by_cases new : name = e.name
  · rw [new, List.lookup_cons_self]
    constructor
    · intro last
      exact ⟨e, .inr ⟨(Option.some.inj last).symm, rfl⟩, rfl⟩
    · rintro ⟨d, known | ⟨last, _⟩, named⟩
      · exact absurd named (fresh d (List.mem_of_getElem? known))
      · rw [last]
  · rw [List.lookup_cons, beq_eq_false_iff_ne.mpr new]
    dsimp only
    rw [consistent.positions]
    constructor
    · rintro ⟨d, known, named⟩
      exact ⟨d, .inl known, named⟩
    · rintro ⟨d, known | ⟨_, rfl⟩, named⟩
      · exact ⟨d, known, named⟩
      · exact absurd named.symm new

/-- What the new entity refers to is the entity itself or stands before it. -/
private theorem target_concat {c : Column} {table : String} (refers : c.references = some table)
    (resolved : s.resolves e c = true) :
    ∃ (j : Nat) (d : Entity) (k : Column), j ≤ s.entities.length ∧ (s.entities ++ [e])[j]? = some d ∧
      d.tableName = table ∧ d.key? = some k ∧ k.kind = c.kind := by
  obtain ⟨d, k, target, key, kind⟩ := (resolves_iff refers).mp resolved
  rw [target?] at target
  by_cases own : table = e.tableName
  · rw [if_pos own] at target
    obtain rfl := Option.some.inj target
    exact ⟨s.entities.length, e, k, Nat.le_refl _, getElem?_concat_iff.mpr (.inr ⟨rfl, rfl⟩), own.symm, key, kind⟩
  · rw [if_neg own] at target
    have named : d.tableName = table := by simpa using List.find?_some target
    obtain ⟨j, position⟩ := List.getElem?_of_mem (List.mem_of_find?_eq_some target)
    have inside : j < s.entities.length := (List.getElem?_eq_some_iff.mp position).1
    exact ⟨j, d, k, Nat.le_of_lt inside, getElem?_concat_iff.mpr (.inl position), named, key, kind⟩

theorem Consistent.register (consistent : s.Consistent) (registered : s.register e = .ok s') : s'.Consistent := by
  obtain ⟨free, valid, unused, resolved, rfl⟩ := register_eq_ok.mp registered
  have fresh : ∀ d ∈ s.entities, d.name ≠ e.name := by
    intro d known named
    rw [consistent.contains_iff.mpr ⟨d, known, named⟩] at free
    cases free
  have tables := nodup_concat consistent.tables unused
  constructor
  case names => exact nodup_concat consistent.names fresh
  case tables => exact tables
  case valid =>
    intro d member
    rcases List.mem_append.mp member with known | last
    · exact consistent.valid d known
    · rw [List.mem_singleton.mp last]
      exact valid
  case indexed =>
    rw [List.map_append, List.map_cons]
    exact (consistent.indexed.cons e.name).trans (List.perm_append_singleton _ _).symm
  case positions => exact consistent.positions_concat fresh
  case references =>
    intro i d c table found member refers
    -- An entity from before keeps its target, as the new one has another table.
    rcases getElem?_concat_iff.mp found with known | ⟨rfl, rfl⟩
    · obtain ⟨j, target, k, before, position, named, key, kind, _⟩ :=
        consistent.references i d c table known member refers
      exact leads_of_target tables before (getElem?_concat_iff.mpr (.inl position)) named key kind
    · obtain ⟨j, target, k, before, position, named, key, kind⟩ := target_concat refers (resolved c member)
      exact leads_of_target tables before position named key kind

theorem Consistent.attempt (consistent : s.Consistent) (e : Entity) : (s.attempt e).Consistent := by
  rw [Schema.attempt]
  cases registered : s.register e with
  | ok s' => exact consistent.register registered
  | error _ => exact consistent

theorem Consistent.foldlM (consistent : s.Consistent) {es : List Entity}
    (made : es.foldlM Schema.register s = .ok s') : s'.Consistent := by
  induction es generalizing s with
  | nil =>
    obtain rfl := Except.ok.inj made
    exact consistent
  | cons e rest ih =>
    obtain ⟨next, registered, later⟩ := Checks.bind_eq_ok.mp made
    exact ih (consistent.register registered) later

/-- Entities that are all taken stand in the order in which they were offered. -/
theorem entities_of_foldlM {es : List Entity} (made : es.foldlM Schema.register s = .ok s') :
    s'.entities = s.entities ++ es := by
  induction es generalizing s with
  | nil =>
    obtain rfl := Except.ok.inj made
    exact (List.append_nil _).symm
  | cons e rest ih =>
    obtain ⟨next, registered, later⟩ := Checks.bind_eq_ok.mp made
    obtain ⟨_, _, _, _, rfl⟩ := register_eq_ok.mp registered
    rw [ih later, List.append_assoc, List.singleton_append]

theorem Reachable.consistent (reached : Reachable s) : s.Consistent := by
  induction reached with
  | empty => exact consistent_empty
  | listed es made => exact consistent_empty.foldlM made
  | attempted e _ ih => exact ih.attempt e

/-- A name is described by the entity that has it. -/
theorem Consistent.describe_eq_ok (consistent : s.Consistent) {name : String} :
    s.describe name = .ok e ↔ e ∈ s.entities ∧ e.name = name := by
  have found : s.find? name = some e ↔ e ∈ s.entities ∧ e.name = name := by
    rw [find?, Option.bind_eq_some_iff]
    constructor
    · rintro ⟨i, position, here⟩
      obtain ⟨d, there, named⟩ := (consistent.positions name i).mp position
      obtain rfl := Option.some.inj (here.symm.trans there)
      exact ⟨List.mem_of_getElem? here, named⟩
    · rintro ⟨known, named⟩
      obtain ⟨i, here⟩ := List.getElem?_of_mem known
      exact ⟨i, (consistent.positions name i).mpr ⟨e, here, named⟩, here⟩
  rw [← found, describe]
  cases s.find? name with
  | none => simp
  | some d => simp

/-- Whatever was offered to a schema, its names and tables tell its entities apart, its index leads to them and
their references lead to the entities they are about. So a name is described by the entity that has it and by
no other, and it is known when there is one. -/
theorem reachable_consistent (reached : Reachable s) :
    s.Consistent ∧ s.index.length = s.entities.length ∧
      (∀ name e, s.describe name = .ok e ↔ e ∈ s.entities ∧ e.name = name) ∧
      (∀ name, s.contains name = true ↔ ∃ e ∈ s.entities, e.name = name) := by
  have consistent := reached.consistent
  have counted : s.index.length = s.entities.length := by
    simpa using consistent.indexed.length_eq
  exact ⟨consistent, counted, fun _ _ => consistent.describe_eq_ok, fun _ => consistent.contains_iff⟩

/-- A second entity with a name is refused, and a reference leads back to the entity before. -/
theorem reachable_consistent_reference :
    let parent : Entity := ⟨"Parent", none, true, [⟨"id", .integer, false, true, false, false, none⟩]⟩
    let child : Entity := ⟨"Child", some "children", false, [⟨"name", .text, false, true, false, false, none⟩,
      ⟨"parent", .integer, true, false, false, true, some "Parent"⟩]⟩
    let s : Schema := (((attempt {} child).attempt parent).attempt parent).attempt child
    s.entities = [parent, child] ∧ Reachable s ∧ s.Consistent ∧ s.describe "Child" = .ok child := by
  intro parent child s
  have reached : Reachable s := .attempted child (.attempted parent (.attempted parent (.attempted child .empty)))
  obtain ⟨consistent, _, described, _⟩ := reachable_consistent reached
  have entities : s.entities = [parent, child] := by decide +kernel
  exact ⟨entities, reached, consistent, (described "Child" child).mpr ⟨by simp [entities], rfl⟩⟩

end Schema

end Tabular
