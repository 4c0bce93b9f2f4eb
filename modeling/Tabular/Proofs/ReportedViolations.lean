import Tabular.Proofs.Validity
import Mathlib.Data.List.Count

/-!
# Violations that are reported

An entity with a name and columns is looked at as a whole: every rule is reported as often as it is broken
(`reported_violations`). A name is reported for every place where it stands and is no identifier, a column for each
column of its name before it but the first, and the key once for each rule that it breaks.
-/

namespace Tabular

namespace Text

/-- A text of the form `[A-Za-z_][A-Za-z0-9_]*`. -/
def HasIdentifierForm (s : String) : Prop :=
  ∃ c rest, s.toList = c :: rest ∧ (('A' ≤ c ∧ c ≤ 'Z') ∨ ('a' ≤ c ∧ c ≤ 'z') ∨ c = '_') ∧
    ∀ d ∈ rest, ('A' ≤ d ∧ d ≤ 'Z') ∨ ('a' ≤ d ∧ d ≤ 'z') ∨ ('0' ≤ d ∧ d ≤ '9') ∨ d = '_'

private theorem isUpper_iff {c : Char} : c.isUpper = true ↔ 'A' ≤ c ∧ c ≤ 'Z' :=
  decide_eq_true_iff

private theorem isLower_iff {c : Char} : c.isLower = true ↔ 'a' ≤ c ∧ c ≤ 'z' := by
  show (decide ('a' ≤ c) && decide (c ≤ 'z')) = true ↔ _
  rw [Bool.and_eq_true, decide_eq_true_iff, decide_eq_true_iff]

private theorem isDigit_iff {c : Char} : c.isDigit = true ↔ '0' ≤ c ∧ c ≤ '9' := by
  show (decide ('0' ≤ c) && decide (c ≤ '9')) = true ↔ _
  rw [Bool.and_eq_true, decide_eq_true_iff, decide_eq_true_iff]

theorem isNameStart_iff {c : Char} :
    isNameStart c = true ↔ ('A' ≤ c ∧ c ≤ 'Z') ∨ ('a' ≤ c ∧ c ≤ 'z') ∨ c = '_' := by
  show ((c.isUpper || c.isLower) || decide (c = '_')) = true ↔ _
  simp only [Bool.or_eq_true, isUpper_iff, isLower_iff, decide_eq_true_eq, or_assoc]

theorem isNameRest_iff {c : Char} : isNameRest c = true ↔
    ('A' ≤ c ∧ c ≤ 'Z') ∨ ('a' ≤ c ∧ c ≤ 'z') ∨ ('0' ≤ c ∧ c ≤ '9') ∨ c = '_' := by
  show (((c.isUpper || c.isLower) || c.isDigit) || decide (c = '_')) = true ↔ _
  simp only [Bool.or_eq_true, isUpper_iff, isLower_iff, isDigit_iff, decide_eq_true_eq, or_assoc]

theorem isIdentifier_iff {s : String} : isIdentifier s = true ↔ HasIdentifierForm s := by
  rw [isIdentifier, HasIdentifierForm]
  cases s.toList with
  | nil => simp
  | cons c rest =>
    simp only [Bool.and_eq_true, List.all_eq_true, isNameStart_iff, isNameRest_iff]
    constructor
    · rintro ⟨first, others⟩
      exact ⟨c, rest, rfl, first, others⟩
    · rintro ⟨d, more, same, first, others⟩
      obtain ⟨rfl, rfl⟩ := List.cons.inj same
      exact ⟨first, others⟩

end Text

open Text

/-- Whether a violation is one of the columns marked as keys. -/
def Violation.isOfKey : Violation → Bool
  | missingKey => true
  | severalKeys _ => true
  | nullableKey _ => true
  | keyNotInteger _ => true
  | _ => false

namespace Entity

variable {name : String} {seen : List String} {cs : List Column}

theorem mem_nameViolations {v : Violation} (member : v ∈ nameViolations name) : v = .badIdentifier name := by
  rw [nameViolations, List.mem_ite_nil_left] at member
  exact List.mem_singleton.mp member.2

private theorem count_nameViolations_duplicateColumn (name n : String) :
    (nameViolations name).count (.duplicateColumn n) = 0 := by
  rw [List.count_eq_zero]
  intro member
  cases mem_nameViolations member

theorem count_nameViolations (name s : String) :
    (nameViolations name).count (.badIdentifier s) = if isIdentifier s then 0 else [name].count s := by
  rw [nameViolations]
  by_cases same : name = s
  · subst same
    by_cases valid : isIdentifier name = true <;> simp [valid]
  · by_cases valid : isIdentifier name = true <;> simp [valid, same]

theorem count_elim_nameViolations (references : Option String) (s : String) :
    (references.elim [] nameViolations).count (.badIdentifier s) =
      if isIdentifier s then 0 else references.toList.count s := by
  cases references with
  | none => simp
  | some table => exact count_nameViolations table s

private theorem count_duplicate (name n : String) (seen : List String) :
    (if name ∈ seen then [Violation.duplicateColumn name] else []).count (.duplicateColumn n) =
      if name ∈ seen then [name].count n else 0 := by
  by_cases there : name ∈ seen
  · rw [if_pos there, if_pos there]
    by_cases same : name = n
    · simp [same]
    · simp [same]
  · simp [there]

private theorem count_names (c : Column) (rest : List Column) (s : String) :
    ((c :: rest).map (·.name)).count s = [c.name].count s + (rest.map (·.name)).count s := by
  rw [List.map_cons, ← List.count_append, List.singleton_append]

/-- Names of columns and targets of references are reported for every place where they stand. -/
theorem count_badIdentifier (seen : List String) (cs : List Column) (s : String) :
    (columnViolations seen cs).count (.badIdentifier s) =
      if isIdentifier s then 0 else (cs.map (·.name)).count s + (cs.filterMap (·.references)).count s := by
  induction cs generalizing seen with
  | nil => simp [columnViolations]
  | cons c rest ih =>
    have target : (c.references.toList ++ rest.filterMap (·.references)) = (c :: rest).filterMap (·.references) := by
      cases references : c.references <;> simp [references]
    have other : (if c.name ∈ seen then [Violation.duplicateColumn c.name] else []).count (.badIdentifier s) = 0 := by
      by_cases there : c.name ∈ seen <;> simp [there]
    rw [columnViolations, List.count_append, List.count_append, List.count_append, count_nameViolations, other,
      count_elim_nameViolations, ih, ← target, List.count_append, count_names]
    by_cases valid : isIdentifier s = true
    · simp [valid]
    · simp only [valid, Bool.false_eq_true, if_false]
      omega

/-- A name is reported for each column that has it but the first, and for this one too if it was seen before. -/
theorem count_duplicateColumn (seen : List String) (cs : List Column) (n : String) :
    (columnViolations seen cs).count (.duplicateColumn n) =
      if n ∈ seen then (cs.map (·.name)).count n else (cs.map (·.name)).count n - 1 := by
  induction cs generalizing seen with
  | nil => simp [columnViolations]
  | cons c rest ih =>
    have target : (c.references.elim [] nameViolations).count (.duplicateColumn n) = 0 := by
      cases c.references with
      | none => rfl
      | some table => exact count_nameViolations_duplicateColumn table n
    rw [columnViolations, List.count_append, List.count_append, List.count_append,
      count_nameViolations_duplicateColumn, target, count_duplicate, ih, count_names]
    -- Only a column of the name itself changes what was seen of it.
    by_cases same : c.name = n
    · subst same
      by_cases there : c.name ∈ seen
      · simp [there]
      · simp [there]
    · by_cases there : n ∈ seen
      · simp [there, same]
      · simp [there, same, Ne.symm same]

/-! ## What is reported of the key -/

theorem isOfKey_of_mem_keyViolations {autoincrement : Bool} {keys : List Column} {v : Violation}
    (member : v ∈ keyViolations autoincrement keys) : v.isOfKey = true := by
  match keys with
  | [] =>
    rw [List.mem_singleton.mp member]
    rfl
  | [k] =>
    rw [keyViolations, List.mem_append, List.mem_ite_nil_right, List.mem_ite_nil_right, List.mem_singleton,
      List.mem_singleton] at member
    rcases member with ⟨_, rfl⟩ | ⟨_, rfl⟩ <;> rfl
  | _ :: _ :: _ =>
    rw [List.mem_singleton.mp member]
    rfl

/-- Names and targets are reported of columns, and names that occur twice. -/
theorem mem_columnViolations {v : Violation} (member : v ∈ columnViolations seen cs) :
    (∃ s, v = .badIdentifier s) ∨ ∃ n, v = .duplicateColumn n := by
  induction cs generalizing seen with
  | nil => cases member
  | cons c rest ih =>
    rw [columnViolations, List.mem_append, List.mem_append, List.mem_append] at member
    rcases member with ((named | twice) | target) | later
    · exact .inl ⟨_, mem_nameViolations named⟩
    · exact .inr ⟨_, List.mem_singleton.mp (List.mem_ite_nil_right.mp twice).2⟩
    · cases references : c.references with
      | none =>
        rw [references] at target
        cases target
      | some table =>
        rw [references] at target
        exact .inl ⟨_, mem_nameViolations target⟩
    · exact ih later

/-! ## The report of an entity -/

variable {e : Entity}

/-- The names in an entity that have to be identifiers, each as often as it occurs. -/
def identifiers (e : Entity) : List String :=
  e.tableName :: (e.columns.map (·.name) ++ e.columns.filterMap (·.references))

theorem violations_eq_append (named : isBlank e.name = false) (filled : e.columns ≠ []) : e.violations =
    nameViolations e.tableName ++ columnViolations [] e.columns ++
      keyViolations e.autoincrement (e.columns.filter (·.isKey)) := by
  rw [violations, if_neg (by simp [named]), if_neg filled]

/-- What is reported of an entity with a name and columns is about its names or its key. -/
theorem violations_cases (named : isBlank e.name = false) (filled : e.columns ≠ []) {v : Violation}
    (member : v ∈ e.violations) :
    ((∃ s, v = .badIdentifier s) ∨ ∃ n, v = .duplicateColumn n) ∨ v.isOfKey = true := by
  rw [violations_eq_append named filled, List.mem_append, List.mem_append] at member
  rcases member with (table | column) | key
  · exact .inl (.inl ⟨_, mem_nameViolations table⟩)
  · exact .inl (mem_columnViolations column)
  · exact .inr (isOfKey_of_mem_keyViolations key)

theorem filter_isOfKey (named : isBlank e.name = false) (filled : e.columns ≠ []) : e.violations.filter (·.isOfKey) =
    keyViolations e.autoincrement (e.columns.filter (·.isKey)) := by
  have names : (nameViolations e.tableName ++ columnViolations [] e.columns).filter (·.isOfKey) = [] := by
    rw [List.filter_eq_nil_iff]
    intro v member
    rcases List.mem_append.mp member with table | column
    · rw [mem_nameViolations table]
      simp [Violation.isOfKey]
    · rcases mem_columnViolations column with ⟨s, rfl⟩ | ⟨n, rfl⟩ <;> simp [Violation.isOfKey]
  have keys : (keyViolations e.autoincrement (e.columns.filter (·.isKey))).filter (·.isOfKey) =
      keyViolations e.autoincrement (e.columns.filter (·.isKey)) := by
    rw [List.filter_eq_self]
    exact fun v member => isOfKey_of_mem_keyViolations member
  rw [violations_eq_append named filled, List.filter_append, names, keys, List.nil_append]

private theorem count_keyViolations {autoincrement : Bool} {keys : List Column} {v : Violation}
    (other : v.isOfKey = false) : (keyViolations autoincrement keys).count v = 0 := by
  rw [List.count_eq_zero]
  intro member
  rw [isOfKey_of_mem_keyViolations member] at other
  cases other

private theorem mem_identifiers {s : String} : s ∈ e.identifiers ↔
    s = e.tableName ∨ (∃ c ∈ e.columns, c.name = s) ∨ ∃ c ∈ e.columns, c.references = some s := by
  rw [identifiers, List.mem_cons, List.mem_append, List.mem_map, List.mem_filterMap]

theorem Valid.hasIdentifierForm (valid : e.Valid) : ∀ s ∈ e.identifiers, HasIdentifierForm s := by
  intro s member
  rw [← isIdentifier_iff]
  rcases mem_identifiers.mp member with rfl | ⟨c, known, rfl⟩ | ⟨c, known, target⟩
  · exact valid.table
  · exact valid.identifiers c known
  · exact valid.targets c known s target

theorem valid_of_identifiers (named : isBlank e.name = false) (filled : e.columns ≠ [])
    (names : ∀ s ∈ e.identifiers, HasIdentifierForm s) (distinct : (e.columns.map (·.name)).Nodup)
    (key : ∃ k, e.columns.filter (·.isKey) = [k] ∧ k.nullable = false ∧ (e.autoincrement = true → k.kind = .integer)) :
    e.Valid where
  name := named
  columns := filled
  table := isIdentifier_iff.mpr (names _ (mem_identifiers.mpr (.inl rfl)))
  identifiers := fun c known => isIdentifier_iff.mpr (names _ (mem_identifiers.mpr (.inr (.inl ⟨c, known, rfl⟩))))
  targets := fun c known t target =>
    isIdentifier_iff.mpr (names t (mem_identifiers.mpr (.inr (.inr ⟨c, known, target⟩))))
  distinct := distinct
  key := key

theorem count_badIdentifier_violations (named : isBlank e.name = false) (filled : e.columns ≠ []) (s : String) :
    e.violations.count (.badIdentifier s) = if isIdentifier s then 0 else e.identifiers.count s := by
  have table : e.identifiers.count s =
      [e.tableName].count s + ((e.columns.map (·.name)).count s + (e.columns.filterMap (·.references)).count s) := by
    rw [identifiers, ← List.singleton_append, List.count_append, List.count_append]
  rw [violations_eq_append named filled, List.count_append, List.count_append, count_nameViolations,
    count_badIdentifier, count_keyViolations rfl, table]
  by_cases valid : isIdentifier s = true
  · simp [valid]
  · simp [valid]

theorem count_duplicateColumn_violations (named : isBlank e.name = false) (filled : e.columns ≠ []) (n : String) :
    e.violations.count (.duplicateColumn n) = (e.columns.map (·.name)).count n - 1 := by
  rw [violations_eq_append named filled, List.count_append, List.count_append, count_nameViolations_duplicateColumn,
    count_duplicateColumn, count_keyViolations rfl, if_neg (List.not_mem_nil), Nat.zero_add, Nat.add_zero]

/-- An entity breaks no rule exactly when it has a name and columns, only identifiers for names, no name twice, and one
column for a key, which always has a value, an integer if storage chooses it. An entity with a name and columns is
looked at as a whole: what is no identifier is reported for each place where it stands, the name of a column for each
column that has it but the first, and of the key either that there is none, or which columns are marked as keys, or
what is wrong with the only one. Nothing else is reported. -/
theorem reported_violations (e : Entity) :
    (e.violations = [] ↔ isBlank e.name = false ∧ e.columns ≠ [] ∧ (∀ s ∈ e.identifiers, HasIdentifierForm s) ∧
      (e.columns.map (·.name)).Nodup ∧ ∃ k, e.columns.filter (·.isKey) = [k] ∧ k.nullable = false ∧
        (e.autoincrement = true → k.kind = .integer)) ∧
    (isBlank e.name = true → e.violations = [.blankName]) ∧
    (isBlank e.name = false → e.columns = [] → e.violations = [.noColumns]) ∧
    (isBlank e.name = false → e.columns ≠ [] →
      (∀ s, (HasIdentifierForm s → e.violations.count (.badIdentifier s) = 0) ∧
        (¬ HasIdentifierForm s → e.violations.count (.badIdentifier s) = e.identifiers.count s)) ∧
      (∀ n, e.violations.count (.duplicateColumn n) = (e.columns.map (·.name)).count n - 1) ∧
      (e.columns.filter (·.isKey) = [] ∧ e.violations.filter (·.isOfKey) = [.missingKey] ∨
        (∃ k, e.columns.filter (·.isKey) = [k] ∧ e.violations.filter (·.isOfKey) =
          (if k.nullable then [.nullableKey k.name] else []) ++
            (if e.autoincrement && k.kind ≠ .integer then [.keyNotInteger k.name] else [])) ∨
        2 ≤ (e.columns.filter (·.isKey)).length ∧
          e.violations.filter (·.isOfKey) = [.severalKeys ((e.columns.filter (·.isKey)).map (·.name))]) ∧
      ∀ v ∈ e.violations, ((∃ s, v = .badIdentifier s) ∨ ∃ n, v = .duplicateColumn n) ∨ v.isOfKey = true) := by
  refine ⟨?_, ?_, ?_, fun named filled => ⟨fun s => ?_, fun n => ?_, ?_, fun v => violations_cases named filled⟩⟩
  · rw [violations_eq_nil]
    constructor
    · intro valid
      exact ⟨valid.name, valid.columns, valid.hasIdentifierForm, valid.distinct, valid.key⟩
    · rintro ⟨named, filled, names, distinct, key⟩
      exact valid_of_identifiers named filled names distinct key
  · intro blank
    rw [violations, if_pos blank]
  · intro named empty
    rw [violations, if_neg (by simp [named]), if_pos empty]
  · rw [count_badIdentifier_violations named filled]
    constructor
    · intro form
      rw [if_pos (isIdentifier_iff.mpr form)]
    · intro other
      rw [if_neg (fun valid => other (isIdentifier_iff.mp valid))]
  · exact count_duplicateColumn_violations named filled n
  · rw [filter_isOfKey named filled]
    cases keys : e.columns.filter (·.isKey) with
    | nil => exact .inl ⟨rfl, rfl⟩
    | cons k rest =>
      cases rest with
      | nil => exact .inr (.inl ⟨k, rfl, rfl⟩)
      | cons l more => exact .inr (.inr ⟨by simp, rfl⟩)

/-- A name that is no identifier and stands in three places is reported three times, a name of three columns twice. -/
theorem reported_violations_repeated :
    let e : Entity := ⟨"t", some "9", true, [⟨"9", .text, false, true, false, false, none⟩,
      ⟨"a", .integer, false, true, false, false, some "9"⟩, ⟨"a", .integer, false, false, false, false, none⟩,
      ⟨"a", .integer, false, false, false, false, none⟩]⟩
    (isBlank e.name = false ∧ e.columns ≠ []) ∧ e.violations.count (.badIdentifier "9") = 3 ∧
      e.violations.count (.duplicateColumn "a") = 2 ∧ e.violations.filter (·.isOfKey) = [.severalKeys ["9", "a"]] := by
  intro e
  have named : isBlank e.name = false := by decide
  have filled : e.columns ≠ [] := by decide
  have other : ¬ HasIdentifierForm "9" := by
    rw [← isIdentifier_iff]
    decide
  obtain ⟨_, _, _, reported⟩ := reported_violations e
  obtain ⟨names, columns, key, _⟩ := reported named filled
  refine ⟨⟨named, filled⟩, ?_, ?_, ?_⟩
  · exact ((names "9").2 other).trans (by decide)
  · exact (columns "a").trans (by decide)
  · rcases key with ⟨none, _⟩ | ⟨k, single, _⟩ | ⟨_, listed⟩
    · cases none
    · cases single
    · exact listed

end Entity

end Tabular
