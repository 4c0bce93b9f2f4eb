import Tabular.Proofs.EntityRows

/-!
# Rows that instances have

Which rows the instances of a valid entity have is told by what stands in them (`Encodable`). Each such row is opened
by the type that holds every column as a value, and the instance that is built has the row again. An instance has no
row for the first of its fields, in the order of the columns, that cannot be stored (`encoded_rows`).
-/

namespace Tabular

/-- The type of all values of an entity, by the names of its columns. -/
def Mapping.values (e : Entity) : Mapping (List (String × Value)) where
  name := e.name
  field a column := a.lookup column
  build f := e.columns.mapM fun c => do return (c.name, ← f.read Value c.name)

namespace Entity

variable {e : Entity} {key i : Nat} {c k : Column} {v w : Value} {row : Row} {field : String → Option Value} {f : Fault}

/-- A row with a value of its kind for each column. A value is absent only where the column allows it, or where
storage is still to choose the key; a key that storage chose is positive. -/
structure Encodable (e : Entity) (row : Row) : Prop where
  length : row.length = e.columns.length
  kinds : ∀ (i : Nat) (c : Column) (v : Value), e.columns[i]? = some c → row[i]? = some v → v ≠ .null →
    v.kind? = some c.kind
  absent : ∀ (i : Nat) (c : Column), e.columns[i]? = some c → row[i]? = some .null →
    c.nullable = true ∨ e.autoincrement = true ∧ c.isKey = true
  positive : e.autoincrement = true → ∀ (i : Nat) (c : Column) (n : Int64), e.columns[i]? = some c → c.isKey = true →
    row[i]? = some (.integer n) → 0 < n

theorem KeyAt.fillsKey_iff (keyAt : e.KeyAt key k) (column : e.columns[i]? = some c) :
    e.fillsKey key i = true ↔ e.autoincrement = true ∧ c.isKey = true := by
  rw [fillsKey, Bool.and_eq_true, beq_iff_eq]
  refine and_congr_right fun _ => ⟨?_, keyAt.only i c column⟩
  rintro rfl
  rw [← Option.some.inj (keyAt.column.symm.trans column)]
  exact keyAt.isKey

theorem Encodable.fits (encodable : e.Encodable row) (keyAt : e.KeyAt key k) : e.Fits key row := by
  refine ⟨encodable.length, fun i c v column value => ?_⟩
  rw [accepts_iff, keyAt.fillsKey_iff column]
  by_cases absent : v = .null
  · subst absent
    exact .inr ⟨rfl, encodable.absent i c column value⟩
  · exact .inl (encodable.kinds i c v column value absent)

theorem encodable_of_encode (keyAt : e.KeyAt key k) (encoded : e.encode field = .ok row) : e.Encodable row := by
  have fits := fits_of_encode keyAt encoded
  refine ⟨fits.length, fun i c v column value present => ?_, fun i c column value => ?_, ?_⟩
  · exact (accepts_iff.mp (fits.accepted i c v column value)).resolve_right fun absent => present absent.1
  · rcases accepts_iff.mp (fits.accepted i c .null column value) with kind | ⟨_, allowed⟩
    · cases kind
    · rwa [keyAt.fillsKey_iff column] at allowed
  · intro auto i c n column isKey value
    obtain rfl := keyAt.only i c column isKey
    have has : e.lacksKey i row = false := by simp [lacksKey, value]
    obtain ⟨m, held, positive⟩ := key_of_encode keyAt encoded auto has
    rwa [Value.integer.inj (Option.some.inj (value.symm.trans held))]

/-- A value goes from the row and back, unless it is a key that no instance is stored under. -/
theorem encodeKey_openValue (positive : e.fillsKey key i = true → ∀ n, v = .integer n → 0 < n) :
    e.encodeKey key i c (e.openValue key i v) = .ok v := by
  rw [encodeKey_eq_ok, openValue]
  by_cases fills : e.fillsKey key i = true
  · by_cases absent : v = .null
    · simp [fills, absent, Value.isNull, unsetKey]
    · have other : v ≠ .integer unsetKey := fun unset => Int64.lt_irrefl (positive fills _ unset)
      have kept : v.isNull = false := by simpa [Bool.eq_false_iff] using absent
      simp only [fills, kept, Bool.and_false, Bool.false_eq_true, if_false, other, and_false, and_true]
      intro _ n number
      exact Int64.not_lt.mpr (Int64.le_of_lt (positive fills n number))
  · simp [fills]

/-- No two columns share a name, so each is found with its own value. -/
theorem Valid.lookup_values {values : List Value} (valid : e.Valid) (column : e.columns[i]? = some c)
    (value : values[i]? = some v) : ((e.columns.map (·.name)).zip values).lookup c.name = some v := by
  cases found : ((e.columns.map (·.name)).zip values).lookup c.name with
  | none =>
    have listed : (c.name, v) ∈ (e.columns.map (·.name)).zip values := mem_values.mpr ⟨i, c, column, rfl, value⟩
    have apart := List.lookup_eq_none_iff.mp found _ listed
    simp at apart
  | some w =>
    obtain ⟨before, after, split, _⟩ := List.lookup_eq_some_iff.mp found
    have listed : (c.name, w) ∈ (e.columns.map (·.name)).zip values := by rw [split]; simp
    obtain ⟨j, d, other, named, value'⟩ := mem_values.mp listed
    obtain rfl : j = i := by
      have same := valid.columnIndex?_eq other
      rw [named, valid.columnIndex?_eq column] at same
      exact (Option.some.inj same).symm
    exact value'.symm.trans value

/-- The type of all values is built from every row that can be opened. -/
theorem decode_values (valid : e.Valid) (keyAt : e.KeyAt key k) (fits : e.Fits key row) :
    e.decode (.values e) row = .ok ((e.columns.map (·.name)).zip (row.mapIdx (e.openValue key))) := by
  have opened : e.fields row = .ok ⟨e, row.mapIdx (e.openValue key)⟩ :=
    fields_eq_ok.mpr ⟨key, keyAt.index, fits, rfl⟩
  rw [decode, opened]
  refine Checks.mapM_eq_ok_getElem?.mpr ⟨by simp [fits.length], ?_⟩
  rintro i c ⟨name, v⟩ column listed
  obtain ⟨named, value⟩ := List.getElem?_zip_eq_some.mp listed
  obtain rfl : c.name = name := by simpa [column] using named
  have got : Fields.get ⟨e, row.mapIdx (e.openValue key)⟩ c.name = .ok v := by
    rw [Fields.get, valid.columnIndex?_eq column, Option.bind_some, value]
  exact Checks.bind_eq_ok.mpr ⟨v, Fields.read_eq_ok got rfl, rfl⟩

theorem exists_decode_encode (valid : e.Valid) (encodable : e.Encodable row) :
    ∃ a, e.decode (.values e) row = .ok a ∧ e.encode ((Mapping.values e).field a) = .ok row := by
  obtain ⟨key, k, keyAt⟩ := valid.keyAt
  have fits := encodable.fits keyAt
  refine ⟨_, decode_values valid keyAt fits, encode_eq_ok.mpr ⟨key, keyAt.index, fits.length, ?_⟩⟩
  intro i c v column value
  have opened : (row.mapIdx (e.openValue key))[i]? = some (e.openValue key i v) := by
    rw [List.getElem?_mapIdx, value, Option.map_some]
  refine encodeField_eq_ok.mpr ⟨_, valid.lookup_values column opened, encodeKey_openValue ?_,
    fits.accepted i c v column value⟩
  rintro fills n rfl
  obtain ⟨auto, isKey⟩ := (keyAt.fillsKey_iff column).mp fills
  exact encodable.positive auto i c n column isKey value

/-! ## Instances without a row -/

/-- What keeps the field of an instance for a column from being stored. -/
inductive FieldOffence (e : Entity) (field : String → Option Value) (c : Column) : Fault → Prop
  | missing (none : field c.name = none) : FieldOffence e field c (.missingField e.name c.name)
  | negative {n : Int64} (given : field c.name = some (.integer n)) (auto : e.autoincrement = true)
      (isKey : c.isKey = true) (less : n < 0) : FieldOffence e field c (.badKey e.name c.kind .negative)
  | mistyped {v : Value} (given : field c.name = some v) (other : v.kind? ≠ some c.kind)
      (required : v = .null → c.nullable = false ∧ ¬ (e.autoincrement = true ∧ c.isKey = true)) :
      FieldOffence e field c (.wrongKind e.name c.name c.kind v)

theorem encodeKey_eq_error : e.encodeKey key i c v = .error f ↔
    e.fillsKey key i = true ∧ (∃ n, v = .integer n ∧ n < 0) ∧ f = .badKey e.name c.kind .negative := by
  cases v with
  | integer n =>
    rw [encodeKey]
    by_cases fills : e.fillsKey key i = true
    · by_cases unset : n = unsetKey
      · subst unset
        simp [fills, unsetKey]
      · by_cases negative : n < 0
        · simp [fills, unset, negative, eq_comm]
        · simp [fills, unset, negative]
    · simp [fills]
  | null => simp [encodeKey]
  | text s => simp [encodeKey]
  | timestamp t => simp [encodeKey]

theorem requireAccepted_eq_error : e.requireAccepted key i c v = .error f ↔
    e.accepts key i c v = false ∧ f = .wrongKind e.name c.name c.kind v := by
  rw [requireAccepted]
  cases e.accepts key i c v with
  | true => simp
  | false => simp [eq_comm]

/-- A field is refused for exactly one reason. A key that storage chooses is an integer column, so that a negative
key and a key of another kind are not taken for each other. -/
theorem encodeField_eq_error (keyAt : e.KeyAt key k) (column : e.columns[i]? = some c) :
    e.encodeField key field (c, i) = .error f ↔ e.FieldOffence field c f := by
  have integral : e.fillsKey key i = true → c.kind = .integer := by
    intro fills
    obtain ⟨auto, isKey⟩ := (keyAt.fillsKey_iff column).mp fills
    obtain rfl := keyAt.only i c column isKey
    rw [← Option.some.inj (keyAt.column.symm.trans column), keyAt.counted auto]
  rw [encodeField]
  cases given : field c.name with
  | none =>
    constructor
    · intro refused
      rw [← Except.error.inj refused]
      exact .missing given
    · intro offence
      cases offence with
      | missing none => rfl
      | negative other => cases given.symm.trans other
      | mistyped other => cases given.symm.trans other
  | some v =>
    simp only [Checks.bind_eq_error, encodeKey_eq_error, encodeKey_eq_ok, requireAccepted_eq_error]
    constructor
    · rintro (⟨fills, ⟨n, rfl, less⟩, rfl⟩ | ⟨w, ⟨_, rfl⟩, unaccepted, rfl⟩)
      · obtain ⟨auto, isKey⟩ := (keyAt.fillsKey_iff column).mp fills
        exact .negative given auto isKey less
      · have refused := mt accepts_iff.mpr (Bool.eq_false_iff.mp unaccepted)
        by_cases unset : e.fillsKey key i = true ∧ v = .integer unsetKey
        · rw [if_pos unset] at refused
          exact absurd (.inr ⟨rfl, .inr unset.1⟩) refused
        · rw [if_neg unset] at refused ⊢
          rw [keyAt.fillsKey_iff column] at refused
          refine .mistyped given (fun kind => refused (.inl kind)) fun absent => ?_
          exact ⟨Bool.eq_false_iff.mpr fun nullable => refused (.inr ⟨absent, .inl nullable⟩),
            fun filled => refused (.inr ⟨absent, .inr filled⟩)⟩
    · intro offence
      cases offence with
      | missing none => cases given.symm.trans none
      | @negative n number auto isKey less =>
        obtain rfl := Option.some.inj (given.symm.trans number)
        exact .inl ⟨(keyAt.fillsKey_iff column).mpr ⟨auto, isKey⟩, ⟨n, rfl, less⟩, rfl⟩
      | @mistyped w held other required =>
        obtain rfl := Option.some.inj (given.symm.trans held)
        have apart : e.fillsKey key i = true → ∀ n, v ≠ .integer n := by
          rintro fills n rfl
          exact other (by rw [integral fills]; rfl)
        have unchanged : (if e.fillsKey key i = true ∧ v = .integer unsetKey then .null else v) = v :=
          if_neg fun unset => apart unset.1 _ unset.2
        refine .inr ⟨v, ⟨fun fills n number => absurd number (apart fills n), unchanged.symm⟩, ?_, rfl⟩
        rw [Bool.eq_false_iff]
        intro accepted
        rcases accepts_iff.mp accepted with kind | ⟨absent, allowed⟩
        · exact other kind
        · obtain ⟨demanded, unfilled⟩ := required absent
          rw [demanded, keyAt.fillsKey_iff column] at allowed
          exact unfilled (allowed.resolve_left Bool.false_ne_true)

/-- The fault of the first column whose field cannot be stored. -/
def FirstFieldOffence (e : Entity) (field : String → Option Value) (f : Fault) : Prop :=
  ∃ before c after, e.columns = before ++ c :: after ∧ (∀ d ∈ before, ∀ g, ¬ e.FieldOffence field d g) ∧
    e.FieldOffence field c f

theorem encode_eq_error (keyAt : e.KeyAt key k) : e.encode field = .error f ↔ e.FirstFieldOffence field f := by
  have index : e.requireKey = .ok key := requireKey_eq_ok.mpr keyAt.index
  have stored : ∀ (j : Nat) (d : Column), e.columns[j]? = some d →
      ((∃ w, e.encodeField key field (d, j) = .ok w) ↔ ∀ g, ¬ e.FieldOffence field d g) := by
    intro j d column
    simp only [← encodeField_eq_error keyAt column]
    cases e.encodeField key field (d, j) <;> simp
  rw [encode, index]
  refine Checks.mapM_eq_error.trans ?_
  constructor
  · rintro ⟨before, ⟨c, i⟩, after, split, passed, refused⟩
    have located : ∀ p ∈ before ++ (c, i) :: after, e.columns[p.2]? = some p.1 := by
      intro p listed
      rw [← split] at listed
      exact List.mem_zipIdx_iff_getElem?.mp listed
    refine ⟨before.map (·.1), c, after.map (·.1), ?_, ?_, ?_⟩
    · have columns := congrArg (List.map (·.1)) split
      rwa [List.zipIdx_map_fst, List.map_append, List.map_cons] at columns
    · rintro d listed
      obtain ⟨⟨_, j⟩, member, rfl⟩ := List.mem_map.mp listed
      exact (stored j _ (located _ (List.mem_append_left _ member))).mp (passed _ member)
    · exact (encodeField_eq_error keyAt (located (c, i) (by simp))).mp refused
  · rintro ⟨before, c, after, split, passed, offence⟩
    refine ⟨before.zipIdx, (c, before.length), after.zipIdx (before.length + 1), ?_, ?_, ?_⟩
    · rw [split, List.zipIdx_append, List.zipIdx_cons, Nat.zero_add]
    · rintro ⟨d, j⟩ listed
      have here := List.mem_zipIdx_iff_getElem?.mp listed
      have inside : j < before.length := (List.getElem?_eq_some_iff.mp here).1
      have column : e.columns[j]? = some d := by rwa [split, List.getElem?_append_left inside]
      exact (stored j d column).mpr (passed d (List.mem_of_getElem? here))
    · have column : e.columns[before.length]? = some c := by rw [split]; simp
      exact (encodeField_eq_error keyAt column).mpr offence

/-- The rows of the instances of a valid entity, of any type, are the encodable ones. Such a row is opened by the type
of all values and is the row of the instance that is built. An instance without a row has a field that cannot be
stored, and is refused for the first one in the order of the columns. -/
theorem encoded_rows (valid : e.Valid) :
    (∀ row, (∃ (α : Type) (m : Mapping α) (a : α), e.encode (m.field a) = .ok row) ↔ e.Encodable row) ∧
    (∀ row, e.Encodable row →
      ∃ a, e.decode (.values e) row = .ok a ∧ e.encode ((Mapping.values e).field a) = .ok row) ∧
    ∀ (α : Type) (m : Mapping α) (a : α) (f : Fault),
      e.encode (m.field a) = .error f ↔ e.FirstFieldOffence (m.field a) f := by
  obtain ⟨key, k, keyAt⟩ := valid.keyAt
  refine ⟨fun row => ⟨?_, fun encodable => ?_⟩, fun row => exists_decode_encode valid, fun α m a f =>
    encode_eq_error keyAt⟩
  · rintro ⟨α, m, a, encoded⟩
    exact encodable_of_encode keyAt encoded
  · obtain ⟨a, _, encoded⟩ := exists_decode_encode valid encodable
    exact ⟨_, _, a, encoded⟩

/-- A note whose key is 0 in its row is opened, but it is the row of no instance: a note with the key 0 has none in
its row. Of two fields that cannot be stored, the first is the negative key. -/
theorem encoded_rows_unset :
    let e : Entity := { name := "Note", autoincrement := true, columns := [
      { name := "text", kind := .text, nullable := true }, { name := "id", kind := .integer, isKey := true },
      { name := "at", kind := .timestamp }] }
    let t : Timestamp := ⟨59, 1500000001, by decide, by decide, by decide⟩
    let a : List (String × Value) := [("text", .null), ("id", .integer 0), ("at", .timestamp t)]
    let b : List (String × Value) := [("text", .text "b"), ("id", .integer (-1)), ("at", .text "now")]
    e.Valid ∧ e.Encodable [.null, .null, .timestamp t] ∧
      e.decode (.values e) [.null, .null, .timestamp t] = .ok a ∧
      e.encode ((Mapping.values e).field a) = .ok [.null, .null, .timestamp t] ∧
      e.decode (.values e) [.null, .integer 0, .timestamp t] = .ok a ∧
      ¬ e.Encodable [.null, .integer 0, .timestamp t] ∧
      e.FirstFieldOffence ((Mapping.values e).field b) (.badKey "Note" .integer .negative) := by
  intro e t a b
  have valid : e.Valid := violations_eq_nil.mp (by decide +kernel)
  have encoded : e.encode ((Mapping.values e).field a) = .ok [.null, .null, .timestamp t] := by decide +kernel
  have opened : e.decode (.values e) [.null, .integer 0, .timestamp t] = .ok a := by decide +kernel
  have refused : e.encode ((Mapping.values e).field b) = .error (.badKey "Note" .integer .negative) := by
    decide +kernel
  obtain ⟨image, again, refusals⟩ := encoded_rows valid
  have encodable := (image _).mp ⟨_, _, a, encoded⟩
  obtain ⟨a', decoded, _⟩ := again _ encodable
  obtain rfl : a = a' := Except.ok.inj (Eq.trans (by decide +kernel) decoded)
  refine ⟨valid, encodable, decoded, encoded, opened, fun other => ?_, (refusals _ _ b _).mp refused⟩
  obtain ⟨_, decoded', encoded'⟩ := again _ other
  obtain rfl := Except.ok.inj (opened.symm.trans decoded')
  cases encoded.symm.trans encoded'

end Entity

end Tabular
