import Tabular.Item
import Tabular.Proofs.Checks

/-!
# Rows and instances

`encode` and `fields` go through the columns of an entity apart from each other. Each is described here by
what it does to the value at one position (`encode_eq_ok`, `fields_eq_ok`). The fields that are read from the
row of an instance are the fields of the instance (`get_encode`), as a key that storage has not chosen becomes
absent in the row and is read as unset again; items are therefore read back as they were (`decode_encode`).
-/

namespace Tabular

theorem Fields.read_eq_ok {α : Type} [Reading α] {f : Fields} {column : String} {v : Value} {a : α}
    (got : f.get column = .ok v) (read : Reading.read v = some a) : f.read α column = .ok a := by
  rw [Fields.read, got]
  simp only [bind, Except.bind, read]
  rfl

namespace Entity

variable {e : Entity} {key i : Nat} {c : Column} {v w : Value}

theorem requireKey_eq_ok : e.requireKey = .ok key ↔ e.keyIndex? = some key := by
  rw [requireKey]
  cases e.keyIndex? with
  | none => simp
  | some found => simp

theorem requireLength_eq_ok {row : Row} : e.requireLength row = .ok () ↔ row.length = e.columns.length := by
  rw [requireLength]
  by_cases same : row.length = e.columns.length
  · simp [same]
  · simp [same]

theorem requireAccepted_eq_ok : e.requireAccepted key i c v = .ok w ↔ e.accepts key i c v = true ∧ w = v := by
  rw [requireAccepted]
  by_cases accepted : e.accepts key i c v = true
  · simp [accepted, eq_comm]
  · simp [accepted]

/-- The value that is read where a row holds `v`. -/
def openValue (e : Entity) (key i : Nat) (v : Value) : Value :=
  if e.fillsKey key i && v.isNull then .integer unsetKey else v

/-- A key goes to the row and back. Only a key that is absent in the instance is read as unset. -/
theorem openValue_encodeKey (encoded : e.encodeKey key i c v = .ok w) :
    e.openValue key i w = if v = .null ∧ e.fillsKey key i = true then .integer unsetKey else v := by
  -- Elsewhere nothing is rewritten, and at the key only the integer 0 is.
  by_cases fills : e.fillsKey key i = true
  · cases v with
    | null =>
      obtain rfl : Value.null = w := Except.ok.inj encoded
      simp [openValue, fills, Value.isNull]
    | integer n =>
      rw [encodeKey, if_pos fills] at encoded
      by_cases unset : n = unsetKey
      · rw [if_pos unset] at encoded
        obtain rfl : Value.null = w := Except.ok.inj encoded
        simp [openValue, fills, Value.isNull, unset]
      · rw [if_neg unset] at encoded
        by_cases negative : n < 0
        · rw [if_pos negative] at encoded
          cases encoded
        · rw [if_neg negative] at encoded
          obtain rfl : Value.integer n = w := Except.ok.inj encoded
          simp [openValue, Value.isNull]
    | text s =>
      obtain rfl : Value.text s = w := Except.ok.inj encoded
      simp [openValue, Value.isNull]
    | timestamp t =>
      obtain rfl : Value.timestamp t = w := Except.ok.inj encoded
      simp [openValue, Value.isNull]
  · have same : v = w := by
      cases v with
      | integer n =>
        rw [encodeKey, if_neg fills] at encoded
        exact Except.ok.inj encoded
      | null => exact Except.ok.inj encoded
      | text s => exact Except.ok.inj encoded
      | timestamp t => exact Except.ok.inj encoded
    simp [openValue, fills, same]

/-! ## Whole rows -/

/-- A row with one value for each column, which the column may hold. -/
structure Fits (e : Entity) (key : Nat) (row : Row) : Prop where
  length : row.length = e.columns.length
  accepted : ∀ i c v, e.columns[i]? = some c → row[i]? = some v → e.accepts key i c v = true

private theorem getElem?_zipIdx_iff {d : Column} {j : Nat} :
    e.columns.zipIdx[i]? = some (d, j) ↔ e.columns[i]? = some d ∧ j = i := by
  rw [List.getElem?_zipIdx, Nat.zero_add]
  cases e.columns[i]? with
  | none => simp
  | some c => simp [eq_comm]

theorem encode_eq_ok {field : String → Option Value} {row : Row} :
    e.encode field = .ok row ↔ ∃ key, e.keyIndex? = some key ∧ row.length = e.columns.length ∧
      ∀ i c v, e.columns[i]? = some c → row[i]? = some v → e.encodeField key field (c, i) = .ok v := by
  rw [encode, Checks.bind_eq_ok]
  refine exists_congr fun key => ?_
  rw [requireKey_eq_ok, Checks.mapM_eq_ok_getElem?, List.length_zipIdx]
  refine and_congr_right fun _ => and_congr_right fun _ => ?_
  constructor
  · intro each i c v column value
    exact each i (c, i) v (getElem?_zipIdx_iff.mpr ⟨column, rfl⟩) value
  · rintro each i ⟨c, j⟩ v column value
    obtain ⟨found, rfl⟩ := getElem?_zipIdx_iff.mp column
    exact each j c v found value

theorem encodeField_eq_ok {field : String → Option Value} :
    e.encodeField key field (c, i) = .ok w ↔
      ∃ v, field c.name = some v ∧ e.encodeKey key i c v = .ok w ∧ e.accepts key i c w = true := by
  rw [encodeField]
  cases field c.name with
  | none => simp
  | some v =>
    simp only [Checks.bind_eq_ok, requireAccepted_eq_ok, Option.some.injEq, exists_eq_left']
    constructor
    · rintro ⟨stored, encoded, accepted, rfl⟩
      exact ⟨encoded, accepted⟩
    · rintro ⟨encoded, accepted⟩
      exact ⟨w, encoded, accepted, rfl⟩

/-- What is read from a row, value by value. -/
private theorem open_row (row : Row) (key : Nat) :
    (if e.autoincrement && row[key]? = some .null then row.set key (.integer unsetKey) else row) =
      row.mapIdx (e.openValue key) := by
  refine List.ext_getElem? fun i => ?_
  rw [List.getElem?_mapIdx]
  by_cases unset : (e.autoincrement && row[key]? = some .null) = true
  · have parts : e.autoincrement = true ∧ row[key]? = some .null := by simpa using unset
    rw [if_pos unset, List.getElem?_set]
    by_cases here : key = i
    · subst here
      have inside : key < row.length := (List.getElem?_eq_some_iff.mp parts.2).1
      have filled : (e.fillsKey key key && Value.null.isNull) = true := by simp [fillsKey, parts.1, Value.isNull]
      rw [if_pos rfl, if_pos inside, parts.2, Option.map_some, openValue, if_pos filled]
    · have other : e.openValue key i = id := by
        funext v
        simp [openValue, fillsKey, Ne.symm here]
      rw [if_neg here, other, Option.map_id, id]
  · rw [if_neg unset]
    cases value : row[i]? with
    | none => rfl
    | some v =>
      have kept : e.openValue key i v = v := by
        rw [openValue, if_neg]
        rintro filled
        have parts : (e.autoincrement = true ∧ i = key) ∧ v = .null := by simpa [fillsKey] using filled
        obtain ⟨⟨auto, rfl⟩, rfl⟩ := parts
        exact unset (by simp [auto, value])
      rw [Option.map_some, kept]

private theorem open_answer (row : Row) (key : Nat) :
    (if e.autoincrement && row[key]? = some .null then pure ⟨e, row.set key (.integer unsetKey)⟩ else pure ⟨e, row⟩) =
      (.ok ⟨e, row.mapIdx (e.openValue key)⟩ : Except Fault Fields) := by
  rw [← open_row]
  split <;> rfl

private theorem mapM_requireAccepted {row values : Row} (sameLength : row.length = e.columns.length) :
    (e.columns.zipIdx.zip row).mapM (fun ((c, i), v) => e.requireAccepted key i c v) = .ok values ↔
      e.Fits key row ∧ values = row := by
  have zipped : (e.columns.zipIdx.zip row).length = row.length := by
    rw [List.length_zip, List.length_zipIdx, sameLength, Nat.min_self]
  rw [Checks.mapM_eq_ok_getElem?, zipped]
  constructor
  · rintro ⟨answered, each⟩
    have answer : ∀ i c v w, e.columns[i]? = some c → row[i]? = some v → values[i]? = some w →
        e.accepts key i c v = true ∧ w = v := by
      intro i c v w column value answer
      have pair : (e.columns.zipIdx.zip row)[i]? = some ((c, i), v) :=
        List.getElem?_zip_eq_some.mpr ⟨getElem?_zipIdx_iff.mpr ⟨column, rfl⟩, value⟩
      exact requireAccepted_eq_ok.mp (each i _ w pair answer)
    refine ⟨⟨sameLength, fun i c v column value => ?_⟩, ?_⟩
    · have inside : i < values.length := answered ▸ (List.getElem?_eq_some_iff.mp value).1
      exact (answer i c v values[i] column value (List.getElem?_eq_getElem inside)).1
    · refine List.ext_getElem answered fun i inside short => ?_
      have bound : i < e.columns.length := sameLength ▸ short
      exact (answer i e.columns[i] row[i] values[i] (List.getElem?_eq_getElem bound)
        (List.getElem?_eq_getElem short) (List.getElem?_eq_getElem inside)).2
  · rintro ⟨fits, rfl⟩
    refine ⟨rfl, ?_⟩
    rintro i ⟨⟨c, j⟩, v⟩ w pair answer
    obtain ⟨column, value⟩ := List.getElem?_zip_eq_some.mp pair
    obtain ⟨found, rfl⟩ := getElem?_zipIdx_iff.mp column
    exact requireAccepted_eq_ok.mpr ⟨fits.accepted j c v found value, Option.some.inj (answer.symm.trans value)⟩

/-- A row is opened when it fits, and then each of its values is read by itself. -/
theorem fields_eq_ok {row : Row} {f : Fields} :
    e.fields row = .ok f ↔ ∃ key, e.keyIndex? = some key ∧ e.Fits key row ∧
      f = ⟨e, row.mapIdx (e.openValue key)⟩ := by
  rw [fields, Checks.bind_eq_ok]
  constructor
  · rintro ⟨_, sameLength, checked⟩
    obtain ⟨key, keyed, accepted⟩ := Checks.bind_eq_ok.mp checked
    obtain ⟨values, opened, answer⟩ := Checks.bind_eq_ok.mp accepted
    obtain ⟨fits, rfl⟩ := (mapM_requireAccepted (requireLength_eq_ok.mp sameLength)).mp opened
    exact ⟨key, requireKey_eq_ok.mp keyed, fits, Except.ok.inj (answer.symm.trans (open_answer values key))⟩
  · rintro ⟨key, keyed, fits, rfl⟩
    refine ⟨(), requireLength_eq_ok.mpr fits.length, Checks.bind_eq_ok.mpr ⟨key, requireKey_eq_ok.mpr keyed, ?_⟩⟩
    exact Checks.bind_eq_ok.mpr ⟨row, (mapM_requireAccepted fits.length).mpr ⟨fits, rfl⟩, open_answer row key⟩

/-! ## From an instance to its row and back -/

theorem fits_encodeField {field : String → Option Value} {row : Row} (sameLength : row.length = e.columns.length)
    (each : ∀ i c v, e.columns[i]? = some c → row[i]? = some v → e.encodeField key field (c, i) = .ok v) :
    e.Fits key row := by
  refine ⟨sameLength, fun i c v column value => ?_⟩
  obtain ⟨_, _, _, accepted⟩ := encodeField_eq_ok.mp (each i c v column value)
  exact accepted

/-- The first column with the name of a column. -/
private theorem columnIndex?_of_mem (member : c ∈ e.columns) :
    ∃ i d, e.columnIndex? c.name = some i ∧ e.columns[i]? = some d ∧ d.name = c.name := by
  cases found : e.columnIndex? c.name with
  | none =>
    have missing := List.findIdx?_eq_none_iff.mp found c member
    simp at missing
  | some i =>
    obtain ⟨inside, named, _⟩ := List.findIdx?_eq_some_iff_getElem.mp found
    exact ⟨i, e.columns[i], rfl, List.getElem?_eq_getElem inside, by simpa using named⟩

/-- What is read from the row of an instance whose field for a column is `v`. A key that storage fills in and
that the instance does not have is read as unset; of several columns with one name the first is read. -/
def readBack (e : Entity) (column : String) (v : Value) : Value :=
  if v = .null ∧ e.autoincrement = true ∧ e.columnIndex? column = e.keyIndex? then .integer unsetKey else v

/-- The fields that are read from the row of an instance are those of the instance. -/
theorem get_encode {field : String → Option Value} {row : Row} (encoded : e.encode field = .ok row) :
    ∃ f, e.fields row = .ok f ∧
      ∀ c ∈ e.columns, ∃ v, field c.name = some v ∧ f.get c.name = .ok (e.readBack c.name v) := by
  obtain ⟨key, keyed, sameLength, each⟩ := encode_eq_ok.mp encoded
  have fits : e.Fits key row := fits_encodeField sameLength each
  refine ⟨⟨e, row.mapIdx (e.openValue key)⟩, fields_eq_ok.mpr ⟨key, keyed, fits, rfl⟩, fun c member => ?_⟩
  obtain ⟨i, d, index, column, named⟩ := columnIndex?_of_mem member
  have inside : i < row.length := sameLength ▸ (List.getElem?_eq_some_iff.mp column).1
  have value : row[i]? = some row[i] := List.getElem?_eq_getElem inside
  obtain ⟨v, given, stored, _⟩ := encodeField_eq_ok.mp (each i d row[i] column value)
  rw [named] at given
  refine ⟨v, given, ?_⟩
  have here : e.fillsKey key i = true ↔ e.autoincrement = true ∧ e.columnIndex? c.name = e.keyIndex? := by
    simp [fillsKey, index, keyed]
  have read : Fields.get ⟨e, row.mapIdx (e.openValue key)⟩ c.name = .ok (e.openValue key i row[i]) := by
    rw [Fields.get, index, Option.bind_some, List.getElem?_mapIdx, value, Option.map_some]
  rw [read, openValue_encodeKey stored, readBack]
  simp only [here]

/-- An instance is built from fields that are its own. -/
theorem decode_of_encode {α : Type} {m : Mapping α} {a : α} {row : Row} (encoded : e.encode (m.field a) = .ok row) :
    ∃ f, e.fields row = .ok f ∧ e.decode m row = m.build f ∧
      ∀ c ∈ e.columns, ∃ v, m.field a c.name = some v ∧ f.get c.name = .ok (e.readBack c.name v) := by
  obtain ⟨f, opened, each⟩ := get_encode encoded
  refine ⟨f, opened, ?_, each⟩
  rw [decode, opened]
  rfl

end Entity

namespace Item

/-- The row of an item that storage has not refused. -/
def row (item : Item) : Row :=
  [if item.id = unsetKey then .null else .integer item.id, .text item.content, .timestamp item.createdTime]

/-- The key of an item goes to its row when it is not negative. -/
private theorem encodeKey_item (item : Item) (c : Column) (kind : c.kind = .integer) :
    entity.encodeKey 0 0 c (.integer item.id) =
      if item.id < 0 then .error (.badKey "Item" .integer .negative)
      else .ok (if item.id = unsetKey then .null else .integer item.id) := by
  have fills : entity.fillsKey 0 0 = true := rfl
  rw [Entity.encodeKey, if_pos fills, kind]
  by_cases unset : item.id = unsetKey
  · rw [if_pos unset, if_pos unset, unset]
    rfl
  · rw [if_neg unset, if_neg unset]
    rfl

theorem encode_item (item : Item) (kept : ¬ item.id < 0) : entity.encode item.field = .ok item.row := by
  have key : entity.keyIndex? = some 0 := rfl
  refine Entity.encode_eq_ok.mpr ⟨0, key, rfl, ?_⟩
  intro i c v column value
  refine Entity.encodeField_eq_ok.mpr ?_
  match i, column, value with
  | 0, column, value =>
    obtain rfl := Option.some.inj column
    obtain rfl := Option.some.inj value
    refine ⟨.integer item.id, rfl, ?_, ?_⟩
    · rw [encodeKey_item item _ rfl, if_neg kept]
    · by_cases unset : item.id = unsetKey
      · rw [if_pos unset]
        rfl
      · rw [if_neg unset]
        rfl
  | 1, column, value =>
    obtain rfl := Option.some.inj column
    obtain rfl := Option.some.inj value
    exact ⟨.text item.content, rfl, rfl, rfl⟩
  | 2, column, value =>
    obtain rfl := Option.some.inj column
    obtain rfl := Option.some.inj value
    exact ⟨.timestamp item.createdTime, rfl, rfl, rfl⟩

theorem encode_negative (item : Item) (negative : item.id < 0) :
    entity.encode item.field = .error (.badKey "Item" .integer .negative) := by
  have key : entity.requireKey = .ok 0 := rfl
  have columns : entity.columns.zipIdx = (entity.columns[0], 0) :: entity.columns.tail.zipIdx 1 := rfl
  have first : entity.encodeField 0 item.field (entity.columns[0], 0) =
      .error (.badKey "Item" .integer .negative) := by
    have refused := encodeKey_item item entity.columns[0] rfl
    rw [if_pos negative] at refused
    rw [Entity.encodeField]
    show entity.encodeKey 0 0 _ _ >>= _ = _
    rw [refused]
    rfl
  rw [Entity.encode, key]
  show List.mapM _ _ = _
  rw [columns, List.mapM_cons, first]
  rfl

/-- An item is built from fields that hold what it holds, as its time is kept to the millisecond already. -/
theorem build_eq_ok {f : Fields} {id : Int64} {content : String} {t : Timestamp}
    (ids : f.get "id" = .ok (.integer id)) (contents : f.get "content" = .ok (.text content))
    (times : f.get "created_time" = .ok (.timestamp t.truncate)) : build f = .ok (new id content t) := by
  have id' : f.read Int64 "id" = .ok id := Fields.read_eq_ok ids rfl
  have content' : f.read String "content" = .ok content := Fields.read_eq_ok contents rfl
  have time' : f.read Timestamp "created_time" = .ok t.truncate := Fields.read_eq_ok times rfl
  have again : new id content t.truncate = new id content t := by
    rw [new, new, Timestamp.truncate_truncate]
  rw [build, id', content', time']
  exact congrArg Except.ok again

theorem decode_new {id : Int64} {content : String} {t : Timestamp} {row : Row}
    (encoded : entity.encode (new id content t).field = .ok row) :
    entity.decode mapping row = .ok (new id content t) := by
  obtain ⟨f, _, decoded, each⟩ := Entity.decode_of_encode (m := mapping) encoded
  have holds : ∀ c ∈ entity.columns, ∀ v, v ≠ .null → (new id content t).field c.name = some v →
      f.get c.name = .ok v := by
    intro c member v present given
    obtain ⟨w, held, got⟩ := each c member
    obtain rfl := Option.some.inj (given.symm.trans held)
    rwa [Entity.readBack, if_neg fun absent => present absent.1] at got
  rw [decoded]
  refine build_eq_ok ?_ ?_ ?_
  · exact holds entity.columns[0] (List.getElem_mem _) _ (by simp) rfl
  · exact holds entity.columns[1] (List.getElem_mem _) _ (by simp) rfl
  · exact holds entity.columns[2] (List.getElem_mem _) _ (by simp) rfl

end Item

/-- Reading undoes writing. From the row of an instance its fields are read, whatever the entity, for every
column of the entity; only a key that is absent in the instance is read as unset. An item therefore comes back
from its row as it was, unless its key is negative, when it has no row. -/
theorem decode_encode :
    (∀ (α : Type) (m : Mapping α) (e : Entity) (a : α) (row : Row), e.encode (m.field a) = .ok row →
      ∃ f, e.fields row = .ok f ∧ e.decode m row = m.build f ∧
        ∀ c ∈ e.columns, ∃ v, m.field a c.name = some v ∧ f.get c.name = .ok (e.readBack c.name v)) ∧
    (∀ id content t, 0 ≤ id →
      ∃ row, Item.entity.encode (Item.mapping.field (Item.new id content t)) = .ok row ∧
        Item.entity.decode Item.mapping row = .ok (Item.new id content t)) ∧
    (∀ id content t, id < 0 →
      Item.entity.encode (Item.mapping.field (Item.new id content t)) =
        .error (.badKey "Item" .integer .negative)) := by
  refine ⟨fun α m e a row encoded => Entity.decode_of_encode encoded, ?_, ?_⟩
  · intro id content t kept
    have encoded := Item.encode_item (Item.new id content t) (Int64.not_lt.mpr kept)
    exact ⟨_, encoded, Item.decode_new encoded⟩
  · intro id content t negative
    exact Item.encode_negative (Item.new id content t) negative

/-- An absent key is read as unset, also where another column has its name, and a leap second is kept. -/
theorem decode_encode_absent :
    let e : Entity := ⟨"Note", none, true, [⟨"id", .integer, false, true, false, false, none⟩,
      ⟨"id", .text, true, false, false, false, none⟩]⟩
    let m : Mapping Unit := ⟨"Note", fun _ _ => some .null, fun _ => .ok ()⟩
    let t : Timestamp := ⟨59, 1500000001, by decide, by decide, by decide⟩
    (e.encode (m.field ()) = .ok [.null, .null] ∧
      ∃ f, e.fields [.null, .null] = .ok f ∧ f.get "id" = .ok (.integer unsetKey)) ∧
    ((0 : Int64) ≤ 7 ∧ ∃ row, Item.entity.encode (Item.mapping.field (Item.new 7 "a" t)) = .ok row ∧
      Item.entity.decode Item.mapping row = .ok (Item.new 7 "a" t)) ∧
    ((-1 : Int64) < 0 ∧
      Item.entity.encode (Item.mapping.field (Item.new (-1) "a" t)) =
        .error (.badKey "Item" .integer .negative)) := by
  intro e m t
  obtain ⟨general, stored, refused⟩ := decode_encode
  have encoded : e.encode (m.field ()) = .ok [.null, .null] := by decide
  have kept : (0 : Int64) ≤ 7 := by decide
  have negative : (-1 : Int64) < 0 := by decide
  refine ⟨⟨encoded, ?_⟩, ⟨kept, stored 7 "a" t kept⟩, ⟨negative, refused (-1) "a" t negative⟩⟩
  obtain ⟨f, opened, _, each⟩ := general Unit m e () _ encoded
  obtain ⟨v, held, got⟩ := each e.columns[0] (List.getElem_mem _)
  obtain rfl : Value.null = v := Option.some.inj held
  exact ⟨f, opened, got⟩

end Tabular
