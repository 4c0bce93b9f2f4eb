import Tabular.Proofs.GeneratedKeys

/-!
# Keys that are assigned to rows

Assigning a key to the row of an instance without one makes the row of the instance that has this key. A row takes a
key once, and only at the place of the key; a row that takes none is left as it was, also when it is refused
(`assigned_keys`). What becomes of a refused row is told by the assignment in place (`assignKeyIn`).
-/

namespace Tabular.Entity

variable {e : Entity} {key : Nat} {k : Column} {row row' : Row} {n : Int64}

/-- Puts a key into a row that is kept in place, so that there is a row also after a fault. -/
def assignKeyIn (e : Entity) (n : Int64) : ExceptT Fault (StateM Row) Bool := do
  e.requireLength (← get)
  let index ← e.requireKey
  if e.autoincrement && (← get)[index]? = some .null then
    modify (·.set index (.integer n))
    return true
  else
    return false

section InPlace

variable {α β : Type}

private theorem run_bind (x : ExceptT Fault (StateM Row) α) (next : α → ExceptT Fault (StateM Row) β) :
    (x >>= next).run.run row =
      match x.run.run row with
      | (.ok a, row') => (next a).run.run row'
      | (.error f, row') => (.error f, row') := by
  show (x.run.run row >>= fun p => (ExceptT.bindCont next p.1).run p.2) = _
  rcases x.run.run row with ⟨_ | _, _⟩ <;> rfl

private theorem run_get : (get : ExceptT Fault (StateM Row) Row).run.run row = (.ok row, row) :=
  rfl

private theorem run_lift (x : Except Fault α) : (liftM x : ExceptT Fault (StateM Row) α).run.run row = (x, row) :=
  rfl

end InPlace

/-- The assignment in place gives the same answer. It writes last, so that a refused row was not written to. -/
theorem run_assignKeyIn (e : Entity) (row : Row) (n : Int64) : (e.assignKeyIn n).run.run row =
    match e.assignKey row n with
    | .ok (taken, row') => (.ok taken, row')
    | .error f => (.error f, row) := by
  cases sameLength : e.requireLength row with
  | error f =>
    simp only [assignKeyIn, assignKey, run_bind, run_get, run_lift, sameLength]
    rfl
  | ok _ =>
    cases keyed : e.requireKey with
    | error f =>
      simp only [assignKeyIn, assignKey, run_bind, run_get, run_lift, sameLength, keyed]
      rfl
    | ok key =>
      have answer : e.assignKey row n =
          if e.autoincrement && row[key]? = some .null then .ok (true, row.set key (.integer n))
          else .ok (false, row) := by
        rw [assignKey, sameLength, keyed]
        rfl
      simp only [assignKeyIn, run_bind, run_get, run_lift, sameLength, keyed, answer]
      by_cases lacks : (e.autoincrement && row[key]? = some .null) = true
      · rw [if_pos lacks, if_pos lacks]
        rfl
      · rw [if_neg lacks, if_neg lacks]
        rfl

/-- A row that took a key differs from what it was at the place of the key, where nothing was. -/
theorem set_of_assignKey {taken : Bool} (assigned : e.assignKey row n = .ok (taken, row')) :
    taken = false ∧ row' = row ∨
      taken = true ∧ ∃ key, e.keyIndex? = some key ∧ row[key]? = some .null ∧ row' = row.set key (.integer n) := by
  obtain ⟨_, _, located⟩ := Checks.bind_eq_ok.mp assigned
  obtain ⟨key, index, _⟩ := Checks.bind_eq_ok.mp located
  have keyed := requireKey_eq_ok.mp index
  obtain ⟨_, answer⟩ := (assignKey_eq_ok keyed).mp assigned
  obtain ⟨rfl, rfl⟩ := Prod.mk.inj answer
  cases lacks : e.lacksKey key row with
  | false => exact .inl ⟨rfl, by rw [withKey, lacks, if_neg Bool.false_ne_true]⟩
  | true => exact .inr ⟨rfl, key, keyed, (lacksKey_iff.mp lacks).2, by rw [withKey, if_pos lacks]⟩

/-! ## Instances with the key -/

/-- The fields of an instance with this key, which has the fields of another beside it. -/
structure SetsKey (e : Entity) (n : Int64) (field field' : String → Option Value) : Prop where
  key : ∀ c ∈ e.columns, c.isKey = true → field' c.name = some (.integer n)
  others : ∀ c ∈ e.columns, c.isKey = false → field' c.name = field c.name

variable {field field' : String → Option Value}

theorem setsKey_update (valid : e.Valid) (keyAt : e.KeyAt key k) (field : String → Option Value) (n : Int64) :
    e.SetsKey n field (Function.update field k.name (some (.integer n))) := by
  constructor
  · intro c known isKey
    obtain ⟨i, column⟩ := List.getElem?_of_mem known
    obtain rfl := keyAt.only i c column isKey
    obtain rfl := Option.some.inj (keyAt.column.symm.trans column)
    exact Function.update_self ..
  · intro c known isKey
    obtain ⟨i, column⟩ := List.getElem?_of_mem known
    refine Function.update_of_ne (fun same => ?_) ..
    have here := valid.columnIndex?_eq column
    rw [same, valid.columnIndex?_eq keyAt.column] at here
    obtain rfl := Option.some.inj here
    obtain rfl := Option.some.inj (keyAt.column.symm.trans column)
    exact Bool.false_ne_true (isKey.symm.trans keyAt.isKey)

theorem encode_setsKey (keyAt : e.KeyAt key k) (auto : e.autoincrement = true) (encoded : e.encode field = .ok row)
    (lacks : e.lacksKey key row = true) (positive : 0 < n) (sets : e.SetsKey n field field') :
    e.encode field' = .ok (e.withKey key n row) := by
  obtain ⟨key', index, sameLength, each⟩ := encode_eq_ok.mp encoded
  obtain rfl : key = key' := Option.some.inj (keyAt.index.symm.trans index)
  refine encode_eq_ok.mpr ⟨key, index, by rw [length_withKey, sameLength], fun i c v column value => ?_⟩
  rw [getElem?_withKey] at value
  have known := List.mem_of_getElem? column
  by_cases here : i = key
  · subst here
    obtain rfl := Option.some.inj (keyAt.column.symm.trans column)
    rw [if_pos ⟨lacks, rfl⟩] at value
    obtain rfl := Option.some.inj value
    refine encodeField_eq_ok.mpr ⟨_, sets.key _ known keyAt.isKey, encodeKey_eq_ok.mpr ⟨?_, ?_⟩, ?_⟩
    · rintro _ m number
      obtain rfl := Value.integer.inj number
      exact Int64.not_lt.mpr (Int64.le_of_lt positive)
    · have given : Value.integer n ≠ .integer unsetKey := fun unset => by
        rw [Value.integer.inj unset] at positive
        exact Int64.lt_irrefl positive
      rw [if_neg fun unset => given unset.2]
    · exact accepts_iff.mpr (.inl (by rw [keyAt.counted auto]; rfl))
  · have other : c.isKey = false := Bool.eq_false_iff.mpr fun isKey => here (keyAt.only i c column isKey)
    rw [if_neg fun both => here both.2] at value
    have stored := each i c v column value
    rwa [encodeField, ← sets.others c known other, ← encodeField] at stored

theorem fields_setsKey (valid : e.Valid) (keyAt : e.KeyAt key k) (sets : e.SetsKey n field field')
    (encoded : e.encode field' = .ok row') :
    ∃ f, e.fields row' = .ok f ∧ f.get k.name = .ok (.integer n) ∧
      ∀ c ∈ e.columns, c ≠ k → ∃ v, field c.name = some v ∧ f.get c.name = .ok v := by
  obtain ⟨f, opened, each⟩ := get_encode encoded
  refine ⟨f, opened, ?_, fun c known other => ?_⟩
  · have member := List.mem_of_getElem? keyAt.column
    obtain ⟨v, given, got⟩ := each k member
    obtain rfl := Option.some.inj ((sets.key k member keyAt.isKey).symm.trans given)
    rwa [readBack, if_neg fun absent => by cases absent.1] at got
  · obtain ⟨i, column⟩ := List.getElem?_of_mem known
    have apart : i ≠ key := by
      rintro rfl
      exact other (Option.some.inj (column.symm.trans keyAt.column))
    have beside : c.isKey = false := Bool.eq_false_iff.mpr fun isKey => apart (keyAt.only i c column isKey)
    obtain ⟨v, given, got⟩ := each c known
    rw [sets.others c known beside] at given
    refine ⟨v, given, ?_⟩
    rwa [readBack, if_neg] at got
    rintro ⟨_, _, here⟩
    rw [valid.columnIndex?_eq column, keyAt.index] at here
    exact apart (Option.some.inj here)

/-- A row takes a key at most once: for a valid entity whose keys storage chooses, the row of an instance whose key is
unset takes any positive key, and is then the row of every instance that has this key and the other fields of the
first. The instance that is built from it is built from these fields, and no further key is taken. Whatever the entity
and the row, a row that takes no key or is refused stays as it was, and one that takes a key changes where the key
stands, in place of nothing. -/
theorem assigned_keys :
    (∀ e : Entity, e.Valid → e.autoincrement = true → ∀ (α : Type) (m : Mapping α) (a : α) (k : Column) (n : Int64)
      (row : Row), e.key? = some k →
      (m.field a k.name = some .null ∨ m.field a k.name = some (.integer unsetKey)) →
      e.encode (m.field a) = .ok row → 0 < n → ∃ row', e.assignKey row n = .ok (true, row') ∧
        (∀ (β : Type) (m' : Mapping β) (b : β), e.SetsKey n (m.field a) (m'.field b) →
          e.encode (m'.field b) = .ok row') ∧
        (∃ f, e.fields row' = .ok f ∧ e.decode m row' = m.build f ∧ f.get k.name = .ok (.integer n) ∧
          ∀ c ∈ e.columns, c ≠ k → ∃ v, m.field a c.name = some v ∧ f.get c.name = .ok v) ∧
        ∀ n', e.assignKey row' n' = .ok (false, row')) ∧
    ∀ (e : Entity) (row : Row) (n : Int64),
      (∀ f, e.assignKey row n = .error f → (e.assignKeyIn n).run.run row = (.error f, row)) ∧
      (∀ row', e.assignKey row n = .ok (false, row') →
        row' = row ∧ (e.assignKeyIn n).run.run row = (.ok false, row)) ∧
      ∀ row', e.assignKey row n = .ok (true, row') → (e.assignKeyIn n).run.run row = (.ok true, row') ∧
        ∃ key, e.keyIndex? = some key ∧ row[key]? = some .null ∧ row' = row.set key (.integer n) := by
  constructor
  · intro e valid auto α m a k n row keyed unset encoded positive
    obtain ⟨key, k', keyAt⟩ := valid.keyAt
    obtain rfl : k = k' := Option.some.inj (keyed.symm.trans keyAt.key?_eq)
    have lacks := lacksKey_of_unset keyAt auto encoded unset
    have sameLength := (fits_of_encode keyAt encoded).length
    have square : ∀ field', e.SetsKey n (m.field a) field' → e.encode field' = .ok (e.withKey key n row) :=
      fun field' => encode_setsKey keyAt auto encoded lacks positive
    refine ⟨e.withKey key n row, ?_, fun β m' b => square _, ?_, fun n' => ?_⟩
    · exact (assignKey_eq_ok keyAt.index).mpr ⟨sameLength, by rw [lacks]⟩
    · have sets := setsKey_update valid keyAt (m.field a) n
      obtain ⟨f, opened, read⟩ := fields_setsKey valid keyAt sets (square _ sets)
      refine ⟨f, opened, ?_, read⟩
      rw [decode, opened]
      rfl
    · have taken : e.lacksKey key (e.withKey key n row) = false := lacksKey_withKey n row
      have again : e.withKey key n' (e.withKey key n row) = e.withKey key n row :=
        if_neg (Bool.eq_false_iff.mp taken)
      exact (assignKey_eq_ok keyAt.index).mpr ⟨by rw [length_withKey, sameLength], by rw [taken, again]⟩
  · intro e row n
    have inPlace := run_assignKeyIn e row n
    refine ⟨fun f refused => by rw [inPlace, refused], fun row' kept => ?_, fun row' taken => ?_⟩
    · obtain ⟨_, rfl⟩ | ⟨taken, _⟩ := set_of_assignKey kept
      · exact ⟨rfl, by rw [inPlace, kept]⟩
      · cases taken
    · obtain ⟨kept, _⟩ | ⟨_, changed⟩ := set_of_assignKey taken
      · cases kept
      · exact ⟨by rw [inPlace, taken], changed⟩

/-- A note whose key is its second column takes the key 7 and no other. A row that is too short is refused and stays. -/
theorem assigned_keys_note :
    let e : Entity := { name := "Note", autoincrement := true, columns := [
      { name := "text", kind := .text, nullable := true }, { name := "id", kind := .integer, isKey := true }] }
    let a : List (String × Value) := [("id", .integer 0), ("text", .null)]
    let b : List (String × Value) := [("text", .null), ("id", .integer 7)]
    let m : Mapping (List (String × Value)) := ⟨"Note", fun a column => a.lookup column, fun f => do
      return [("id", ← f.get "id"), ("text", ← f.get "text")]⟩
    e.Valid ∧ e.encode (m.field a) = .ok [.null, .null] ∧ (0 : Int64) < 7 ∧
      e.assignKey [.null, .null] 7 = .ok (true, [.null, .integer 7]) ∧
      e.SetsKey 7 (m.field a) (m.field b) ∧ e.encode (m.field b) = .ok [.null, .integer 7] ∧
      e.decode m [.null, .integer 7] = .ok [("id", .integer 7), ("text", .null)] ∧
      e.assignKey [.null, .integer 7] 9 = .ok (false, [.null, .integer 7]) ∧
      ∃ f, (e.assignKeyIn 7).run.run [.null] = (.error f, [.null]) := by
  intro e a b m
  have valid : e.Valid := violations_eq_nil.mp (by decide +kernel)
  have encoded : e.encode (m.field a) = .ok [.null, .null] := by decide +kernel
  have positive : (0 : Int64) < 7 := by decide
  have sets : e.SetsKey 7 (m.field a) (m.field b) := ⟨by decide +kernel, by decide +kernel⟩
  have taken : e.assignKey [.null, .null] 7 = .ok (true, [.null, .integer 7]) := by decide +kernel
  have refused : e.assignKey [.null] 7 = .error (.rowLength "Note" 2 1) := by decide +kernel
  obtain ⟨square, frame⟩ := assigned_keys
  obtain ⟨row', answer, commutes, _, settled⟩ := square e valid rfl _ m a _ 7 _ rfl (.inr rfl) encoded positive
  obtain ⟨_, rfl⟩ := Prod.mk.inj (Except.ok.inj (taken.symm.trans answer))
  obtain ⟨untouched, _, _⟩ := frame e [.null] 7
  exact ⟨valid, encoded, positive, taken, sets, commutes _ m b sets, by decide +kernel, settled 9, _,
    untouched _ refused⟩

end Tabular.Entity
