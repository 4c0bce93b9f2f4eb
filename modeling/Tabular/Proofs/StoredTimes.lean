import Tabular.Proofs.FoundRows

/-!
# Times that are stored

A time is stored as whole milliseconds, which a 64-bit integer always holds (`Timestamp.millis_fits`). Every integer
that stands for milliseconds of the supported range is read as the time of so many, and stored again as the integer
that it was read from. A time comes back as it was unless it has a part below a millisecond or is a leap second, and
what is stored of times is ordered as the times are, leap seconds aside (`Entity.stored_times`).
-/

namespace Tabular

namespace Timestamp

/-- Milliseconds of a second that is supported. -/
def Covers (m : Int) : Prop :=
  -8334601228800 ≤ m / 1000 ∧ m / 1000 ≤ 8210266876799

/-- A time that has no part below a millisecond and is no leap second. -/
def IsExact (t : Timestamp) : Prop :=
  t.nanos < 1000000000 ∧ t.nanos % 1000000 = 0

/-- Times are ordered by their seconds, and within a second by their nanoseconds. -/
def Earlier (t u : Timestamp) : Prop :=
  t.seconds < u.seconds ∨ t.seconds = u.seconds ∧ t.nanos < u.nanos

instance (m : Int) : Decidable (Covers m) :=
  inferInstanceAs (Decidable (_ ∧ _))

instance (t u : Timestamp) : Decidable (t.Earlier u) :=
  inferInstanceAs (Decidable (_ ∨ _))

theorem millis_fits (t : Timestamp) : Int64.minValue.toInt ≤ t.seconds * 1000 ∧ t.seconds * 1000 ≤ t.millis ∧
    t.millis ≤ Int64.maxValue.toInt := by
  have lower := t.seconds_ge
  have upper := t.seconds_le
  have nanos := t.nanos_lt
  have least : Int64.minValue.toInt = -9223372036854775808 := rfl
  have greatest : Int64.maxValue.toInt = 9223372036854775807 := rfl
  rw [least, greatest, millis]
  omega

/-- Only a leap second after the last supported second counts as a millisecond of no supported second. -/
theorem covers_millis (t : Timestamp) :
    Covers t.millis ↔ ¬ (t.seconds = 8210266876799 ∧ 1000000000 ≤ t.nanos) := by
  have lower := t.seconds_ge
  have upper := t.seconds_le
  have nanos := t.nanos_lt
  simp only [Covers, millis]
  omega

theorem ofMillis?_parts {m : Int} {t : Timestamp} (read : ofMillis? m = some t) :
    t.seconds = m / 1000 ∧ (t.nanos : Int) = m % 1000 * 1000000 := by
  obtain ⟨rfl, ordinary, whole⟩ := ofMillis?_eq_some.mp read
  simp only [millis]
  omega

theorem isSome_ofMillis? {m : Int} : (ofMillis? m).isSome = true ↔ Covers m := by
  constructor
  · intro read
    obtain ⟨t, found⟩ := Option.isSome_iff_exists.mp read
    obtain ⟨seconds, _⟩ := ofMillis?_parts found
    rw [Covers, ← seconds]
    exact ⟨t.seconds_ge, t.seconds_le⟩
  · intro covered
    rw [ofMillis?, ofParts?, dif_pos ⟨covered, by omega, by omega⟩, Option.isSome_some]

variable {t u : Timestamp}

/-- A later time is stored as no smaller number, leap seconds aside. -/
theorem millis_le_of_not_earlier (ordinary : t.nanos < 1000000000) (order : ¬ u.Earlier t) :
    t.millis ≤ u.millis := by
  simp only [Earlier, not_or, not_and, Int.not_lt, Nat.not_lt] at order
  simp only [millis]
  omega

/-- What is stored of times is ordered as what is kept of them is. -/
theorem millis_lt_iff (ordinary : t.nanos < 1000000000) (ordinary' : u.nanos < 1000000000) :
    t.millis < u.millis ↔ t.truncate.Earlier u.truncate := by
  simp only [Earlier, truncate, millis]
  omega

end Timestamp

theorem Cell.order_integer {m n : Int64} : order (.integer m) (.integer n) = .lt ↔ m.toInt < n.toInt := by
  rw [← Int64.lt_iff_toInt_lt]
  exact Std.compare_eq_lt

/-- A value of which nothing is lost when it is stored. -/
def Value.IsExact : Value → Prop
  | timestamp t => t.IsExact
  | _ => True

namespace Entity

open Timestamp

variable {e : Entity} {c : Column} {v : Value} {row : Row}

theorem readCell_millis (timed : c.kind = .timestamp) (m : Int64) :
    e.readCell c (.integer m) =
      match Timestamp.ofMillis? m.toInt with
      | some t => .ok (.timestamp t)
      | none => .error (.outOfRange e.name c.name m) := by
  cases read : Timestamp.ofMillis? m.toInt with
  | some t => simp only [readCell, timed, read]
  | none => simp only [readCell, timed, read]

theorem readCell_of_covers (timed : c.kind = .timestamp) {m : Int64} (covered : Covers m.toInt) :
    ∃ t : Timestamp, e.readCell c (.integer m) = .ok (.timestamp t) ∧ t.seconds = m.toInt / 1000 ∧
      (t.nanos : Int) = m.toInt % 1000 * 1000000 ∧ (Value.timestamp t).cell = .integer m := by
  obtain ⟨t, read⟩ := Option.isSome_iff_exists.mp (isSome_ofMillis?.mpr covered)
  obtain ⟨seconds, nanos⟩ := ofMillis?_parts read
  obtain ⟨whole, _⟩ := ofMillis?_eq_some.mp read
  refine ⟨t, by rw [readCell_millis timed, read], seconds, nanos, ?_⟩
  rw [Value.cell, whole, Int64.ofInt_toInt]

theorem readCell_eq_outOfRange (timed : c.kind = .timestamp) {m : Int64} :
    e.readCell c (.integer m) = .error (.outOfRange e.name c.name m) ↔ ¬ Covers m.toInt := by
  constructor
  · intro refused covered
    obtain ⟨t, read, _⟩ := readCell_of_covers (e := e) timed covered
    rw [read] at refused
    cases refused
  · intro beyond
    rw [← isSome_ofMillis?, Option.not_isSome_iff_eq_none] at beyond
    rw [readCell_millis timed, beyond]

/-- A value of a column comes back as it was exactly when it is of the column's kind and exact. -/
theorem readCell_eq_self : e.readCell c v.cell = .ok v ↔ v = .null ∨ v.kind? = some c.kind ∧ v.IsExact := by
  cases v with
  | null => simp [readCell, Value.cell]
  | integer n =>
    cases kind : c.kind with
    | integer => simp [readCell, Value.cell, Value.kind?, Value.IsExact, kind]
    | text => simp [readCell, Value.cell, Value.kind?, kind]
    | timestamp =>
      rw [Value.cell, readCell_millis kind]
      cases Timestamp.ofMillis? n.toInt <;> simp [Value.kind?]
  | text s => cases kind : c.kind <;> simp [readCell, Value.cell, Value.kind?, Value.IsExact, kind]
  | timestamp t =>
    cases kind : c.kind with
    | integer => simp [readCell, Value.cell, Value.kind?, kind]
    | text => simp [readCell, Value.cell, Value.kind?, kind]
    | timestamp =>
      have exactly : ofMillis? t.millis = some t ↔ t.IsExact := by
        rw [ofMillis?_eq_some, and_iff_right rfl, Timestamp.IsExact]
      rw [readCell_timestamp kind, Value.IsExact, ← exactly]
      cases Timestamp.ofMillis? t.millis <;> simp [Value.kind?]

/-- What was read is stored as what it was read from. -/
theorem cell_of_readCell {x : Cell} (read : e.readCell c x = .ok v) : v.cell = x := by
  cases x with
  | null =>
    obtain rfl : Value.null = v := by simpa [readCell] using read
    rfl
  | integer m =>
    cases kind : c.kind with
    | integer =>
      obtain rfl : Value.integer m = v := by simpa [readCell, kind] using read
      rfl
    | text => simp [readCell, kind] at read
    | timestamp =>
      by_cases covered : Covers m.toInt
      · obtain ⟨t, found, _, _, stored⟩ := readCell_of_covers (e := e) kind covered
        rw [found] at read
        rw [← Except.ok.inj read, stored]
      · rw [(readCell_eq_outOfRange kind).mpr covered] at read
        cases read
  | text s =>
    cases kind : c.kind with
    | text =>
      obtain rfl : Value.text s = v := by simpa [readCell, kind] using read
      rfl
    | integer => simp [readCell, kind] at read
    | timestamp => simp [readCell, kind] at read
  | real r => cases kind : c.kind <;> simp [readCell, kind] at read
  | blob bytes => cases kind : c.kind <;> simp [readCell, kind] at read

private theorem forall₂_readCell {cs : List Column} (width : row.length = cs.length) :
    List.Forall₂ (fun p v => e.readCell p.1 p.2 = .ok v) (cs.zip (row.map Value.cell)) row ↔
      List.Forall₂ (fun c v => e.readCell c v.cell = .ok v) cs row := by
  induction cs generalizing row with
  | nil =>
    obtain rfl := List.length_eq_zero_iff.mp width
    exact iff_of_true .nil .nil
  | cons c rest ih =>
    obtain ⟨v, others, rfl⟩ := List.exists_cons_of_length_eq_add_one width
    rw [List.map_cons, List.zip_cons_cons, List.forall₂_cons, List.forall₂_cons, ih (by simpa using width)]

/-- A row comes back as it was exactly when each of its values does. -/
theorem readCells_eq_self : e.readCells (row.map Value.cell) = .ok row ↔
    List.Forall₂ (fun c v => v = .null ∨ v.kind? = some c.kind ∧ v.IsExact) e.columns row := by
  simp only [← readCell_eq_self (e := e)]
  by_cases width : row.length = e.columns.length
  · rw [readCells, if_pos (by rw [List.length_map, width]), Checks.mapM_eq_ok]
    exact forall₂_readCell width
  · rw [readCells, if_neg (by rwa [List.length_map])]
    refine iff_of_false (by simp) ?_
    intro kept
    exact width kept.length_eq.symm

/-! ## Times in a column -/

/-- A time is stored as its whole milliseconds, which are counted without an overflow. Milliseconds are read as the time
of so many, unless they lie beyond the supported range, as those of a leap second after the last second do; a time that
is no leap second and has no part below a millisecond comes back as it was. Cells of times are ordered like the times,
leap seconds aside. What was read is stored as what it was read from, and values and rows of which nothing is lost come
back as they were. -/
theorem stored_times (e : Entity) :
    (∀ t : Timestamp, ∃ m : Int64, (Value.timestamp t).cell = .integer m ∧
      m.toInt = t.seconds * 1000 + (t.nanos / 1000000 : Nat) ∧ Int64.minValue.toInt ≤ t.seconds * 1000 ∧
      t.seconds * 1000 + (t.nanos / 1000000 : Nat) ≤ Int64.maxValue.toInt ∧
      ∀ c : Column, c.kind = .timestamp →
        (e.readCell c (.integer m) = .error (.outOfRange e.name c.name m) ↔
          t.seconds = 8210266876799 ∧ 1000000000 ≤ t.nanos) ∧
        (e.readCell c (.integer m) = .ok (.timestamp t) ↔ t.nanos < 1000000000 ∧ t.nanos % 1000000 = 0)) ∧
    (∀ (c : Column) (m : Int64), c.kind = .timestamp →
      (Covers m.toInt → ∃ t : Timestamp, e.readCell c (.integer m) = .ok (.timestamp t) ∧
        t.seconds = m.toInt / 1000 ∧ (t.nanos : Int) = m.toInt % 1000 * 1000000) ∧
      (¬ Covers m.toInt → e.readCell c (.integer m) = .error (.outOfRange e.name c.name m))) ∧
    (∀ t u : Timestamp, t.nanos < 1000000000 → u.nanos < 1000000000 →
      (¬ u.Earlier t → Cell.order (Value.timestamp t).cell (Value.timestamp u).cell ≠ .gt) ∧
      (Cell.order (Value.timestamp t).cell (Value.timestamp u).cell = .lt ↔ t.truncate.Earlier u.truncate)) ∧
    (∀ c x v, e.readCell c x = .ok v → v.cell = x) ∧
    (∀ c v, e.readCell c v.cell = .ok v ↔ v = .null ∨ v.kind? = some c.kind ∧ v.IsExact) ∧
    ∀ row : Row, e.readCells (row.map Value.cell) = .ok row ↔
      List.Forall₂ (fun c v => v = .null ∨ v.kind? = some c.kind ∧ v.IsExact) e.columns row := by
  refine ⟨fun t => ?_, fun c m timed => ⟨fun covered => ?_, (readCell_eq_outOfRange timed).mpr⟩,
    fun t u ordinary ordinary' => ⟨fun order later => ?_, ?_⟩, fun c x v => cell_of_readCell,
    fun c v => readCell_eq_self, fun row => readCells_eq_self⟩
  · obtain ⟨lower, _, upper⟩ := t.millis_fits
    have whole := t.toInt_millis
    refine ⟨Int64.ofInt t.millis, rfl, whole, lower, upper, fun c timed => ⟨?_, ?_⟩⟩
    · rw [readCell_eq_outOfRange timed, whole, covers_millis, not_not]
    · have same := readCell_eq_self (e := e) (c := c) (v := .timestamp t)
      simpa [Value.cell, Value.kind?, Value.IsExact, Timestamp.IsExact, timed] using same
  · obtain ⟨t, read, seconds, nanos, _⟩ := readCell_of_covers timed covered
    exact ⟨t, read, seconds, nanos⟩
  · rw [← Ordering.swap_eq_lt, Cell.order_swap, Value.cell, Value.cell, Cell.order_integer, toInt_millis,
      toInt_millis] at later
    have order := millis_le_of_not_earlier ordinary order
    omega
  · rw [← millis_lt_iff ordinary ordinary', Value.cell, Value.cell, Cell.order_integer, toInt_millis, toInt_millis]

/-- Times before the epoch are rounded down, and a leap second may lie beyond what can be read. -/
theorem stored_times_extreme :
    let c : Column := ⟨"at", .timestamp, false, false, false, false, none⟩
    let e : Entity := ⟨"E", none, false, [⟨"id", .integer, false, true, false, false, none⟩, c]⟩
    let t : Timestamp := ⟨-1, 999999999, by decide, by decide, by decide⟩
    let kept : Timestamp := ⟨-1, 999000000, by decide, by decide, by decide⟩
    let last : Timestamp := ⟨8210266876799, 1500000000, by decide, by decide, by decide⟩
    (c.kind = .timestamp ∧ Covers (-1) ∧ ¬ Covers 8210266876800500 ∧ ¬ t.Earlier kept) ∧
      (Value.timestamp t).cell = .integer (-1) ∧ e.readCell c (.integer (-1)) = .ok (.timestamp kept) ∧
      Cell.order (Value.timestamp kept).cell (Value.timestamp t).cell ≠ .gt ∧
      (Value.timestamp last).cell = .integer 8210266876800500 ∧
      e.readCell c (.integer 8210266876800500) = .error (.outOfRange "E" "at" 8210266876800500) ∧
      e.readCells [.integer 7, .integer (-1)] = .ok [.integer 7, .timestamp kept] := by
  intro c e t kept last
  have covered : Covers (-1) := by decide
  have beyond : ¬ Covers 8210266876800500 := by decide
  have order : ¬ t.Earlier kept := by decide
  have whole : kept.nanos < 1000000000 ∧ kept.nanos % 1000000 = 0 := by decide
  obtain ⟨_, read, orders, _, _, rows⟩ := stored_times e
  obtain ⟨u, found, seconds, nanos⟩ := (read c (-1) rfl).1 covered
  have same : u = kept := Timestamp.ext seconds (Int.ofNat.inj nanos)
  refine ⟨⟨rfl, covered, beyond, order⟩, by decide, same ▸ found, ?_, by decide, (read c _ rfl).2 beyond, ?_⟩
  · exact (orders kept t (by decide) (by decide)).1 order
  · have cells : [Value.integer 7, .timestamp kept].map Value.cell = [.integer 7, .integer (-1)] := by decide
    rw [← cells]
    exact (rows _).mpr (.cons (.inr ⟨rfl, trivial⟩) (.cons (.inr ⟨rfl, whole⟩) .nil))

end Entity

end Tabular
