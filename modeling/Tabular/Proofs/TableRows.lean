import Tabular.Database
import Tabular.Proofs.Cells
import Tabular.Proofs.Checks
import Mathlib.Data.List.Pairwise

/-!
# Rows of a table

A table is `Sound` when its rows are as its definition demands: each has one cell for every column, the id stands
in the cell of an integer key, no required cell is absent, and nothing that tells rows apart is shared. Whatever
is inserted, changed or deleted, a sound table stays sound (`Sound.insertRow`, `revise_eq_ok`, `Sound.sublist`),
and its rows are old rows, the row inserted, or what became of old rows.
-/

theorem Int64.le_max_left (a b : Int64) : a ≤ max a b := by
  show a ≤ if a ≤ b then b else a
  split
  · assumption
  · exact Int64.le_refl a

theorem Int64.le_max_right (a b : Int64) : b ≤ max a b := by
  show b ≤ if a ≤ b then b else a
  split
  · exact Int64.le_refl b
  · exact Int64.le_of_lt (Int64.not_le.mp ‹_›)

theorem Int64.lt_add_one {a : Int64} (notLast : a ≠ Int64.maxValue) : a < a + 1 := by
  have upper := Int64.toInt_lt a
  have lower := Int64.le_toInt a
  have last : a.toInt ≠ 9223372036854775807 := fun same => notLast (Int64.toInt_inj.mp same)
  have one : (1 : Int64).toInt = 1 := rfl
  rw [Int64.lt_iff_toInt_lt, Int64.toInt_add, one, Int.bmod_eq_of_le (by omega) (by omega)]
  omega

namespace Tabular

open Sql Text

namespace Table

variable {t t' : Table} {r s : Record} {rows : List Record}

theorem sharesAt_comm (i : Nat) (r s : Record) : sharesAt i r s = sharesAt i s r :=
  Cell.same_comm _ _

theorem clashes_comm (t : Table) (r s : Record) : t.clashes r s = t.clashes s r := by
  rw [clashes, clashes, Bool.beq_comm]
  simp only [sharesAt_comm _ r s]

theorem apart_symm (apart : t.clashes r s = false) : t.clashes s r = false := by
  rwa [clashes_comm]

/-- A row shares nothing with rows that it does not clash with. -/
theorem shared?_eq_none : t.shared? r rows = none ↔ ∀ s ∈ rows, t.clashes r s = false := by
  rw [shared?]
  by_cases taken : rows.any (·.id == r.id) = true
  · rw [if_pos taken]
    obtain ⟨s, member, same⟩ := List.any_eq_true.mp taken
    constructor
    · intro none
      cases none
    · intro free
      have clash := free s member
      rw [clashes, same] at clash
      cases clash
  · rw [if_neg taken, Option.map_eq_none_iff, List.find?_eq_none]
    have fresh : ∀ s ∈ rows, (s.id == r.id) = false := by simpa using taken
    constructor
    · intro apart s member
      rw [clashes, fresh s member, Bool.false_or, List.any_eq_false]
      rintro ⟨i, c⟩ column shared
      exact apart (i, c) column (List.any_eq_true.mpr ⟨s, member, shared⟩)
    · rintro free ⟨i, c⟩ column shared
      obtain ⟨s, member, same⟩ := List.any_eq_true.mp shared
      have clash := free s member
      rw [clashes, Bool.or_eq_false_iff, List.any_eq_false] at clash
      exact clash.2 (i, c) column same

theorem id_ne_of_clashes (apart : t.clashes r s = false) : s.id ≠ r.id := by
  rw [clashes, Bool.or_eq_false_iff] at apart
  exact beq_eq_false_iff_ne.mp apart.1

theorem place_perm (r : Record) (rows : List Record) : (place r rows).Perm (r :: rows) := by
  induction rows with
  | nil => exact .refl _
  | cons s rest ih =>
    rw [place]
    by_cases before : r.id < s.id
    · rw [if_pos before]
    · rw [if_neg before]
      exact (ih.cons s).trans (.swap r s rest)

theorem mem_place : s ∈ place r rows ↔ s = r ∨ s ∈ rows := by
  rw [(place_perm r rows).mem_iff, List.mem_cons]

theorem place_ordered (ordered : rows.Pairwise fun s u => s.id < u.id) (fresh : ∀ s ∈ rows, s.id ≠ r.id) :
    (place r rows).Pairwise fun s u => s.id < u.id := by
  induction rows with
  | nil => exact List.pairwise_singleton _ _
  | cons s rest ih =>
    obtain ⟨first, others⟩ := List.pairwise_cons.mp ordered
    rw [place]
    by_cases before : r.id < s.id
    · rw [if_pos before, List.pairwise_cons]
      refine ⟨fun u member => ?_, ordered⟩
      rcases List.mem_cons.mp member with rfl | later
      · exact before
      · exact Int64.lt_trans before (first u later)
    · rw [if_neg before, List.pairwise_cons]
      refine ⟨fun u member => ?_, ih others fun u later => fresh u (List.mem_cons_of_mem s later)⟩
      rcases mem_place.mp member with rfl | later
      · have different : s.id ≠ u.id := fresh s List.mem_cons_self
        exact Int64.lt_of_le_of_ne (Int64.not_lt.mp before) different
      · exact first u later

/-- A row of the table's shape. -/
structure Fits (t : Table) (r : Record) : Prop where
  width : r.cells.length = t.columns.length
  key : ∀ i, t.idIndex? = some i → r.cells[i]? = some (.integer r.id)
  required : t.missing? r = none

/-- A table whose rows are as its definition demands. -/
structure Sound (t : Table) : Prop where
  names : (t.columns.map fun c => foldCase c.name).Nodup
  fits : ∀ r ∈ t.rows, t.Fits r
  ordered : t.rows.Pairwise fun r s => r.id < s.id
  distinct : t.rows.Pairwise fun r s => t.clashes r s = false

theorem sound_empty {d : TableDefinition} (names : (d.columns.map fun c => foldCase c.name).Nodup) :
    Sound { definition := d } where
  names := names
  fits := by simp
  ordered := .nil
  distinct := .nil

theorem Sound.sublist (sound : t.Sound) (kept : rows.Sublist t.rows) (n : Int64) :
    Sound { t with rows := rows, lastId := n } where
  names := sound.names
  fits := fun r member =>
    have fits := sound.fits r (kept.subset member)
    ⟨fits.width, fits.key, fits.required⟩
  ordered := sound.ordered.sublist kept
  distinct := sound.distinct.sublist kept

theorem Sound.place (sound : t.Sound) (fits : t.Fits r) (free : ∀ s ∈ t.rows, t.clashes r s = false) (n : Int64) :
    Sound { t with rows := place r t.rows, lastId := n } where
  names := sound.names
  fits := by
    intro s member
    rcases mem_place.mp member with rfl | old
    · exact ⟨fits.width, fits.key, fits.required⟩
    · have fits := sound.fits s old
      exact ⟨fits.width, fits.key, fits.required⟩
  ordered := place_ordered sound.ordered fun s member => id_ne_of_clashes (free s member)
  distinct := ((place_perm r t.rows).pairwise_iff apart_symm).mpr (List.pairwise_cons.mpr ⟨free, sound.distinct⟩)

/-- Two rows of a sound table that clash are one row. -/
theorem Sound.eq_of_clashes (sound : t.Sound) (first : r ∈ t.rows) (second : s ∈ t.rows)
    (clash : t.clashes r s = true) : r = s := by
  by_contra different
  have : Std.Symm fun r s => t.clashes r s = false := ⟨fun _ _ => apart_symm⟩
  have apart := sound.distinct.forall first second different
  rw [clash] at apart
  cases apart

theorem withId_id (id : Int64) (cells : List Cell) : (t.withId id cells).id = id := by
  rw [withId]
  split <;> rfl

/-- A record that is made with an id has it in the cell of an integer key, and the other cells as given. -/
theorem getElem?_withId (id : Int64) {cells : List Cell} (width : cells.length = t.columns.length) (i : Nat) :
    (t.withId id cells).cells[i]? = if t.idIndex? = some i then some (.integer id) else cells[i]? := by
  rw [withId]
  cases index : t.idIndex? with
  | none => simp
  | some j =>
    have inside : j < cells.length := by
      rw [width]
      exact (List.findIdx?_eq_some_iff_getElem.mp index).1
    rw [List.getElem?_set]
    by_cases here : j = i
    · subst here
      simp [inside]
    · simp [here]

theorem fits_withId {id : Int64} {cells : List Cell} (width : cells.length = t.columns.length)
    (required : t.missing? (t.withId id cells) = none) : t.Fits (t.withId id cells) where
  width := by
    rw [← width, withId]
    split <;> simp
  key := by
    intro i index
    rw [getElem?_withId id width, if_pos index, withId_id]
  required := required

end Table

namespace Database

variable {t t' : Table} {r : Record} {given : List (Table.Target × Cell)}

/-! ## Rows that are inserted -/

theorem length_newCells : (newCells t given).length = t.columns.length := by
  rw [newCells, List.length_map, List.length_zipIdx]

theorem noteId_eq (t : Table) (id : Int64) :
    noteId t id = { t with lastId := if t.neverReuses then max t.lastId id else t.lastId } := by
  rw [noteId]
  split <;> rfl

theorem lastId_le_noteId (t : Table) (id : Int64) : t.lastId ≤ (noteId t id).lastId := by
  rw [noteId_eq]
  split
  · exact Int64.le_max_left t.lastId id
  · exact Int64.le_refl _

theorem le_lastId_noteId (never : t.neverReuses = true) (id : Int64) : id ≤ (noteId t id).lastId := by
  rw [noteId_eq, never]
  exact Int64.le_max_right t.lastId id

/-- An id that is never used again comes after all that were used. -/
theorem lastId_lt_of_nextId (never : t.neverReuses = true) {id : Int64} (chosen : t.nextId = .ok id) :
    t.lastId < id := by
  rw [Table.nextId, if_pos never] at chosen
  by_cases full : t.largestId? = some Int64.maxValue ∨ t.lastId = Int64.maxValue
  · rw [if_pos full] at chosen
    cases chosen
  · rw [if_neg full] at chosen
    rw [← Except.ok.inj chosen]
    exact Int64.lt_of_lt_of_le (Int64.lt_add_one fun last => full (.inr last)) (Int64.le_max_right _ _)

/-- An insertion drops the row or places it beside rows that it does not clash with. Only in the mode that
replaces rows, some may have made way for it. -/
theorem insertRow_eq_ok {mode : Conflict} {done : Option Int64} (inserted : insertRow t mode r = .ok (done, t')) :
    mode = .ignore ∧ done = none ∧ t' = noteId t r.id ∨
      ∃ kept, kept.Sublist t.rows ∧ (mode ≠ .replace → kept = t.rows) ∧ t.missing? r = none ∧
        (∀ s ∈ kept, t.clashes r s = false) ∧ done = some r.id ∧
        t' = { noteId t r.id with rows := Table.place r kept } := by
  have missing : (noteId t r.id).missing? r = t.missing? r := by rw [noteId_eq]; rfl
  have shared : (noteId t r.id).shared? r t.rows = t.shared? r t.rows := by rw [noteId_eq]; rfl
  have rows : (noteId t r.id).rows = t.rows := by rw [noteId_eq]
  have clashes : ∀ s, (noteId t r.id).clashes r s = t.clashes r s := by rw [noteId_eq]; exact fun _ => rfl
  simp only [insertRow, missing, shared, rows, clashes] at inserted
  cases absent : t.missing? r with
  | some c =>
    rw [absent] at inserted
    by_cases dropped : mode = .ignore
    · simp only [if_pos dropped, Except.ok.injEq, Prod.mk.injEq] at inserted
      exact .inl ⟨dropped, inserted.1.symm, inserted.2.symm⟩
    · simp [dropped] at inserted
  | none =>
    rw [absent] at inserted
    cases clash : t.shared? r t.rows with
    | none =>
      simp only [clash, Except.ok.injEq, Prod.mk.injEq] at inserted
      -- Nothing makes way, so the mode does not matter.
      exact .inr ⟨t.rows, .refl _, fun _ => rfl, rfl, Table.shared?_eq_none.mp clash, inserted.1.symm,
        inserted.2.symm⟩
    | some column =>
      simp only [clash] at inserted
      cases mode with
      | ignore =>
        simp only [Except.ok.injEq, Prod.mk.injEq] at inserted
        exact .inl ⟨rfl, inserted.1.symm, inserted.2.symm⟩
      | replace =>
        simp only [Except.ok.injEq, Prod.mk.injEq] at inserted
        refine .inr ⟨_, List.filter_sublist, fun other => absurd rfl other, rfl, ?_, inserted.1.symm, inserted.2.symm⟩
        intro s member
        simpa using (List.mem_filter.mp member).2
      | unspecified => cases inserted
      | abort => cases inserted
      | fail => cases inserted
      | rollback => cases inserted

end Database

namespace Table

open Database

variable {t t' : Table} {r : Record} {given : List (Target × Cell)}

theorem Sound.insertRow {mode : Conflict} {done : Option Int64} {id : Int64} {cells : List Cell} (sound : t.Sound)
    (width : cells.length = t.columns.length) (inserted : insertRow t mode (t.withId id cells) = .ok (done, t')) :
    t'.Sound := by
  rcases insertRow_eq_ok inserted with ⟨_, _, rfl⟩ | ⟨kept, old, _, required, free, _, rfl⟩
  · rw [noteId_eq]
    exact sound.sublist (.refl _) _
  · rw [noteId_eq]
    exact (sound.sublist old t.lastId).place (fits_withId width required) free _

end Table

namespace Database

variable {t t' : Table} {r s : Record} {given : List (Table.Target × Cell)}

/-! ## Rows that are changed -/

/-- The cells of a changed row: what is assigned last, and else what was there. -/
def assignedCells (t : Table) (given : List (Table.Target × Cell)) (r : Record) : List Cell :=
  t.columns.zipIdx.map fun (c, i) =>
    match given.reverse.lookup (.column i c.storage) with
    | some v => v.convert c.storage
    | none => r.cells.getD i .null

theorem length_assignedCells : (assignedCells t given r).length = t.columns.length := by
  rw [assignedCells, List.length_map, List.length_zipIdx]

/-- A changed row keeps its id unless the id is assigned. -/
theorem assign_eq_ok (assigned : assign t given r = .ok s) :
    ∃ id, s = t.withId id (assignedCells t given r) ∧
      (id = r.id ∨ ∃ p ∈ given, isId t p.1 = true ∧ p.2.rowId? = some id) := by
  unfold assign at assigned
  split at assigned
  case h_1 => exact ⟨r.id, (Except.ok.inj assigned).symm, .inl rfl⟩
  case h_2 target v last =>
    obtain ⟨member, isKey⟩ := List.mem_filter.mp (List.mem_of_getLast? last)
    split at assigned
    case h_1 id chosen =>
      exact ⟨id, (Except.ok.inj assigned).symm, .inr ⟨(target, v), member, isKey, chosen⟩⟩
    case h_2 => cases assigned

theorem reviseRow_eq_ok {id : Int64} : reviseRow t id r = .ok t' ↔
    t.missing? r = none ∧ (∀ s ∈ t.rows.filter (·.id != id), t.clashes r s = false) ∧
      t' = { t with rows := Table.place r (t.rows.filter (·.id != id)) } := by
  rw [reviseRow, ← Table.shared?_eq_none]
  cases t.missing? r with
  | some c => simp
  | none =>
    cases shared : t.shared? r (t.rows.filter (·.id != id)) with
    | some column => simp
    | none => simp [eq_comm]

theorem sound_of_reviseRow {id id' : Int64} {cells : List Cell} (sound : t.Sound)
    (width : cells.length = t.columns.length) (revised : reviseRow t id (t.withId id' cells) = .ok t') : t'.Sound := by
  obtain ⟨required, free, rfl⟩ := reviseRow_eq_ok.mp revised
  exact (sound.sublist List.filter_sublist t.lastId).place (Table.fits_withId width required) free _

/-- Changing some rows one after the other leaves a sound table of old rows and of what became of these rows. -/
theorem revise_eq_ok {matching : List Record}
    (revised : matching.foldlM (fun t r => do reviseRow t r.id (← assign t given r)) t = .ok t') :
    ∃ rows, t' = { t with rows := rows } ∧ (t.Sound → t'.Sound) ∧
      ∀ s ∈ rows, s ∈ t.rows ∨ ∃ r ∈ matching, assign t given r = .ok s := by
  -- Induction on the rows still to be changed. Each change may fail the next one, and keeps the table sound.
  induction matching generalizing t with
  | nil =>
    obtain rfl := Except.ok.inj revised
    exact ⟨t.rows, rfl, id, fun s member => .inl member⟩
  | cons r rest ih =>
    obtain ⟨next, first, later⟩ := Checks.bind_eq_ok.mp revised
    obtain ⟨s, assigned, placed⟩ := Checks.bind_eq_ok.mp first
    obtain ⟨_, _, rfl⟩ := reviseRow_eq_ok.mp placed
    obtain ⟨rows, rfl, sound, origins⟩ := ih later
    refine ⟨rows, rfl, fun before => sound ?_, fun u member => ?_⟩
    · obtain ⟨id, rfl, _⟩ := assign_eq_ok assigned
      exact sound_of_reviseRow before length_assignedCells placed
    · rcases origins u member with placed | ⟨old, matched, changed⟩
      · rcases Table.mem_place.mp placed with rfl | kept
        · exact .inr ⟨r, List.mem_cons_self, assigned⟩
        · exact .inl (List.mem_of_mem_filter kept)
      · exact .inr ⟨old, List.mem_cons_of_mem r matched, changed⟩

end Database

end Tabular
