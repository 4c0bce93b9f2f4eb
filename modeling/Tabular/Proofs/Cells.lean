import Tabular.Database.Cell

/-!
# Cells of a column

The order of cells does not depend on the side that a cell stands on. In a column that holds only what belongs
to its type, cells are the same when they are equal (`order_eq_iff`, `same_iff`), and every value of a kind is kept
there as it is (`ofStorage_cell`, `convert_eq_self`).
-/

namespace Tabular

open Sql

theorem Binary64.compare_swap (r s : Binary64) : (r.compare s).swap = s.compare r := by
  rw [Binary64.compare, Binary64.compare, Int.min_comm s.exponent]
  exact Std.OrientedOrd.eq_swap.symm

namespace Cell

theorem compareBytes_swap (a b : List UInt8) : (compareBytes a b).swap = compareBytes b a := by
  fun_induction compareBytes a b with
  | case1 => rfl
  | case2 b nonempty =>
    cases b with
    | nil => exact absurd rfl nonempty
    | cons => rfl
  | case3 a nonempty =>
    cases a with
    | nil => exact absurd rfl nonempty
    | cons => rfl
  | case4 a as b bs ih =>
    rw [compareBytes, Ordering.swap_then, ih, ← Std.OrientedOrd.eq_swap]

theorem order_swap (a b : Cell) : (order a b).swap = order b a := by
  cases a <;> cases b <;>
    first
    | rfl
    | exact Std.OrientedOrd.eq_swap.symm
    | exact Binary64.compare_swap _ _
    | exact compareBytes_swap _ _

theorem same_comm (a b : Cell) : same a b = same b a := by
  have sides : (order a b == .eq) = (order b a == .eq) := by
    rw [← order_swap a b]
    cases order a b <;> rfl
  rw [same, same, sides, Bool.and_comm (a != null)]

/-- What belongs in a column of a type: a cell of its class, or none. -/
def OfStorage : Storage → Cell → Prop
  | _, null => True
  | .integer, integer _ => True
  | .text, text _ => True
  | _, _ => False

theorem convert_eq_self {s : Storage} {a : Cell} (fits : OfStorage s a) : convert s a = a := by
  cases s <;> cases a <;> first | rfl | exact fits.elim

/-- Cells that belong in one column are told apart by their order. -/
theorem order_eq_iff {s : Storage} {a b : Cell} (left : OfStorage s a) (right : OfStorage s b) :
    order a b = .eq ↔ a = b := by
  cases s <;> cases a <;> cases b <;> simp_all [OfStorage, order, rank]

/-- Cells that belong in one column are the same when they are equal and not absent. -/
theorem same_iff {s : Storage} {a b : Cell} (left : OfStorage s a) (right : OfStorage s b) :
    same a b = true ↔ a = b ∧ a ≠ null := by
  cases s <;> cases a <;> cases b <;> simp_all [OfStorage, same, order]

theorem same_self {s : Storage} {a : Cell} (fits : OfStorage s a) (present : a ≠ null) : same a a = true :=
  (same_iff fits fits).mpr ⟨rfl, present⟩

end Cell

namespace Value

@[simp]
theorem cell_eq_null {v : Value} : v.cell = .null ↔ v = null := by
  cases v <;> simp [cell]

theorem cell_ne_null {v : Value} {kind : Kind} (known : v.kind? = some kind) : v.cell ≠ .null := by
  rw [ne_eq, cell_eq_null]
  rintro rfl
  cases known

theorem ofStorage_cell {v : Value} {k : Kind} (kind : v.kind? = some k) : Cell.OfStorage k.storage v.cell := by
  cases v <;> cases kind <;> trivial

/-- A value of a kind that is stored as an integer is stored as one. -/
theorem cell_of_integer {v : Value} {k : Kind} (kind : v.kind? = some k) (integer : k.storage = .integer) :
    ∃ n, v.cell = .integer n := by
  cases v with
  | null => cases kind
  | integer n => exact ⟨n, rfl⟩
  | text s =>
    obtain rfl := Option.some.inj kind
    cases integer
  | timestamp t => exact ⟨_, rfl⟩

end Value

end Tabular
