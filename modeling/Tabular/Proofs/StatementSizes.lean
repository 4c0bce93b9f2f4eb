import Tabular.Database
import Tabular.Proofs.StatementTokens

/-!
# The sizes of statements

A statement is within the limits of a database by the number of its parameters, the lengths of its lists of columns
and the depth of its conditions (`requireSize_eq_ok`). One condition alone is never too deep, and nothing but the
parameters of a page tells apart the sizes of two pages (`withinLimits_paged`).
-/

namespace Tabular

open Sql Database

/-- A statement that a database does not refuse for its size. -/
structure Sql.Statement.WithinLimits (st : Statement) : Prop where
  parameters : st.params.length ≤ maxParameters
  lists : ∀ l ∈ st.lists, l.2 ≤ maxColumns
  depth : depth st.conditions ≤ maxDepth

namespace Database

variable {st : Statement} {s : Selection} {cs : List Condition}

theorem requireParameters_eq_ok {n : Nat} : requireParameters n = .ok () ↔ n ≤ maxParameters := by
  rw [requireParameters]
  split
  · exact iff_of_false nofun (Nat.not_le.mpr ‹_›)
  · exact iff_of_true rfl (Nat.le_of_not_lt ‹_›)

theorem requireSize_eq_ok : requireSize st = .ok () ↔ st.WithinLimits := by
  rw [requireSize, Checks.bind_eq_ok]
  constructor
  · rintro ⟨_, parameters, rest⟩
    cases long : st.lists.find? (maxColumns < ·.2) with
    | some l =>
      rw [long] at rest
      cases rest
    | none =>
      rw [long] at rest
      have shallow : ¬ maxDepth < depth st.conditions := by
        intro deep
        rw [if_pos deep] at rest
        cases rest
      refine ⟨requireParameters_eq_ok.mp parameters, fun l listed => ?_, Nat.le_of_not_lt shallow⟩
      simpa using List.find?_eq_none.mp long l listed
  · rintro ⟨parameters, lists, shallow⟩
    have none : st.lists.find? (maxColumns < ·.2) = none :=
      List.find?_eq_none.mpr fun l listed => by simpa using lists l listed
    refine ⟨(), requireParameters_eq_ok.mpr parameters, ?_⟩
    rw [none]
    exact if_neg (Nat.not_lt.mpr shallow)

theorem requireSize_bind_eq_ok {β : Type} {next : Unit → Except DatabaseFault β} {b : β} :
    requireSize st >>= next = .ok b ↔ st.WithinLimits ∧ next () = .ok b := by
  rw [Checks.bind_eq_ok]
  constructor
  · rintro ⟨_, sized, done⟩
    exact ⟨requireSize_eq_ok.mp sized, done⟩
  · rintro ⟨within, done⟩
    exact ⟨(), requireSize_eq_ok.mpr within, done⟩

/-- Whatever else is wrong with it, a statement with too many parameters is refused for these. -/
theorem requireSize_of_parameters (many : maxParameters < st.params.length) :
    requireSize st = .error .tooManyParameters := by
  rw [requireSize, requireParameters, if_pos many]
  rfl

theorem depth_le (c : Condition) : c.test.depth ≤ 4 := by
  obtain ⟨column, test⟩ := c
  unfold Test.depth
  split <;> decide

theorem depth_nil : depth [] ≤ maxDepth := by
  decide

theorem depth_singleton (c : Condition) : depth [c] ≤ maxDepth := by
  have shallow : depth [c] ≤ 4 := by
    by_cases empty : c.test = .among []
    · simp [depth, empty]
    · simp [depth, empty, depth_le]
  exact Nat.le_trans shallow (by decide)

theorem length_operands_singleton (c : Condition) : (operands [c]).length = c.test.operands.length := by
  rw [operands, List.flatMap_singleton]

/-- Nothing but its conditions counts in a statement that binds only their operands and lists no columns. -/
theorem withinLimits_of_conditions (bound : st.params = operands st.conditions) (unlisted : st.lists = []) :
    st.WithinLimits ↔ (operands st.conditions).length ≤ maxParameters ∧ depth st.conditions ≤ maxDepth := by
  constructor
  · rintro ⟨few, _, shallow⟩
    exact ⟨by rwa [bound] at few, shallow⟩
  · rintro ⟨few, shallow⟩
    refine ⟨by rwa [bound], fun l listed => ?_, shallow⟩
    rw [unlisted] at listed
    cases listed

/-! ## The five kinds of statement -/

theorem length_params_select (s : Selection) :
    (Statement.select s).params.length = (operands s.conditions).length + (pageValues s.page).length := by
  rw [Statement.params, prepare_params, List.length_append]

theorem withinLimits_select : (Statement.select s).WithinLimits ↔
    (operands s.conditions).length + (pageValues s.page).length ≤ maxParameters ∧ s.columns.length ≤ maxColumns ∧
      s.order.length ≤ maxColumns ∧ depth s.conditions ≤ maxDepth := by
  constructor
  · rintro ⟨few, lists, shallow⟩
    rw [length_params_select] at few
    exact ⟨few, lists _ List.mem_cons_self, lists _ (List.mem_cons_of_mem _ List.mem_cons_self), shallow⟩
  · rintro ⟨few, columns, order, shallow⟩
    refine ⟨by rwa [length_params_select], fun l listed => ?_, shallow⟩
    rcases List.mem_cons.mp listed with rfl | listed
    · exact columns
    · rw [List.mem_singleton.mp listed]
      exact order

/-- One row can be looked up in any table. -/
theorem withinLimits_lookup {table : String} {columns : List String} (c : Condition) (few : columns.length ≤ maxColumns)
    (one : c.test.operands.length = 1) : (Statement.select ⟨table, columns, [c], [], {}⟩).WithinLimits := by
  refine withinLimits_select.mpr ⟨?_, few, Nat.zero_le _, depth_singleton c⟩
  show (operands [c]).length + 0 ≤ maxParameters
  rw [length_operands_singleton, one]
  decide

theorem params_count (q : Tally) : (Statement.count q).params = operands q.conditions :=
  prepare_params _

theorem withinLimits_count {q : Tally} : (Statement.count q).WithinLimits ↔
    (operands q.conditions).length ≤ maxParameters ∧ depth q.conditions ≤ maxDepth :=
  withinLimits_of_conditions (params_count q) rfl

theorem withinLimits_countAll {table : String} : (Statement.count ⟨table, []⟩).WithinLimits :=
  withinLimits_count.mpr ⟨Nat.zero_le _, depth_nil⟩

theorem withinLimits_delete {q : Removal} : (Statement.delete q).WithinLimits ↔
    (operands q.conditions).length ≤ maxParameters ∧ depth q.conditions ≤ maxDepth :=
  withinLimits_of_conditions (prepare_params _) rfl

/-- One row can be deleted from any table. -/
theorem withinLimits_removal {table : String} (c : Condition) (one : c.test.operands.length = 1) :
    (Statement.delete ⟨table, [c]⟩).WithinLimits := by
  refine withinLimits_delete.mpr ⟨?_, depth_singleton c⟩
  rw [length_operands_singleton, one]
  decide

theorem withinLimits_update {q : Revision} : (Statement.update q).WithinLimits ↔
    q.values.length + (operands q.conditions).length ≤ maxParameters ∧ q.values.length ≤ maxColumns ∧
      depth q.conditions ≤ maxDepth := by
  have parameters : (Statement.update q).params.length = q.values.length + (operands q.conditions).length := by
    rw [Statement.params, prepare_params, List.length_append, List.length_map]
  constructor
  · rintro ⟨few, lists, shallow⟩
    rw [parameters] at few
    exact ⟨few, lists _ List.mem_cons_self, shallow⟩
  · rintro ⟨few, values, shallow⟩
    refine ⟨by rwa [parameters], fun l listed => ?_, shallow⟩
    rw [List.mem_singleton.mp listed]
    exact values

/-- One row can be updated in any table. -/
theorem withinLimits_revision {table : String} {values : List (String × Value)} (c : Condition)
    (few : values.length ≤ maxColumns) (one : c.test.operands.length = 1) :
    (Statement.update ⟨table, values, [c]⟩).WithinLimits := by
  refine withinLimits_update.mpr ⟨?_, few, depth_singleton c⟩
  rw [length_operands_singleton, one]
  exact Nat.le_trans (Nat.succ_le_succ few) (by decide)

/-- Conditions that are within the limits in a deletion are so in a count. -/
theorem withinLimits_tally {table : String} (within : (Statement.delete ⟨table, cs⟩).WithinLimits) :
    (Statement.count ⟨table, cs⟩).WithinLimits :=
  withinLimits_count.mpr (withinLimits_delete.mp within)

/-- A selection is within the limits as a whole when one of its pages is. -/
theorem withinLimits_unpaged (within : (Statement.select s).WithinLimits) :
    (Statement.select { s with page := {} }).WithinLimits := by
  obtain ⟨few, columns, order, shallow⟩ := withinLimits_select.mp within
  exact withinLimits_select.mpr ⟨Nat.le_of_add_right_le few, columns, order, shallow⟩

/-- A page of a selection that is within the limits as a whole is so unless its own parameters are too many. -/
theorem withinLimits_paged (within : (Statement.select { s with page := {} }).WithinLimits) (p : Page) :
    (Statement.select { s with page := p }).WithinLimits ↔
      (operands s.conditions).length + (pageValues p).length ≤ maxParameters := by
  obtain ⟨_, columns, order, shallow⟩ := withinLimits_select.mp within
  rw [withinLimits_select]
  exact ⟨And.left, fun few => ⟨few, columns, order, shallow⟩⟩

end Database

end Tabular
