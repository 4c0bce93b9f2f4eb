import Tabular.Json.Reading
import Mathlib.Data.List.Nodup
import Mathlib.Data.List.Perm.Basic

/-!
# Records of JSON values

The fields of a record are looked up by their names, so that neither the order of members nor any member of another
name matters to what a record `Holds` (`exists_of_fields?`). What an object must not do is repeat a name, or have a key
that is no text (`Proper`).
-/

namespace Tabular.Json

variable {ms ms' : List (Option String × Json)} {name : String} {value : Json}

theorem member?_cons (key : Option String) (j : Json) :
    member? ((key, j) :: ms) name = if key = some name then some j else member? ms name := by
  rw [member?, List.find?_cons]
  by_cases same : key = some name
  · simp [same]
  · simp [same, member?]

theorem member?_eq_none : member? ms name = none ↔ some name ∉ ms.map (·.1) := by
  rw [member?, Option.map_eq_none_iff, List.find?_eq_none, List.mem_map]
  constructor
  · rintro none ⟨m, listed, named⟩
    exact none m listed (by simpa using named)
  · intro absent m listed named
    exact absent ⟨m, listed, by simpa using named⟩

/-- The member of a name that is not repeated is found wherever it stands. -/
theorem member?_eq_some (once : (ms.map (·.1)).count (some name) ≤ 1) :
    member? ms name = some value ↔ field name value ∈ ms := by
  induction ms with
  | nil => simp [member?]
  | cons m rest ih =>
    obtain ⟨key, j⟩ := m
    rw [List.map_cons, List.count_cons] at once
    rw [member?_cons, List.mem_cons, field, Prod.mk.injEq]
    by_cases same : key = some name
    · have alone : (some name, value) ∉ rest := by
        intro listed
        have again : 0 < (rest.map (·.1)).count (some name) :=
          List.count_pos_iff.mpr (List.mem_map_of_mem (f := (·.1)) listed)
        rw [if_pos (by simpa using same)] at once
        omega
      simp [same, alone, eq_comm]
    · have others : (rest.map (·.1)).count (some name) ≤ 1 := by omega
      rw [if_neg same, ih others, field]
      simp [Ne.symm same]

/-- The order of members does not matter unless their name is repeated. -/
theorem member?_perm (once : (ms.map (·.1)).count (some name) ≤ 1) (order : ms.Perm ms') :
    member? ms name = member? ms' name := by
  have once' : (ms'.map (·.1)).count (some name) ≤ 1 := by
    rwa [← (order.map (·.1)).count_eq]
  apply Option.ext
  intro value
  rw [member?_eq_some once, member?_eq_some once', order.mem_iff]

/-- Keys under which an object gives the fields with some names: they are texts, and none of the names is repeated. -/
structure Proper (names : List String) (keys : List (Option String)) : Prop where
  texts : ∀ key ∈ keys, key.isSome = true
  once : ∀ name ∈ names, keys.count (some name) ≤ 1

variable {names : List String}

theorem fields?_of_proper (proper : Proper names (ms.map (·.1))) :
    fields? names (.object ms) = some (names.map (member? ms)) := by
  rw [fields?, if_pos]
  refine ⟨?_, ?_⟩
  · simpa using proper.texts
  · simpa using proper.once

theorem proper_of_fields? {vs : List (Option Json)} (fields : fields? names (.object ms) = some vs) :
    Proper names (ms.map (·.1)) := by
  rw [fields?] at fields
  split at fields
  · next given => exact ⟨by simpa using given.1, by simpa using given.2⟩
  · cases fields

theorem Proper.perm {keys keys' : List (Option String)} (proper : Proper names keys) (order : keys.Perm keys') :
    Proper names keys' where
  texts key listed := proper.texts key (order.mem_iff.mpr listed)
  once name known := by
    rw [← order.count_eq]
    exact proper.once name known

/-- Another key may join when it is no known one or not there yet. -/
theorem proper_cons {keys : List (Option String)} (free : name ∈ names → some name ∉ keys) :
    Proper names (some name :: keys) ↔ Proper names keys := by
  constructor
  · rintro ⟨texts, once⟩
    refine ⟨fun key listed => texts key (List.mem_cons_of_mem _ listed), fun n known => ?_⟩
    have := once n known
    rw [List.count_cons] at this
    omega
  · rintro ⟨texts, once⟩
    refine ⟨by simpa using texts, fun n known => ?_⟩
    rw [List.count_cons]
    by_cases same : some name = some n
    · obtain rfl := Option.some.inj same
      simp [List.count_eq_zero.mpr (free known)]
    · have different : (some name == some n) = false := beq_eq_false_iff_ne.mpr same
      simpa [different] using once n known

/-! ## Fields of either form -/

/-- The value that a record has for a field: the member of that name, or the item in its place. -/
inductive Holds (names : List String) (name : String) (value : Json) : Json → Prop
  | member {ms : List (Option String × Json)} (listed : field name value ∈ ms) :
      Holds names name value (.object ms)
  | item {items : List Json} {i : Nat} (place : names[i]? = some name) (given : items[i]? = some value) :
      Holds names name value (.array items)

/-- The fields of a record are what it holds under their names, in either form. -/
theorem exists_of_fields? {names : List String} (distinct : names.Nodup) {j : Json} {vs : List (Option Json)}
    (fields : fields? names j = some vs) : ∃ m : String → Option Json, vs = names.map m ∧
      ∀ name ∈ names, ∀ value, m name = some value ↔ Holds names name value j := by
  cases j with
  | null | bool _ | number _ | string _ => cases fields
  | array items =>
    rw [fields?] at fields
    split at fields
    · next short =>
      obtain rfl := Option.some.inj fields
      refine ⟨fun name => items[names.idxOf name]?, ?_, fun name known value => ?_⟩
      · apply List.ext_getElem
        · simp
          omega
        · intro i inside inside'
          have place : i < names.length := by simpa using inside'
          rw [List.getElem_map, distinct.idxOf_getElem i place, List.getElem_append]
          by_cases given : i < items.length
          · simp [given]
          · simp [given]
      · constructor
        · intro given
          exact .item (List.getElem?_idxOf known) given
        · rintro (_ | ⟨place, given⟩)
          obtain ⟨inside, rfl⟩ := List.getElem?_eq_some_iff.mp place
          show items[names.idxOf _]? = _
          rw [distinct.idxOf_getElem _ inside, given]
    · cases fields
  | object ms =>
    have proper := proper_of_fields? fields
    rw [fields?_of_proper proper] at fields
    obtain rfl := Option.some.inj fields
    refine ⟨member? ms, rfl, fun name known value => ?_⟩
    rw [member?_eq_some (proper.once name known)]
    constructor
    · exact .member
    · rintro (listed | _)
      exact listed

end Tabular.Json
