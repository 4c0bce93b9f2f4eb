import Tabular.Sql.Statement

/-!
# Quoted names

A quoted name is read from a text exactly when the text begins with it and no quote stands behind it
(`scan_eq_some`). So quotes inside a name, however many stand in a row, are never taken for the one that closes it.
A list of names is split exactly where it was put together (`quoted_names`).
-/

namespace Tabular.Sql.Quoted

variable {cs text rest : List Char} {s : String}

theorem scanName_double (cs : List Char) (apart : rest.head? ≠ some '"') :
    scanName (double cs ++ '"' :: rest) = some (cs, rest) := by
  induction cs with
  | nil =>
    -- The scanner looks one character further, where no second quote stands.
    cases rest with
    | nil => rfl
    | cons c more =>
      have other : c ≠ '"' := by simpa using apart
      simp [double, scanName, other]
  | cons c more ih =>
    by_cases quoted : c = '"'
    · simp [double, scanName, quoted, ih]
    · simp [double, scanName, quoted, ih]

theorem eq_double_of_scanName (read : scanName text = some (cs, rest)) :
    text = double cs ++ '"' :: rest ∧ rest.head? ≠ some '"' := by
  fun_induction scanName text generalizing cs with
  | case1 => simp at read
  | case2 more ih =>
    obtain ⟨⟨name, after⟩, later, same⟩ := Option.map_eq_some_iff.mp read
    obtain ⟨rfl, rfl⟩ := Prod.mk.inj same
    obtain ⟨rfl, apart⟩ := ih later
    exact ⟨by simp [double], apart⟩
  | case3 more single =>
    obtain ⟨rfl, rfl⟩ := Prod.mk.inj (Option.some.inj read)
    refine ⟨rfl, ?_⟩
    intro quoted
    obtain ⟨others, rfl⟩ := List.head?_eq_some_iff.mp quoted
    exact single others rfl
  | case4 c more _ unquoted ih =>
    obtain ⟨⟨name, after⟩, later, same⟩ := Option.map_eq_some_iff.mp read
    obtain ⟨rfl, rfl⟩ := Prod.mk.inj same
    obtain ⟨rfl, apart⟩ := ih later
    have other : c ≠ '"' := unquoted
    exact ⟨by simp [double, other], apart⟩

theorem toList_quote (s : String) : (quote s).toList = '"' :: double s.toList ++ ['"'] :=
  String.toList_ofList

/-- A quoted name stands at the front of a text, and no other name does. -/
theorem scan_eq_some :
    scan text = some (s, rest) ↔ text = (quote s).toList ++ rest ∧ rest.head? ≠ some '"' := by
  rw [toList_quote]
  constructor
  · intro read
    unfold scan at read
    split at read
    · obtain ⟨⟨cs, after⟩, name, same⟩ := Option.map_eq_some_iff.mp read
      obtain ⟨rfl, rfl⟩ := Prod.mk.inj same
      obtain ⟨rfl, apart⟩ := eq_double_of_scanName name
      exact ⟨by simp, apart⟩
    · simp at read
  · rintro ⟨rfl, apart⟩
    simp [scan, scanName_double _ apart]

/-! ## Lists of names -/

theorem length_after_comma (read : scan text = some (s, ',' :: ' ' :: rest)) : rest.length < text.length := by
  obtain ⟨rfl, _⟩ := scan_eq_some.mp read
  simp [toList_quote]
  omega

/-- One name or more, with a comma and a blank between any two. -/
def splitNames (text : List Char) : Option (List String) :=
  match _ : scan text with
  | some (name, []) => some [name]
  | some (name, ',' :: ' ' :: rest) => (splitNames rest).map (name :: ·)
  | _ => none
termination_by text.length
decreasing_by exact length_after_comma ‹_›

/-- The names that a text lists. -/
def split (text : List Char) : Option (List String) :=
  if text = [] then some [] else splitNames text

theorem toList_nameList_cons (name next : String) (others : List String) :
    (nameList (name :: next :: others)).toList =
      (quote name).toList ++ ',' :: ' ' :: (nameList (next :: others)).toList := by
  simp [nameList, String.intercalate_cons_cons]

/-- Names are split where they were put together. -/
theorem splitNames_nameList (name : String) (others : List String) :
    splitNames (nameList (name :: others)).toList = some (name :: others) := by
  induction others generalizing name with
  | nil =>
    have found : scan (nameList [name]).toList = some (name, []) :=
      scan_eq_some.mpr ⟨by simp [nameList], by simp⟩
    unfold splitNames
    split <;> simp_all
  | cons next more ih =>
    have found : scan (nameList (name :: next :: more)).toList =
        some (name, ',' :: ' ' :: (nameList (next :: more)).toList) :=
      scan_eq_some.mpr ⟨toList_nameList_cons name next more, by simp⟩
    unfold splitNames
    split <;> simp_all

/-- A text that is split was put together from the names. -/
theorem eq_nameList_of_splitNames {names : List String} (split : splitNames text = some names) :
    text = (nameList names).toList ∧ names ≠ [] := by
  fun_induction splitNames text generalizing names with
  | case1 text name read =>
    obtain rfl := Option.some.inj split
    obtain ⟨rfl, _⟩ := scan_eq_some.mp read
    simp [nameList]
  | case2 text name rest read ih =>
    obtain ⟨others, later, rfl⟩ := Option.map_eq_some_iff.mp split
    obtain ⟨rfl, _⟩ := scan_eq_some.mp read
    obtain ⟨rfl, some⟩ := ih later
    obtain ⟨next, more, rfl⟩ := List.exists_cons_of_ne_nil some
    exact ⟨(toList_nameList_cons name next more).symm, List.cons_ne_nil _ _⟩
  | case3 => simp at split

theorem split_eq_some {names : List String} : split text = some names ↔ text = (nameList names).toList := by
  unfold split
  by_cases empty : text = []
  · subst empty
    cases names with
    | nil => simp [nameList]
    | cons name others =>
      have written : (nameList (name :: others)).toList ≠ [] := by
        cases others with
        | nil => simp [nameList, toList_quote]
        | cons next more => simp [toList_nameList_cons, toList_quote]
      simp [written.symm]
  · rw [if_neg empty]
    constructor
    · intro split
      exact (eq_nameList_of_splitNames split).1
    · rintro rfl
      cases names with
      | nil => simp [nameList] at empty
      | cons name others => exact splitNames_nameList name others

/-- A name is read from the front of a text exactly when the text is the quoted name and what is left, and what is left
does not go on with a quote. A text is split into names exactly when it is the list of them. So what a name holds is of
no account: no quote in it ends it, and no comma in it ends an entry of the list. -/
theorem quoted_names (text rest : List Char) (s : String) (names : List String) :
    (scan text = some (s, rest) ↔ text = (quote s).toList ++ rest ∧ rest.head? ≠ some '"') ∧
      (split text = some names ↔ text = (nameList names).toList) :=
  ⟨scan_eq_some, split_eq_some⟩

-- Quotes at the ends of a name, a separator inside it, and a name of nothing but quotes.
example : split "\"\"\"a\"\", \"\"b\"\"\", \"\", \"\"\"\"\"\"".toList = some ["\"a\", \"b\"", "", "\"\""] := by
  rw [split_eq_some]
  decide

end Tabular.Sql.Quoted
