import Mathlib.Data.List.Nodup
import Mathlib.Data.List.Perm.Basic
import Mathlib.Data.String.Basic
import Tabular.Catalog.Files

/-!
# Paths

A text is split at a character into pieces without it (`splitOn_append`, `splitOn_of_notMem`). So a path that goes on
with a slash and a name leads from where it led to what has this name there (`Files.place?_child`), and a file name has
the extension that stands after its last dot (`Format.ofName?_eq_some`). A tree that lists every place once, and only
names that a path can hold, is the same tree in every order of its entries (`Files.WellFormed.at?_perm`).
-/

namespace String

private theorem splitOnAux_singleton (c : Char) (l m r : List Char) (done : List String) :
    splitOnAux (ofList (l ++ m ++ r)) (singleton c) ⟨utf8Len l⟩ ⟨utf8Len l + utf8Len m⟩ 0 done =
      done.reverse ++ (List.splitOnPPrepend (· == c) r m.reverse).map ofList := by
  have separator : Pos.Raw.get (singleton c) 0 = c := by simpa using get_of_valid [] [c]
  have past : Pos.Raw.next (singleton c) 0 = ⟨c.utf8Size⟩ := by simpa using next_of_valid [] c []
  have ended : Pos.Raw.atEnd (singleton c) ⟨c.utf8Size⟩ = true := by simpa using atEnd_of_valid [c] []
  -- The text is `l`, which is split already, `m`, which holds no separator, and `r`, which is not read yet.
  induction r generalizing l m done with
  | nil =>
    have final := atEnd_of_valid (l ++ m) []
    rw [utf8Len_append] at final
    rw [splitOnAux, if_pos (final.mpr rfl), extract_of_valid]
    simp
  | cons d r ih =>
    have piece := extract_of_valid l m (d :: r)
    have final := atEnd_of_valid (l ++ m) (d :: r)
    have here := get_of_valid (l ++ m) (d :: r)
    have next := next_of_valid (l ++ m) d r
    have found := ih (l ++ m ++ [d]) [] (ofList m :: done)
    have passed := ih l (m ++ [d]) done
    have shorter : l ++ m ++ [d] ++ [] ++ r = l ++ m ++ d :: r := by simp
    have longer : l ++ (m ++ [d]) ++ r = l ++ m ++ d :: r := by simp
    rw [shorter] at found
    rw [longer] at passed
    simp only [utf8Len_append, utf8Len_cons, utf8Len_nil, Nat.add_zero, Nat.zero_add] at final here next found passed
    generalize ofList (l ++ m ++ d :: r) = text at *
    rw [splitOnAux, if_neg (fun last => List.cons_ne_nil d r (final.mp last)), here, separator, next, List.headD_cons,
      List.splitOnPPrepend_cons_eq_if]
    by_cases same : d = c
    · subst same
      have back : Pos.Raw.unoffsetBy ⟨utf8Len l + utf8Len m + d.utf8Size⟩ ⟨d.utf8Size⟩ = ⟨utf8Len l + utf8Len m⟩ := by
        simp [Pos.Raw.unoffsetBy]
      simp only [beq_self_eq_true, if_true, past, ended, back, piece, found, List.reverse_reverse]
      simp
    · have other : (d == c) = false := beq_eq_false_iff_ne.mpr same
      have back : Pos.Raw.unoffsetBy ⟨utf8Len l + utf8Len m⟩ 0 = ⟨utf8Len l + utf8Len m⟩ := rfl
      simp only [other, back, next, Bool.false_eq_true, if_false]
      rw [Nat.add_assoc, passed, List.reverse_append]
      rfl

theorem splitOn_singleton (s : String) (c : Char) :
    s.splitOn (singleton c) = (s.toList.splitOnP (· == c)).map ofList := by
  have pieces := splitOnAux_singleton c [] [] s.toList []
  rw [splitOn, if_neg (by simp)]
  simpa using pieces

theorem splitOn_append (s t : String) (c : Char) :
    (s ++ singleton c ++ t).splitOn (singleton c) = s.splitOn (singleton c) ++ t.splitOn (singleton c) := by
  have pieces : (s.toList ++ c :: t.toList).splitOnP (· == c) =
      s.toList.splitOnP (· == c) ++ t.toList.splitOnP (· == c) :=
    List.splitOnP_append_cons _ _ (by simp)
  simp only [splitOn_singleton, toList_append, toList_singleton, List.append_assoc, List.singleton_append, pieces,
    List.map_append]

theorem splitOn_of_notMem {s : String} {c : Char} (absent : c ∉ s.toList) : s.splitOn (singleton c) = [s] := by
  have whole : s.toList.splitOnP (· == c) = [s.toList] := by
    apply List.splitOnP_eq_singleton
    intro d member
    have other : d ≠ c := fun same => absent (same ▸ member)
    simpa using other
  rw [splitOn_singleton, whole]
  simp

/-- A text with a character in it, at the last place where it stands. -/
theorem exists_append_of_mem {s : String} {c : Char} (member : c ∈ s.toList) :
    ∃ before after, s = before ++ singleton c ++ after ∧ c ∉ after.toList := by
  obtain ⟨after, before, split, absent⟩ := List.eq_append_cons_of_mem (List.mem_reverse.mpr member)
  refine ⟨ofList before.reverse, ofList after.reverse, ?_, by simpa using absent⟩
  apply toList_inj.mp
  rw [← List.reverse_inj, split]
  simp

theorem splitOn_ne_nil (s : String) (c : Char) : s.splitOn (singleton c) ≠ [] := by
  rw [splitOn_singleton, ne_eq, List.map_eq_nil_iff]
  exact List.splitOnP_ne_nil _ _

theorem splitOn_eq_empty {s : String} {c : Char} (pieces : s.splitOn (singleton c) = [""]) : s = "" := by
  by_cases member : c ∈ s.toList
  · obtain ⟨before, after, rfl, absent⟩ := exists_append_of_mem member
    rw [splitOn_append, splitOn_of_notMem absent] at pieces
    have lengths := congrArg List.length pieces
    have some := List.length_pos_of_ne_nil (splitOn_ne_nil before c)
    simp only [List.length_append, List.length_singleton] at lengths
    omega
  · rw [splitOn_of_notMem member] at pieces
    exact List.singleton_inj.mp pieces

theorem notMem_of_mem_splitOn {s piece : String} {c : Char} (member : piece ∈ s.splitOn (singleton c)) :
    c ∉ piece.toList := by
  obtain ⟨n, long⟩ : ∃ n, s.toList.length = n := ⟨_, rfl⟩
  induction n using Nat.strongRecOn generalizing s piece with
  | ind n ih =>
    by_cases inside : c ∈ s.toList
    · obtain ⟨before, after, rfl, absent⟩ := exists_append_of_mem inside
      rw [splitOn_append, splitOn_of_notMem absent, List.mem_append] at member
      rcases member with earlier | last
      · refine ih before.toList.length ?_ earlier rfl
        rw [← long]
        simp only [toList_append, List.length_append, toList_singleton, List.length_singleton]
        omega
      · rwa [List.mem_singleton.mp last]
    · rw [splitOn_of_notMem inside] at member
      rwa [List.mem_singleton.mp member]

end String

namespace Tabular

open Text

namespace Format

/-- The extensions of the files in a format. -/
def extensions : Format → List String
  | yaml => ["yaml", "yml"]
  | json => ["json"]

theorem extension?_append (stem : String) {ext : String} (plain : '.' ∉ ext.toList) :
    extension? (stem ++ "." ++ ext) = if stem = "" then none else some ext := by
  have pieces : (stem ++ "." ++ ext).splitOn "." = stem.splitOn "." ++ [ext] := by
    rw [show "." = String.singleton '.' from rfl, String.splitOn_append, String.splitOn_of_notMem plain]
  have some : stem.splitOn "." ≠ [] := String.splitOn_ne_nil stem '.'
  rw [extension?, pieces, List.reverse_append, List.reverse_singleton, List.singleton_append]
  show (if _ then _ else _) = _
  by_cases front : stem = ""
  · subst front
    have whole : "".splitOn "." = [""] := String.splitOn_of_notMem (c := '.') (by simp)
    rw [whole]
    rfl
  · have more : stem.splitOn "." ≠ [""] := fun alone => front (String.splitOn_eq_empty (c := '.') alone)
    rw [if_neg front, if_neg]
    simp [some, more]

theorem extension?_of_notMem {name : String} (plain : '.' ∉ name.toList) : extension? name = none := by
  have pieces : name.splitOn "." = [name] := String.splitOn_of_notMem plain
  rw [extension?, pieces]
  rfl

/-- A name has the extension that follows its last dot, unless this dot is its first character. -/
theorem extension?_eq_some {name ext : String} :
    extension? name = some ext ↔ ∃ stem, stem ≠ "" ∧ name = stem ++ "." ++ ext ∧ '.' ∉ ext.toList := by
  constructor
  · intro known
    by_cases dotted : '.' ∈ name.toList
    · obtain ⟨stem, last, rfl, plain⟩ := String.exists_append_of_mem dotted
      rw [show String.singleton '.' = "." from rfl, extension?_append stem plain] at known
      by_cases front : stem = ""
      · simp [front] at known
      · rw [if_neg front] at known
        obtain rfl := Option.some.inj known
        exact ⟨stem, front, rfl, plain⟩
    · rw [extension?_of_notMem dotted] at known
      cases known
  · rintro ⟨stem, named, rfl, plain⟩
    rw [extension?_append stem plain, if_neg named]

/-- The format of a file is known by its extension. -/
theorem ofName?_eq_some {name : String} {f : Format} :
    ofName? name = some f ↔ ∃ stem ext, stem ≠ "" ∧ ext ∈ f.extensions ∧ name = stem ++ "." ++ ext := by
  have known : ofName? name = some f ↔ ∃ ext, extension? name = some ext ∧ ext ∈ f.extensions := by
    cases extended : extension? name with
    | none => simp [ofName?, extended]
    | some ext =>
      by_cases yaml : ext = "yaml"
      · cases f <;> simp [ofName?, extended, yaml, extensions]
      by_cases yml : ext = "yml"
      · cases f <;> simp [ofName?, extended, yml, extensions]
      by_cases json : ext = "json"
      · cases f <;> simp [ofName?, extended, json, extensions]
      · cases f <;> simp [ofName?, extended, yaml, yml, json, extensions]
  have plain : ∀ ext ∈ f.extensions, '.' ∉ ext.toList := by
    cases f <;> decide
  rw [known]
  constructor
  · rintro ⟨ext, extended, listed⟩
    obtain ⟨stem, named, same, _⟩ := extension?_eq_some.mp extended
    exact ⟨stem, ext, named, listed, same⟩
  · rintro ⟨stem, ext, named, listed, same⟩
    exact ⟨ext, extension?_eq_some.mpr ⟨stem, named, same, plain ext listed⟩, listed⟩

end Format

/-- What a file or a directory may be called. -/
structure IsName (name : String) : Prop where
  nonempty : name ≠ ""
  notHere : name ≠ "."
  notBack : name ≠ ".."
  noSlash : '/' ∉ name.toList
  noNul : '\x00' ∉ name.toList

instance (name : String) : Decidable (IsName name) :=
  decidable_of_iff (name ≠ "" ∧ name ≠ "." ∧ name ≠ ".." ∧ '/' ∉ name.toList ∧ '\x00' ∉ name.toList)
    ⟨fun ⟨nonempty, notHere, notBack, noSlash, noNul⟩ => ⟨nonempty, notHere, notBack, noSlash, noNul⟩,
      fun named => ⟨named.nonempty, named.notHere, named.notBack, named.noSlash, named.noNul⟩⟩

theorem IsName.splitOn {name : String} (named : IsName name) : name.splitOn "/" = [name] :=
  String.splitOn_of_notMem named.noSlash

theorem IsName.splitOn_child {name : String} (named : IsName name) (directory : String) :
    (directory ++ "/" ++ name).splitOn "/" = directory.splitOn "/" ++ [name] := by
  have pieces := String.splitOn_append directory name '/'
  rwa [show String.singleton '/' = "/" from rfl, named.splitOn] at pieces

/-- A name is the path of a file by itself. -/
theorem IsName.fileName? {name : String} (named : IsName name) : Format.fileName? name = some name := by
  rw [Format.fileName?, named.splitOn]
  simp [named.nonempty, named.notHere, named.notBack]

namespace Files

/-- A tree that lists every place once. -/
structure WellFormed (f : Files) : Prop where
  distinct : (f.entries.map (·.1)).Nodup
  names : ∀ p e, (p, e) ∈ f.entries → ∀ name ∈ p, IsName name
  home : ∀ name ∈ f.home, IsName name

variable {f f' : Files} {p q : Place} {e : Entry} {path name directory : String} {content : Content}

theorem step?_name (inside : f.isDirectory p = true) (named : IsName name) : f.step? p name = some (p ++ [name]) := by
  have nul : name.contains '\x00' = false := by
    rw [String.contains_char_eq]
    exact decide_eq_false named.noNul
  simp [step?, inside, named.nonempty, named.notHere, named.notBack, nul]

/-- A step stays, goes back or leads on to a name. -/
theorem step?_eq_some (step : f.step? p name = some q) (plain : '/' ∉ name.toList) :
    q = p ∨ q = p.dropLast ∨ q = p ++ [name] ∧ IsName name := by
  rw [step?] at step
  by_cases inside : f.isDirectory p = true
  · by_cases stays : name = "" ∨ name = "."
    · simp [inside, stays] at step
      exact .inl step.symm
    by_cases back : name = ".."
    · simp [inside, back] at step
      exact .inr (.inl step.symm)
    by_cases nul : '\x00' ∈ name.toList
    · simp [inside, stays, back, String.contains_char_eq, nul] at step
    · simp [inside, stays, back, String.contains_char_eq, nul] at step
      rw [not_or] at stays
      exact .inr (.inr ⟨step.symm, ⟨stays.1, stays.2, back, plain, nul⟩⟩)
  · simp [inside] at step

/-- A path that goes on after a slash leads to a name in the directory that it led to. -/
theorem place?_child (found : f.place? directory = some p) (inside : f.isDirectory p = true) (named : IsName name) :
    f.place? (directory ++ "/" ++ name) = some (p ++ [name]) := by
  have given : directory ≠ "" := by
    rintro rfl
    cases found
  rw [place?, if_neg given] at found
  have start : f.start (directory ++ "/" ++ name) = f.start directory := by
    have leads : (directory ++ "/" ++ name).startsWith "/" = directory.startsWith "/" := by
      obtain ⟨c, rest, characters⟩ := List.exists_cons_of_ne_nil (by simpa using given : directory.toList ≠ [])
      rw [Bool.eq_iff_iff, String.startsWith_string_iff, String.startsWith_string_iff]
      simp [characters]
    rw [Files.start, Files.start, leads]
  rw [place?, if_neg (by simp), named.splitOn_child, start, List.foldlM_append, found]
  exact (by simpa using step?_name inside named)

theorem place?_name (inside : f.isDirectory f.home = true) (named : IsName name) :
    f.place? name = some (f.home ++ [name]) := by
  have start : f.start name = f.home := by
    have relative : ¬ name.startsWith "/" = true := by
      rw [String.startsWith_string_iff]
      exact fun first => named.noSlash (first.subset List.mem_cons_self)
    rw [Files.start, if_neg relative]
  rw [place?, if_neg named.nonempty, named.splitOn, start]
  exact (by simpa using step?_name inside named)

/-- Steps from a place that something may stand at lead to another. -/
theorem isName_of_steps {names : List String} (plain : ∀ name ∈ names, '/' ∉ name.toList)
    (named : ∀ name ∈ p, IsName name) (arrived : names.foldlM f.step? p = some q) : ∀ name ∈ q, IsName name := by
  induction names generalizing p with
  | nil =>
    obtain rfl := Option.some.inj arrived
    exact named
  | cons first rest ih =>
    rw [List.foldlM_cons] at arrived
    obtain ⟨between, step, later⟩ := Option.bind_eq_some_iff.mp arrived
    refine ih (fun name member => plain name (List.mem_cons_of_mem _ member)) ?_ later
    rcases step?_eq_some step (plain first List.mem_cons_self) with rfl | rfl | ⟨rfl, isName⟩
    · exact named
    · exact fun name member => named name ((List.dropLast_sublist p).subset member)
    · intro name member
      rcases List.mem_append.mp member with earlier | last
      · exact named name earlier
      · rwa [List.mem_singleton.mp last]

/-- A path leads to a place that something may stand at. -/
theorem WellFormed.place? (wellFormed : f.WellFormed) (found : f.place? path = some p) : ∀ name ∈ p, IsName name := by
  by_cases empty : path = ""
  · simp [Files.place?, empty] at found
  · rw [Files.place?, if_neg empty] at found
    refine isName_of_steps (fun name member => String.notMem_of_mem_splitOn (c := '/') member) ?_ found
    rw [start]
    split
    · exact fun name member => absurd member List.not_mem_nil
    · exact wellFormed.home

theorem WellFormed.at?_eq_some (wellFormed : f.WellFormed) (place : p ≠ []) :
    f.at? p = some e ↔ (p, e) ∈ f.entries := by
  obtain ⟨name, more, rfl⟩ := List.exists_cons_of_ne_nil place
  show f.entries.lookup (name :: more) = some e ↔ _
  constructor
  · intro found
    obtain ⟨before, after, split, _⟩ := List.lookup_eq_some_iff.mp found
    rw [split]
    exact List.mem_append_right _ List.mem_cons_self
  · intro listed
    cases found : f.entries.lookup (name :: more) with
    | none => exact absurd (List.lookup_eq_none_iff.mp found _ listed) (by simp)
    | some other =>
      obtain ⟨before, after, split, _⟩ := List.lookup_eq_some_iff.mp found
      have there : (name :: more, other) ∈ f.entries := by
        rw [split]
        exact List.mem_append_right _ List.mem_cons_self
      have same := List.inj_on_of_nodup_map wellFormed.distinct there listed rfl
      rw [(Prod.mk.inj same).2]

theorem wellFormed_empty : WellFormed {} :=
  ⟨List.nodup_nil, fun _ _ member => absurd member List.not_mem_nil, fun _ member => absurd member List.not_mem_nil⟩

theorem write?_name (named : IsName name) (inside : f.isDirectory f.home = true)
    (free : f.isDirectory (f.home ++ [name]) = false) :
    f.write? name content = some (f.put (f.home ++ [name]) (.file content)) := by
  rw [Files.write?, place?_name inside named]
  show (if f.isDirectory (f.home ++ [name]) then none else some (f.put (f.home ++ [name]) (.file content))) = _
  rw [if_neg (by simp [free])]

/-- What is put at a place takes the place of what stood there. -/
theorem WellFormed.put (wellFormed : f.WellFormed) (named : ∀ name ∈ p, IsName name) (e : Entry) :
    (f.put p e).WellFormed where
  distinct := by
    have others : ((f.entries.filter (·.1 ≠ p)).map (·.1)).Nodup :=
      wellFormed.distinct.sublist (List.filter_sublist.map _)
    rw [Files.put, List.map_append, List.nodup_append]
    refine ⟨others, List.nodup_singleton _, ?_⟩
    rintro q member _ last rfl
    obtain ⟨entry, kept, rfl⟩ := List.mem_map.mp member
    obtain ⟨_, apart⟩ := List.mem_filter.mp kept
    exact (of_decide_eq_true apart) (List.mem_singleton.mp last)
  names := by
    intro q there member
    rcases List.mem_append.mp member with earlier | last
    · exact wellFormed.names q there (List.mem_filter.mp earlier).1
    · rw [(Prod.mk.inj (List.mem_singleton.mp last)).1]
      exact named
  home := wellFormed.home

/-- A tree stays well formed when a file is written. -/
theorem WellFormed.write? (wellFormed : f.WellFormed) (written : f.write? path content = some f') : f'.WellFormed := by
  obtain ⟨p, found, put⟩ := Option.bind_eq_some_iff.mp written
  by_cases taken : f.isDirectory p = true
  · simp [taken] at put
  · rw [if_neg taken] at put
    obtain rfl := Option.some.inj put
    exact wellFormed.put (wellFormed.place? found) _

/-! ## What is written -/

theorem at?_put (place : p ≠ []) (q : Place) (e : Entry) : (f.put p e).at? q = if q = p then some e else f.at? q := by
  have others : ∀ entries : List (Place × Entry),
      (entries.filter (·.1 ≠ p)).lookup q = if q = p then none else entries.lookup q := by
    intro entries
    induction entries with
    | nil => simp
    | cons entry rest ih =>
      obtain ⟨r, there⟩ := entry
      by_cases here : r = p
      · rw [List.filter_cons_of_neg (by simpa using here), ih]
        by_cases same : q = p
        · simp [same]
        · simp [same, List.lookup_cons, beq_eq_false_iff_ne.mpr (here ▸ same)]
      · rw [List.filter_cons_of_pos (by simpa using here), List.lookup_cons, ih, List.lookup_cons]
        by_cases same : q = p
        · simp [same, beq_eq_false_iff_ne.mpr (Ne.symm here)]
        · simp [same]
  cases q with
  | nil => rw [at?, at?, if_neg place.symm]
  | cons name more =>
    show (f.entries.filter (·.1 ≠ p) ++ [(p, e)]).lookup (name :: more) =
      if name :: more = p then some e else f.entries.lookup (name :: more)
    rw [List.lookup_append, others]
    by_cases same : name :: more = p
    · simp [same]
    · simp [same, List.lookup_cons, beq_eq_false_iff_ne.mpr same]

/-- A file that was written is opened under the same path. -/
theorem open?_write? (written : f.write? path content = some f') : f'.open? path = some (.file content) := by
  obtain ⟨p, found, put⟩ := Option.bind_eq_some_iff.mp written
  by_cases taken : f.isDirectory p = true
  · simp [taken] at put
  rw [if_neg taken] at put
  obtain rfl := Option.some.inj put
  have place : p ≠ [] := by
    rintro rfl
    exact taken rfl
  -- A file took the place of no directory, so every path leads where it led before.
  have directories : (f.put p (.file content)).isDirectory = f.isDirectory := by
    funext q
    rw [isDirectory, isDirectory, at?_put place]
    by_cases here : q = p
    · have free : (f.at? p == some .directory) = false := Bool.eq_false_iff.mpr taken
      rw [if_pos here, here, free]
      exact beq_eq_false_iff_ne.mpr (by simp)
    · rw [if_neg here]
  have steps : (f.put p (.file content)).step? = f.step? := by
    funext q name
    rw [step?, step?, directories]
  have same : (f.put p (.file content)).place? path = f.place? path := by
    rw [place?, place?, steps]
    rfl
  rw [open?, same, found, Option.bind_some, at?_put place, if_pos rfl]

/-! ## The order of the entries -/

theorem WellFormed.perm (wellFormed : f.WellFormed) (home : f'.home = f.home) (same : f'.entries.Perm f.entries) :
    f'.WellFormed where
  distinct := (same.map _).nodup_iff.mpr wellFormed.distinct
  names := fun q e member => wellFormed.names q e (same.mem_iff.mp member)
  home := home ▸ wellFormed.home

/-- What stands at a place does not depend on the order of the entries. -/
theorem WellFormed.at?_perm (wellFormed : f.WellFormed) (home : f'.home = f.home) (same : f'.entries.Perm f.entries) :
    f'.at? = f.at? := by
  funext p
  by_cases root : p = []
  · subst root
    rfl
  · apply Option.ext
    intro e
    rw [(wellFormed.perm home same).at?_eq_some root, wellFormed.at?_eq_some root, same.mem_iff]

theorem place?_congr (home : f'.home = f.home) (same : f'.at? = f.at?) : f'.place? = f.place? := by
  have steps : f'.step? = f.step? := by
    funext p name
    rw [step?, step?, isDirectory, isDirectory, same]
  funext path
  rw [Files.place?, Files.place?, steps, start, start, home]

theorem open?_congr (home : f'.home = f.home) (same : f'.at? = f.at?) : f'.open? = f.open? := by
  funext path
  rw [open?, open?, place?_congr home same, same]

end Files

namespace Catalog

variable {files : Files} {directory name : String} {p : Place} {f : Format} {content : Content}

theorem ofPath_name (named : IsName name) (format : Format.ofName? name = some f) : Format.ofPath name = .ok f := by
  rw [Format.ofPath, named.fileName?, Option.bind_some, format]

theorem ofPath_child (named : IsName name) (format : Format.ofName? name = some f) :
    Format.ofPath (directory ++ "/" ++ name) = .ok f := by
  have last : Format.fileName? (directory ++ "/" ++ name) = some name := by
    rw [Format.fileName?, named.splitOn_child, List.filter_append]
    simp [named.nonempty, named.notHere, named.notBack]
  rw [Format.ofPath, last, Option.bind_some, format]

theorem load_of_open? {files : Files} {path : String} {f : Format} {content : Content}
    (format : Format.ofPath path = .ok f) (opened : files.open? path = some (.file content)) :
    load files path = read f content := by
  simp only [load, format, opened]
  rfl

/-- A file in a directory is loaded under its path: its content is read in the format that its name tells. -/
theorem load_child (found : files.place? directory = some p) (inside : files.isDirectory p = true)
    (named : IsName name) (format : Format.ofName? name = some f)
    (there : files.at? (p ++ [name]) = some (.file content)) :
    load files (directory ++ "/" ++ name) = read f content := by
  apply load_of_open? (ofPath_child named format)
  rw [Files.open?, Files.place?_child found inside named]
  exact there

end Catalog

end Tabular
